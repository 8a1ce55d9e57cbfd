/-!
# Bindings

Finite maps from names to values: the variables of a scope, the fields of a class.
-/

namespace TraceWeaving
namespace Eval

/-- Each name is bound at most once when bindings are made by `insert`. -/
abbrev Bindings (α : Type) := List (String × α)

namespace Bindings

def get? {α : Type} (b : Bindings α) (name : String) : Option α :=
  b.lookup name

def contains {α : Type} (b : Bindings α) (name : String) : Bool :=
  (get? b name).isSome

def insert {α : Type} (name : String) (value : α) : Bindings α → Bindings α
  | [] => [(name, value)]
  | entry :: rest =>
      if entry.1 = name then (name, value) :: rest else entry :: insert name value rest

/-- Binds names to values one after the other, as long as there are both. -/
def ofPairs {α : Type} (pairs : List (String × α)) : Bindings α :=
  pairs.foldl (fun b pair => insert pair.1 pair.2 b) []

end Bindings
end Eval
end TraceWeaving
