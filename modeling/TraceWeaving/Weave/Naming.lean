import TraceWeaving.Hook

/-!
# Fresh names

Woven variables and labels are numbered in the order in which they are made, so that
no two of them are equal and none is equal to a name outside the reserved ones.
-/

namespace TraceWeaving
namespace Weave

/-- Work that makes fresh names; the state is the number of the next one. -/
abbrev Naming := StateM Nat

def reservedName (purpose : String) (number : Nat) : String :=
  Hooks.reservedStart ++ purpose ++ "_" ++ Text.natText number

def freshName (purpose : String) : Naming String :=
  fun number => (reservedName purpose number, number + 1)

end Weave
end TraceWeaving
