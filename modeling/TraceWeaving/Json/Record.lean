import TraceWeaving.Json.Basic
import TraceWeaving.Text.Numeral

/-!
# Reading records and lists

A record is an object with named fields, or an array with the fields in the order of
their declaration.  Unknown fields of an object are skipped; a known field must not be
repeated, and an array must not hold more than the declared fields.  What a missing
field means depends on the field: it may be required, optional, or have a default.
-/

namespace TraceWeaving
namespace Json

/-- What a record says about one declared field. -/
inductive Slot where
  | given (value : Json)
  /-- Not among the fields of an object. -/
  | omitted
  /-- Beyond the end of an array. -/
  | cutOff

namespace Slot

def ofObject (fields : List (String × Json)) (key : String) : Option Slot :=
  match fields.filter fun f => f.1 = key with
  | [] => some omitted
  | [(_, value)] => some (given value)
  | _ => none

def ofRecord? (keys : List String) : Json → Option (List Slot)
  | .obj fields => keys.mapM (ofObject fields)
  | .arr items =>
      if items.length ≤ keys.length then
        some (items.map given ++ List.replicate (keys.length - items.length) cutOff)
      else none
  | _ => none

section

variable {α : Type} (read : Json → Option α)

def nullable : Json → Option (Option α)
  | .null => some none
  | value => (read value).map some

def required : Slot → Option α
  | given value => read value
  | _ => none

/-- A field that may be left out of an object, but not cut off an array. -/
def optional : Slot → Option (Option α)
  | given value => nullable read value
  | omitted => some none
  | cutOff => none

/-- A field that may be left out in both forms. -/
def withDefault (default : α) : Slot → Option α
  | given value => read value
  | _ => some default

end

end Slot

def list? {α : Type} (read : Json → Option α) : Json → Option (List α)
  | .arr items => items.mapM read
  | _ => none

def pair? {α β : Type} (first : Json → Option α) (second : Json → Option β) :
    Json → Option (α × β)
  | .arr [a, b] => do
      return (← first a, ← second b)
  | _ => none

def int64? : Json → Option Int64
  | .int n => Text.int64OfInt? n
  | _ => none

def uint64? : Json → Option UInt64
  | .int n => n.toNat?.bind Text.uint64OfNat?
  | _ => none

/-- A variant without content: its name alone, or its name with `null`. -/
def bareTag? : Json → Option String
  | .str tag => some tag
  | .obj [(tag, .null)] => some tag
  | _ => none

end Json
end TraceWeaving
