import TraceWeaving.Trace.Snapshot
import TraceWeaving.Code.Basic

/-!
# Runtime values

Integers of both widths, booleans, strings, `null`, arrays, objects and throwables.
Arrays are shared: a value refers to an array of the heap.  Objects have no state of
their own, since fields live in their class.

Copying and comparing follow references into the heap.  Both are bounded by the size
of the heap, and have no result exactly when they would go round in a circle.
-/

namespace TraceWeaving
namespace Eval

open Code
open Trace (Snapshot Throwable)

inductive Value where
  | null
  | int (n : Int64)
  | bool (b : Bool)
  | str (s : String)
  | array (address : Nat)
  | object (cls : String)
  | throwable (t : Throwable)
  deriving DecidableEq

namespace Value

def typeName : Value → String
  | null => "null"
  | int _ => "int"
  | bool _ => "boolean"
  | str _ => "String"
  | array _ => "array"
  | object _ => "object"
  | throwable _ => "Throwable"

def ofLiteral : Literal → Value
  | .int n => int n
  | .long n => int n
  | .bool b => bool b
  | .str s => str s
  | .null => null

def initial (type : TypeName) : Value :=
  if type ∈ ["int", "long", "short", "byte", "char"] then int 0
  else if type = "boolean" then bool false
  else null

end Value

/-- The arrays that were made, in the order they were made in. -/
abbrev Heap := Array (Array Value)

namespace Heap

def items (heap : Heap) (address : Nat) : Array Value :=
  heap.getD address #[]

def alloc (heap : Heap) (items : Array Value) : Value × Heap :=
  (.array heap.size, heap.push items)

def store (heap : Heap) (address index : Nat) (value : Value) : Heap :=
  heap.modify address fun items => items.setIfInBounds index value

/-! ## Copying -/

/-- The copy of a value whose arrays are nested at most `depth` deep. -/
def snapshotWithin (heap : Heap) : Nat → Value → Option Snapshot
  | _, .null => some .null
  | _, .int n => some (.int n)
  | _, .bool b => some (.bool b)
  | _, .str s => some (.str s)
  | _, .object cls => some (.object cls)
  | _, .throwable t => some (.error t)
  | 0, .array _ => none
  | depth + 1, .array address =>
      ((heap.items address).toList.mapM (snapshotWithin heap depth)).map .array

/-- The copy of a value, unless an array contains itself. -/
def snapshot? (heap : Heap) (value : Value) : Option Snapshot :=
  heap.snapshotWithin (heap.size + 1) value

mutual

def load (heap : Heap) : Snapshot → Value × Heap
  | .null => (.null, heap)
  | .int n => (.int n, heap)
  | .bool b => (.bool b, heap)
  | .str s => (.str s, heap)
  | .object cls => (.object cls, heap)
  | .error t => (.throwable t, heap)
  | .array items =>
      let (values, heap) := loadAll heap items
      heap.alloc values.toArray

def loadAll (heap : Heap) : List Snapshot → List Value × Heap
  | [] => ([], heap)
  | item :: rest =>
      let (value, heap) := load heap item
      let (values, heap) := loadAll heap rest
      (value :: values, heap)

end

/-! ## Comparing -/

def allEqual (equal : Value → Value → Option Bool) : List (Value × Value) → Option Bool
  | [] => some true
  | (a, b) :: rest =>
      match equal a b with
      | some true => allEqual equal rest
      | other => other

/-- Arrays are equal when they have equal elements. -/
def equalWithin (heap : Heap) : Nat → Value → Value → Option Bool
  | 0, .array _, .array _ => none
  | depth + 1, .array a, .array b =>
      let left := (heap.items a).toList
      let right := (heap.items b).toList
      if left.length = right.length then
        allEqual (equalWithin heap depth) (left.zip right)
      else some false
  | _, a, b => some (a = b)

/-- Compares two values, unless the comparison goes round in a circle. -/
def equal? (heap : Heap) (a b : Value) : Option Bool :=
  heap.equalWithin (heap.size * heap.size + 1) a b

end Heap
end Eval
end TraceWeaving
