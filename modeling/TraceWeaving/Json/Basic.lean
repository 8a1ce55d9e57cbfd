/-!
# JSON documents

A document as a tree.  The fields of an object keep their order and their
repetitions, and an integer is kept apart from every other way of writing a number,
because readers of documents accept one and refuse the other.

Some texts are well formed and still carry no data: a string with half of a
surrogate pair, or a container nested beyond the limit of the reader.  They are kept
as `unreadable`, which can be skipped but not used.
-/

namespace TraceWeaving

inductive Json where
  | null
  | bool (b : Bool)
  | int (n : Int)
  | real (text : String)
  | str (s : String)
  | arr (items : List Json)
  | obj (fields : List (String × Json))
  | unreadable

instance : Inhabited Json := ⟨.null⟩

namespace Json

mutual

/-- The number of containers around the most deeply nested value. -/
def depth : Json → Nat
  | .arr items => depthOfItems items + 1
  | .obj fields => depthOfFields fields + 1
  | _ => 0

def depthOfItems : List Json → Nat
  | [] => 0
  | item :: rest => max (depth item) (depthOfItems rest)

def depthOfFields : List (String × Json) → Nat
  | [] => 0
  | (_, value) :: rest => max (depth value) (depthOfFields rest)

end

/-- The value of a field; of a repeated field the last one counts. -/
def field? (key : String) : Json → Option Json
  | .obj fields => fields.foldl (fun found f => if f.1 = key then some f.2 else found) none
  | _ => none

def text? : Json → Option String
  | .str s => some s
  | _ => none

def bool? : Json → Option Bool
  | .bool b => some b
  | _ => none

def items? : Json → Option (List Json)
  | .arr items => some items
  | _ => none

def nat? : Json → Option Nat
  | .int n => n.toNat?
  | _ => none

def isNull : Json → Bool
  | .null => true
  | _ => false

end Json
end TraceWeaving
