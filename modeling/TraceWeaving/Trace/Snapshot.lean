import TraceWeaving.Settings
import TraceWeaving.Text.Quoted

/-!
# Snapshots

A snapshot is a copy of a runtime value that does not change when the program goes
on.  Strings are shown in quotes wherever a value is displayed; only the text that a
concatenation takes from a string is the string itself.
-/

namespace TraceWeaving
namespace Trace

/-- What a program throws. -/
structure Throwable where
  cls : String
  message : Option String
  deriving DecidableEq

namespace Throwable

def display (t : Throwable) : String :=
  match t.message with
  | some message => t.cls ++ ": " ++ message
  | none => t.cls

def simpleClass (t : Throwable) : String :=
  Text.lastSegment t.cls

end Throwable

inductive Snapshot where
  | null
  | int (n : Int64)
  | bool (b : Bool)
  | str (s : String)
  | array (items : List Snapshot)
  | object (cls : String)
  | error (t : Throwable)

namespace Snapshot

mutual

def display : Snapshot → String
  | null => "null"
  | int n => Text.intText n.toInt
  | bool b => Settings.boolText b
  | str s => Text.displayed s
  | array items => "[" ++ displayItems items ++ "]"
  | object cls => cls ++ "@instance"
  | error t => t.display

def displayItems : List Snapshot → String
  | [] => ""
  | [item] => display item
  | item :: rest => display item ++ ", " ++ displayItems rest

end

def text : Snapshot → String
  | str s => s
  | value => value.display

end Snapshot
end Trace
end TraceWeaving
