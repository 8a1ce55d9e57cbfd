import TraceWeaving.Json.Token

/-!
# Reading a JSON text

The tokens drive a stack of open containers.  A container that is closed is handed
to the one around it; the document is complete when a value is handed to the empty
stack.  With a nesting limit, a container at the limit or beyond it becomes
`unreadable`.
-/

namespace TraceWeaving
namespace Json
namespace Parser

/-- An open container with what it holds so far, last first. -/
inductive Frame where
  | array (items : List Json)
  | object (fields : List (Option String × Json)) (key : Option String)

inductive Expects where
  | item
  | itemOrEnd
  | key
  | keyOrEnd
  | colon
  | next
  | nothing (document : Json)

structure State where
  stack : List Frame
  expects : Expects

def deliver (value : Json) : List Frame → State
  | [] => ⟨[], .nothing value⟩
  | .array items :: rest => ⟨.array (value :: items) :: rest, .next⟩
  | .object fields key :: rest => ⟨.object ((key, value) :: fields) none :: rest, .next⟩

/-- An object is readable when all of its keys are. -/
def objectOf (fields : List (Option String × Json)) : Json :=
  match fields.mapM fun f => f.1.map fun key => (key, f.2) with
  | some fields => .obj fields
  | none => .unreadable

def Frame.value : Frame → Json
  | .array items => .arr items.reverse
  | .object fields _ => objectOf fields.reverse

def withinLimit (limit : Option Nat) (level : Nat) : Bool :=
  match limit with
  | some bound => level < bound
  | none => true

def close (limit : Option Nat) (frame : Frame) (rest : List Frame) : State :=
  deliver (if withinLimit limit (rest.length + 1) then frame.value else .unreadable) rest

def beginValue (stack : List Frame) : Token → Option State
  | .scalar value => some (deliver value stack)
  | .quoted content => some (deliver ((content.map Json.str).getD .unreadable) stack)
  | .beginArray => some ⟨.array [] :: stack, .itemOrEnd⟩
  | .beginObject => some ⟨.object [] none :: stack, .keyOrEnd⟩
  | _ => none

def beginKey : List Frame → Option String → Option State
  | .object fields _ :: rest, content => some ⟨.object fields content :: rest, .colon⟩
  | _, _ => none

def step (limit : Option Nat) (state : State) (token : Token) : Option State :=
  match state.expects, token, state.stack with
  | .item, token, stack => beginValue stack token
  | .itemOrEnd, .endArray, frame :: rest => some (close limit frame rest)
  | .itemOrEnd, token, stack => beginValue stack token
  | .key, .quoted content, stack => beginKey stack content
  | .keyOrEnd, .endObject, frame :: rest => some (close limit frame rest)
  | .keyOrEnd, .quoted content, stack => beginKey stack content
  | .colon, .colon, stack => some ⟨stack, .item⟩
  | .next, .comma, .array items :: rest => some ⟨.array items :: rest, .item⟩
  | .next, .comma, .object fields key :: rest => some ⟨.object fields key :: rest, .key⟩
  | .next, .endArray, .array items :: rest => some (close limit (.array items) rest)
  | .next, .endObject, .object fields key :: rest =>
      some (close limit (.object fields key) rest)
  | _, _, _ => none

def finish (state : State) : Option Json :=
  match state.expects with
  | .nothing document => some document
  | _ => none

end Parser

/-- Reads a whole text; containers nested `limit` deep or deeper are unreadable. -/
def parse? (text : String) (limit : Option Nat) : Option Json := do
  let tokens ← Token.scan? text.toList
  let state ← tokens.foldlM (Parser.step limit) ⟨[], .item⟩
  Parser.finish state

end Json
end TraceWeaving
