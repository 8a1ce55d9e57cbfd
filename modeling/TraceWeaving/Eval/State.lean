import TraceWeaving.Eval.Bindings
import TraceWeaving.Eval.Value
import TraceWeaving.Trace.Recorder

/-!
# State of an evaluation

The frame of the running method with its scopes, the frames of its callers, the
fields of the classes that are in use, the heap, and the recorder.
-/

namespace TraceWeaving
namespace Eval

open Trace (Recorder)

/-- The activation of a method; the innermost scope comes first. -/
structure Frame where
  cls : String
  scopes : List (Bindings Value)

namespace Frame

def start (cls : String) (params : Bindings Value) : Frame :=
  ⟨cls, [params]⟩

def lookup? (f : Frame) (name : String) : Option Value :=
  f.scopes.findSome? fun scope => scope.get? name

def declare (f : Frame) (name : String) (value : Value) : Frame :=
  match f.scopes with
  | scope :: rest => { f with scopes := scope.insert name value :: rest }
  | [] => { f with scopes := [[(name, value)]] }

def assignIn? (name : String) (value : Value) :
    List (Bindings Value) → Option (List (Bindings Value))
  | [] => none
  | scope :: rest =>
      if scope.contains name then some (scope.insert name value :: rest)
      else (assignIn? name value rest).map (scope :: ·)

def assign? (f : Frame) (name : String) (value : Value) : Option Frame :=
  (assignIn? name value f.scopes).map fun scopes => { f with scopes := scopes }

def pushScope (f : Frame) : Frame :=
  { f with scopes := [] :: f.scopes }

def popScope (f : Frame) : Frame :=
  { f with scopes := f.scopes.tail }

end Frame

structure State where
  frame : Frame
  /-- The frames of the callers, the nearest first. -/
  callers : List Frame
  /-- The fields of every class in use. -/
  fields : Bindings (Bindings Value)
  heap : Heap
  recorder : Recorder

namespace State

def initial : State where
  frame := .start "" []
  callers := []
  fields := []
  heap := #[]
  recorder := .empty

def field? (s : State) (cls name : String) : Option Value :=
  (s.fields.get? cls).bind fun fields => fields.get? name

def setField (s : State) (cls name : String) (value : Value) : State :=
  let fields := (s.fields.get? cls).getD []
  { s with fields := s.fields.insert cls (fields.insert name value) }

/-- Whether the fields of a class are in use. -/
def hasClass (s : State) (cls : String) : Bool :=
  s.fields.contains cls

/-- Puts the fields of a class to use, with none bound yet. -/
def openClass (s : State) (cls : String) : State :=
  { s with fields := s.fields.insert cls [] }

def pushScope (s : State) : State :=
  { s with frame := s.frame.pushScope }

def popScope (s : State) : State :=
  { s with frame := s.frame.popScope }

def declare (s : State) (name : String) (value : Value) : State :=
  { s with frame := s.frame.declare name value }

def pushFrame (s : State) (frame : Frame) : State :=
  { s with frame := frame, callers := s.frame :: s.callers }

def popFrame (s : State) : State :=
  match s.callers with
  | caller :: rest => { s with frame := caller, callers := rest }
  | [] => s

end State
end Eval
end TraceWeaving
