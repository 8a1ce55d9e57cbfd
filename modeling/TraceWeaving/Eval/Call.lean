import TraceWeaving.Eval.Place

/-!
# Calls

Calls of methods and constructors of the unit, calls of the few methods that strings
and throwables have, and calls on the runtime class, which are reports.
-/

namespace TraceWeaving
namespace Eval

open Code
open Trace (Report)

/-- The number of callers at which a further call overflows the stack. -/
def maxCallers : Nat :=
  256

section

variable (p : Program) (r : Evaluator)

/-! ## Methods and constructors -/

def resultOf : Flow → Action Value
  | .normal => return .null
  | .returned value => return value
  | .broke _ => .fail (.strayControl "break")
  | .continued _ => .fail (.strayControl "continue")

def checkStack (c : ClassDecl) (m : MethodDecl) : Action Unit := do
  let s ← Action.state
  if maxCallers ≤ s.callers.length then
    .raise "StackOverflowError" (c.name ++ "." ++ m.name)

def runMethod (c : ClassDecl) (m : MethodDecl) (args : List Value) : Action Value :=
  match m.body with
  | none => .fail (.unsupported ("call to '" ++ c.name ++ "." ++ m.name ++ "' without body"))
  | some body => do
      checkStack c m
      useClass r c
      Action.modify fun s => { s with recorder := s.recorder.keepInvoking c.name m.name }
      let params := Bindings.ofPairs ((m.params.map (·.name)).zip args)
      let flow ← Action.inFrame (.start c.name params) (r.execAll body)
      resultOf flow

/-- Runs the first method with the given name and number of parameters. -/
def invoke (c : ClassDecl) (name : String) (args : List Value) : Action Value :=
  match c.methods.find? fun m =>
      !m.isConstructor && m.name = name && m.params.length = args.length with
  | some m => runMethod r c m args
  | none => .fail (.methodNotFound c.name name args.length)

/-- Makes an object; a class needs no constructor for an object without arguments. -/
def construct (c : ClassDecl) (args : List Value) : Action Value := do
  useClass r c
  match c.methods.find? fun m => m.isConstructor && m.params.length = args.length with
  | some m =>
      let _ ← runMethod r c m args
  | none =>
      unless args.isEmpty do
        Action.fail (.methodNotFound c.name c.name args.length)
  return .object c.name

/-- Makes an object of a class of the unit; any other class makes a throwable whose
message is the first argument. -/
def instantiate (cls : String) (args : List Value) : Action Value :=
  match p.unit.class? cls with
  | some c => construct r c args
  | none =>
      match args with
      | [] => return .throwable ⟨cls, none⟩
      | .null :: _ => return .throwable ⟨cls, none⟩
      | value :: _ => do
          return .throwable ⟨cls, some (← value.text)⟩

/-! ## Reports -/

def snapshots : List Value → Action (List Trace.Snapshot)
  | [] => return []
  | value :: rest => do
      let copy ← value.snapshot
      return copy :: (← snapshots rest)

def texts : List Value → Action (List String)
  | [] => return []
  | value :: rest => do
      let text ← value.text
      return text :: (← texts rest)

def elementsOf (address : Nat) : Action (List Value) := do
  let s ← Action.state
  return (s.heap.items address).toList

def reportOf (hook : String) (args : List Value) : Action Report :=
  match hook, args with
  | "entering", [_, .array names, .array values] => do
      let names ← texts (← elementsOf names)
      return .entering names (← snapshots (← elementsOf values))
  | "exiting", [_] => return .exiting
  | "returning", [_, value] => do
      return .returning (← value.snapshot)
  | "valueChanged", [_, path, value] => do
      let path ← path.text
      return .changed path (← value.snapshot)
  | "onError", [_, error] => do
      return .failed (← error.snapshot)
  | "timeout", [_, .int millis] =>
      return .deadline (if 0 ≤ millis then millis.toUInt64 else 0)
  | _, _ => .fail (.unknownHook hook)

def methodIdOf : List Value → Action String
  | [] => return ""
  | value :: _ => value.text

def callHook (hook : String) (args : List Value) : Action Value := do
  let method ← methodIdOf args
  let report ← reportOf hook args
  Action.modify fun s => { s with recorder := s.recorder.receive method report }
  return .null

/-- Reports an entry whose arrays are written out in the call.  Nothing else can refer to
them, so none is kept. -/
def reportEntry (id : Expr) (names values : List Expr) : Action Value := do
  let id ← r.eval id
  let names ← r.evalAll names
  let values ← r.evalAll values
  let method ← id.text
  let names ← texts names
  let values ← snapshots values
  Action.modify fun s => { s with recorder := s.recorder.receive method (.entering names values) }
  return .null

def evalHook (hook : String) (args : List Expr) : Action Value :=
  match hook, args with
  | "entering", [id, .newArray _ names, .newArray _ values] => reportEntry r id names values
  | hook, args => do
      let args ← r.evalAll args
      callHook hook args

/-! ## Receivers -/

def callOnValue (receiver : Value) (name : String) (args : List Value) : Action Value :=
  match receiver, name, args with
  | .object cls, name, args => do
      let c ← p.findClass cls
      invoke r c name args
  | .null, name, _ => .raise "NullPointerException" name
  | .throwable t, "getMessage", [] => return (t.message.map Value.str).getD .null
  | .str s, "length", [] => return .int (Int64.ofNat s.length)
  | .str s, "equals", [other] => do
      return .bool (← Value.equals (.str s) other)
  | receiver, name, args => .fail (.methodNotFound receiver.typeName name args.length)

def sleep : List Value → Action Value
  | [.int millis] =>
      if 0 ≤ millis then do
        Action.modify fun s => { s with recorder := s.recorder.advance millis.toInt.toNat }
        return .null
      else .raise "IllegalArgumentException" "sleep"
  | _ => .raise "IllegalArgumentException" "sleep"

/-- What a call is made on. -/
inductive Receiver where
  | runtime
  | ownClass
  | namedClass (name : String)
  | clock
  | value (e : Expr)

/-- A call of `sleep` on a `Thread` that is neither class nor variable is a pause. -/
def receiverOf (receiver : Option Expr) (method : String) : Action Receiver :=
  match receiver with
  | none => return .ownClass
  | some .self => return .ownClass
  | some (.name ident) => do
      if ident = p.runtimeClass then return .runtime
      if ← p.isClassName ident then return .namedClass ident
      let s ← Action.state
      if ident = "Thread" ∧ method = "sleep" ∧ (s.frame.lookup? ident).isNone then
        return .clock
      return .value (.name ident)
  | some e => return .value e

def evalCall (receiver : Option Expr) (method : String) (args : List Expr) : Action Value := do
  match ← receiverOf p receiver method with
  | .runtime => evalHook r method args
  | .ownClass =>
      let args ← r.evalAll args
      let s ← Action.state
      let c ← p.findClass s.frame.cls
      invoke r c method args
  | .namedClass cls =>
      let c ← p.findClass cls
      let args ← r.evalAll args
      invoke r c method args
  | .clock =>
      let args ← r.evalAll args
      sleep args
  | .value e =>
      let receiver ← r.eval e
      let args ← r.evalAll args
      callOnValue p r receiver method args

end

end Eval
end TraceWeaving
