import TraceWeaving.Eval.Expr
import TraceWeaving.Eval.Stmt

/-!
# Running programs

The evaluator of a program, with a bound on the nesting of steps.  A bound that is
large enough does not show in the outcome; with a bound that is too small the
evaluation is exhausted.
-/

namespace TraceWeaving
namespace Eval

open Code

mutual

def evalWithin (p : Program) : Nat → Expr → Action Value
  | 0, _ => .exhausted
  | steps + 1, e =>
      evalStep p ⟨evalWithin p steps, execWithin p steps, iterateWithin p steps⟩ e

def execWithin (p : Program) : Nat → Stmt → Action Flow
  | 0, _ => .exhausted
  | steps + 1, s =>
      execStep ⟨evalWithin p steps, execWithin p steps, iterateWithin p steps⟩ s

def iterateWithin (p : Program) : Nat → Option String → Loop → Action Flow
  | 0, _, _ => .exhausted
  | steps + 1, label, loop =>
      iterateStep ⟨evalWithin p steps, execWithin p steps, iterateWithin p steps⟩ label loop

end

/-- The evaluator of a program with a bound on the number of nested steps. -/
def Program.evaluator (p : Program) (steps : Nat) : Evaluator :=
  ⟨evalWithin p steps, execWithin p steps, iterateWithin p steps⟩

/-- A bound that no run reaches in a reasonable time. -/
def ampleSteps : Nat :=
  4611686018427387904

namespace Program

/-- Calls a method of a class, which is given by its simple or qualified name. -/
def call (p : Program) (steps : Nat) (cls method : String) (args : List Value) :
    Action Value := do
  let c ← p.findClass cls
  invoke (p.evaluator steps) c method args

def fieldValue (p : Program) (steps : Nat) (cls name : String) : Action Value :=
  readField p (p.evaluator steps) cls name

end Program

def loadArguments (args : List Trace.Snapshot) : Action (List Value) := do
  let s ← Action.state
  let (values, heap) := s.heap.loadAll args
  Action.modify fun s => { s with heap := heap }
  return values

/-- How a run ends, with the result as a snapshot. -/
inductive Ending where
  | value (result : Trace.Snapshot)
  | uncaught (t : Trace.Throwable)
  | faulted (f : Fault)

namespace Ending

def message? : Ending → Option String
  | value _ => none
  | uncaught t => some ("uncaught " ++ t.display)
  | faulted f => some f.message

end Ending

def Outcome.ending? : Outcome Trace.Snapshot → Option (Ending × State)
  | done result s => some (.value result, s)
  | thrown t s => some (.uncaught t, s)
  | fault f s => some (.faulted f, s)
  | exhausted => none

namespace Program

def runCall (p : Program) (steps : Nat) (cls method : String) (args : List Trace.Snapshot) :
    Action Trace.Snapshot := do
  let values ← loadArguments args
  let result ← p.call steps cls method values
  result.snapshot

def runField (p : Program) (steps : Nat) (cls name : String) : Action Trace.Snapshot := do
  let result ← p.fieldValue steps cls name
  result.snapshot

end Program

end Eval
end TraceWeaving
