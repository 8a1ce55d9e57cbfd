import TraceWeaving.Eval.Fault
import TraceWeaving.Eval.State

/-!
# Outcomes

Evaluating ends with a result, with a thrown value or with a fault, and leaves a
state in each case; or it runs out of steps and leaves nothing.
-/

namespace TraceWeaving
namespace Eval

open Trace (Throwable)

inductive Outcome (α : Type) where
  | done (result : α) (s : State)
  | thrown (t : Throwable) (s : State)
  | fault (f : Fault) (s : State)
  | exhausted

namespace Outcome

def mapState {α : Type} (f : State → State) : Outcome α → Outcome α
  | done result s => done result (f s)
  | thrown t s => thrown t (f s)
  | fault e s => fault e (f s)
  | exhausted => exhausted

end Outcome

/-- Work that depends on the state and may change it. -/
def Action (α : Type) : Type :=
  State → Outcome α

namespace Action

variable {α β : Type}

@[inline]
def pure (a : α) : Action α :=
  fun s => .done a s

@[inline]
def bind (x : Action α) (f : α → Action β) : Action β :=
  fun s =>
    match x s with
    | .done a s => f a s
    | .thrown t s => .thrown t s
    | .fault e s => .fault e s
    | .exhausted => .exhausted

instance : Monad Action where
  pure := Action.pure
  bind := Action.bind

@[inline]
def state : Action State :=
  fun s => .done s s

@[inline]
def modify (f : State → State) : Action Unit :=
  fun s => .done () (f s)

def raise (cls message : String) : Action α :=
  fun s => .thrown ⟨cls, some message⟩ s

def raiseValue (t : Throwable) : Action α :=
  fun s => .thrown t s

def fail (f : Fault) : Action α :=
  fun s => .fault f s

def exhausted : Action α :=
  fun _ => .exhausted

def orFail (f : Fault) : Option α → Action α
  | some a => pure a
  | none => fail f

/-- A missing result means that the work would not end. -/
def orDiverge : Option α → Action α
  | some a => pure a
  | none => exhausted

/-- Runs work in a new scope, which ends with it in every case. -/
def inScope (x : Action α) : Action α :=
  fun s => (x s.pushScope).mapState State.popScope

/-- Runs work in a new frame, which ends with it in every case. -/
def inFrame (frame : Frame) (x : Action α) : Action α :=
  fun s => (x (s.pushFrame frame)).mapState State.popFrame

end Action
end Eval
end TraceWeaving
