import TraceWeaving.Trace.Event

/-!
# Recording

A recorder turns reports into events and keeps them in order of arrival.  It knows
the time and the deadlines that are set; a deadline belongs to the method that set it
last, and is judged when that method exits.
-/

namespace TraceWeaving
namespace Trace

/-- What a method reports about itself. -/
inductive Report where
  | entering (names : List String) (values : List Snapshot)
  | exiting
  | returning (value : Snapshot)
  | changed (path : String) (value : Snapshot)
  | failed (error : Snapshot)
  | deadline (millis : UInt64)

/-- A deadline counts from the time it was set; times are in milliseconds. -/
structure Deadline where
  method : String
  setAt : Nat
  millis : UInt64
  deriving DecidableEq

namespace Deadline

def isMissed (d : Deadline) (now : Nat) : Bool :=
  d.millis.toNat < now - d.setAt

end Deadline

/-- What is kept: events, and the methods that are invoked. -/
inductive Entry where
  | event (e : Event)
  | invoking (cls method : String)

structure Recorder where
  clock : Nat
  /-- The deadlines that are set, the latest first. -/
  deadlines : List Deadline
  entries : Array Entry

namespace Recorder

def empty : Recorder :=
  ⟨0, [], #[]⟩

def keep (r : Recorder) (e : Event) : Recorder :=
  { r with entries := r.entries.push (.event e) }

def keepInvoking (r : Recorder) (cls method : String) : Recorder :=
  { r with entries := r.entries.push (.invoking cls method) }

def advance (r : Recorder) (millis : Nat) : Recorder :=
  { r with clock := r.clock + millis }

/-- Removes the latest deadline of a method. -/
def clearDeadline (r : Recorder) (method : String) : Recorder :=
  { r with deadlines := r.deadlines.eraseP fun d => d.method = method }

/-- The latest deadline of a method, if it is missed. -/
def missed? (r : Recorder) (method : String) : Option Deadline :=
  (r.deadlines.find? fun d => d.method = method).filter fun d => d.isMissed r.clock

def keepExit (r : Recorder) (method : String) : Recorder :=
  match r.missed? method with
  | some d => ((r.clearDeadline method).keep (.timedOut method d.millis)).keep (.exiting method)
  | none => (r.clearDeadline method).keep (.exiting method)

def keepDeadline (r : Recorder) (method : String) (millis : UInt64) : Recorder :=
  { r with deadlines := ⟨method, r.clock, millis⟩ :: r.deadlines }.keep
    (.deadlineSet method millis)

def receive (r : Recorder) (method : String) : Report → Recorder
  | .entering names values => r.keep (.entering method (names.zip values))
  | .exiting => r.keepExit method
  | .returning value => r.keep (.returning method value)
  | .changed path value => r.keep (.changed method path value)
  | .failed error => r.keep (.failed method error)
  | .deadline millis => r.keepDeadline method millis

def events (r : Recorder) : List Event :=
  r.entries.toList.filterMap fun
    | .event e => some e
    | .invoking _ _ => none

/-- Forgets the events, but neither the time nor the deadlines. -/
def clear (r : Recorder) : Recorder :=
  { r with entries := #[] }

def changesOf (r : Recorder) (method : String) : List (String × Snapshot) :=
  r.events.filterMap fun
    | .changed m path value => if m = method then some (path, value) else none
    | _ => none

def invokingEvent (cls method : String) : LogEvent :=
  ⟨.trace, .evaluation, "invoking", [("class", cls), ("method", method)]⟩

def log (r : Recorder) : List LogEvent :=
  r.entries.toList.filterMap fun
    | .event e => e.log?
    | .invoking cls method => some (invokingEvent cls method)

end Recorder
end Trace
end TraceWeaving
