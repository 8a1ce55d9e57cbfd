import TraceWeaving.Log
import TraceWeaving.Trace.Snapshot

/-!
# Trace events

What a traced program reports about its methods, as recorded events and as log
events.
-/

namespace TraceWeaving
namespace Trace

inductive Event where
  | entering (method : String) (params : List (String × Snapshot))
  | exiting (method : String)
  | returning (method : String) (value : Snapshot)
  | changed (method : String) (path : String) (value : Snapshot)
  | failed (method : String) (error : Snapshot)
  | deadlineSet (method : String) (millis : UInt64)
  | timedOut (method : String) (millis : UInt64)

namespace Event

def method : Event → String
  | entering method _ => method
  | exiting method => method
  | returning method _ => method
  | changed method _ _ => method
  | failed method _ => method
  | deadlineSet method _ => method
  | timedOut method _ => method

def paramText (param : String × Snapshot) : String :=
  param.1 ++ "=" ++ param.2.display

def logEvent (level : LogLevel) (message method : String) (details : List (String × String)) :
    LogEvent :=
  ⟨level, .tracing, message, ("method", method) :: details⟩

/-- The event as it is logged; setting a deadline is not. -/
def log? : Event → Option LogEvent
  | entering method params =>
      some (logEvent .info "entering" method
        [("params", Text.joined ", " (params.map paramText))])
  | exiting method => some (logEvent .info "exiting" method [])
  | returning method value =>
      some (logEvent .info "returning" method [("value", value.display)])
  | changed method path value =>
      some (logEvent .info "value changed" method [("name", path), ("value", value.display)])
  | failed method error =>
      some (logEvent .warn "uncaught error" method [("error", error.display)])
  | deadlineSet _ _ => none
  | timedOut method millis =>
      some (logEvent .warn "timeout exceeded" method
        [("declared_ms", Text.natText millis.toNat)])

end Event
end Trace
end TraceWeaving
