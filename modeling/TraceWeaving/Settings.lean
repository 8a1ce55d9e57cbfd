import TraceWeaving.Log
import TraceWeaving.Text.Blank

/-!
# Settings

Which events are traced, which methods take part, and the class that receives the
calls.  Settings are read from named variables; a variable that is not set keeps the
default.
-/

namespace TraceWeaving

structure Settings where
  /-- Report assignments, and move returned expressions into variables. -/
  traceChanges : Bool
  /-- Report an error before it leaves the method. -/
  traceErrors : Bool
  /-- Report the value of every `return`. -/
  traceReturns : Bool
  /-- Only take methods that are marked for inclusion, themselves or by their class. -/
  markedOnly : Bool
  runtimeClass : String
  deriving DecidableEq

namespace Settings

def standard : Settings where
  traceChanges := true
  traceErrors := true
  traceReturns := true
  markedOnly := false
  runtimeClass := "scribe.runtime.Scribe"

/-- A flag is on when it reads `true` in any case, blanks around it aside. -/
def readFlag (raw : String) : Bool :=
  (Text.trim raw).toList.map Char.toLower = ['t', 'r', 'u', 'e']

def flag (lookup : String → Option String) (key : String) (default : Bool) : Bool :=
  match lookup key with
  | some raw => readFlag raw
  | none => default

/-- A blank class name counts as none. -/
def readRuntimeClass (raw : Option String) : String :=
  match raw.map Text.trim with
  | some name => if name.isEmpty then standard.runtimeClass else name
  | none => standard.runtimeClass

def ofVariables (lookup : String → Option String) : Settings where
  traceChanges := flag lookup "SCRIBE_TRACE_VALUE_CHANGE" standard.traceChanges
  traceErrors := flag lookup "SCRIBE_TRACE_ON_ERROR" standard.traceErrors
  traceReturns := flag lookup "SCRIBE_TRACE_RETURNING" standard.traceReturns
  markedOnly := flag lookup "SCRIBE_ANNOTATED_ONLY" standard.markedOnly
  runtimeClass := readRuntimeClass (lookup "SCRIBE_RUNTIME_CLASS")

def boolText (b : Bool) : String :=
  if b then "true" else "false"

def logEvent (message key value : String) : LogEvent :=
  ⟨.info, .settings, message, [(key, value)]⟩

def log (settings : Settings) : List LogEvent :=
  [logEvent "instrument value change tracing" "enabled" (boolText settings.traceChanges),
   logEvent "instrument error tracing" "enabled" (boolText settings.traceErrors),
   logEvent "instrument method returning tracing" "enabled" (boolText settings.traceReturns),
   logEvent "annotated only mode" "enabled" (boolText settings.markedOnly),
   logEvent "runtime class" "runtime_class" settings.runtimeClass]

/-- Switches that restrict settings further; none of them turns tracing on. -/
structure Restriction where
  markedOnly : Bool
  noChanges : Bool
  noErrors : Bool
  noReturns : Bool
  deriving DecidableEq

def restrict (settings : Settings) (restriction : Restriction) : Settings where
  traceChanges := settings.traceChanges && !restriction.noChanges
  traceErrors := settings.traceErrors && !restriction.noErrors
  traceReturns := settings.traceReturns && !restriction.noReturns
  markedOnly := settings.markedOnly || restriction.markedOnly
  runtimeClass := settings.runtimeClass

end Settings
end TraceWeaving
