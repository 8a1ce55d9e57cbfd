import TraceWeaving.Command.Options
import TraceWeaving.Eval.Machine
import TraceWeaving.Json.Parser
import TraceWeaving.Json.Printer
import TraceWeaving.Code.Decode
import TraceWeaving.Weave.Unit

/-!
# The commands

Both commands read a compilation unit from a document and weave it.  One writes the
woven unit, the other one calls a method of it.
-/

namespace TraceWeaving
namespace Command

open Code
open Weave (UnitReport Weaver)

inductive Failure where
  | unreadable (path : String)
  | malformed (path : String)
  | notWoven (path : String) (cause : Weave.Failure)
  | notEvaluated (cls method : String) (cause : String)
  | endless (cls method : String)

namespace Failure

def message : Failure → String
  | unreadable path => "Failed to read compilation unit " ++ path
  | malformed path => "Failed to parse compilation unit " ++ path
  | notWoven path _ => "Failed to instrument " ++ path
  | notEvaluated cls method _ => "Evaluation of " ++ cls ++ "." ++ method ++ " failed"
  | endless cls method => "Evaluation of " ++ cls ++ "." ++ method ++ " does not end"

def causes : Failure → List String
  | notWoven _ (.defective cls method pass defect) =>
      [(Weave.Failure.defective cls method pass defect).message, defect.message]
  | notWoven _ cause => [cause.message]
  | notEvaluated _ _ cause => [cause]
  | _ => []

end Failure

structure Logged (α : Type) where
  log : List LogEvent
  result : Except Failure α

namespace Logged

def failed {α : Type} (log : List LogEvent) (failure : Failure) : Logged α :=
  ⟨log, .error failure⟩

end Logged

/-! ## Documents -/

/-- Documents must not be nested as deep as this. -/
def nestingLimit : Nat :=
  128

/-- Reads a compilation unit; a document without contents could not be read. -/
def loadUnit (path : String) (contents : Option String) : Except Failure CompilationUnit :=
  match contents with
  | none => .error (.unreadable path)
  | some text =>
      match (Json.parse? text (some nestingLimit)).bind CompilationUnit.decode with
      | some unit => .ok unit
      | none => .error (.malformed path)

def render (emit : Emit) (unit : CompilationUnit) : String :=
  match emit with
  | .source => unit.source
  | .json => unit.encode.pretty

/-! ## Commands -/

def doneEvent (path : String) (report : UnitReport) : LogEvent :=
  ⟨.info, .command, "instrumented " ++ path,
    [("instrumented", Text.natText report.woven), ("skipped", Text.natText report.skipped)]⟩

/-- Weaves a unit and writes it. -/
def instrument (settings : Settings) (emit : Emit) (path : String) (contents : Option String) :
    Logged (String × UnitReport) :=
  match loadUnit path contents with
  | .error failure => .failed [] failure
  | .ok unit =>
      let weaver := Weaver.ofSettings settings
      let log := weaver.unitLog unit
      match weaver.weaveUnit unit with
      | .error cause => .failed log (.notWoven path cause)
      | .ok (woven, report) =>
          ⟨log ++ [doneEvent path report], .ok (render emit woven, report)⟩

def callMethod (settings : Settings) (unit : CompilationUnit) (cls method : String)
    (args : List Int64) : Option (Eval.Ending × Eval.State) :=
  let program : Eval.Program := ⟨unit, settings.runtimeClass⟩
  let args := args.map Trace.Snapshot.int
  (program.runCall Eval.ampleSteps cls method args .initial).ending?

/-- Weaves a unit and calls a method of it. -/
def run (settings : Settings) (path : String) (contents : Option String)
    (cls method : String) (args : List Int64) : Logged Trace.Snapshot :=
  match loadUnit path contents with
  | .error failure => .failed [] failure
  | .ok unit =>
      let weaver := Weaver.ofSettings settings
      let log := weaver.unitLog unit
      match weaver.weaveUnit unit with
      | .error cause => .failed log (.notWoven path cause)
      | .ok (woven, _) =>
          match callMethod settings woven cls method args with
          | none => .failed log (.endless cls method)
          | some (ending, s) =>
              let log := log ++ s.recorder.log
              match ending with
              | .value result => ⟨log, .ok result⟩
              | .uncaught t => .failed log (.notEvaluated cls method ("uncaught " ++ t.display))
              | .faulted f => .failed log (.notEvaluated cls method f.message)

/-! ## The program -/

def versionText : String :=
  "0.1.0"

inductive Exit where
  | success (output : String)
  | failure (f : Failure)
  | usageError

def execute (args : List String) (lookup : String → Option String)
    (contents : String → Option String) : Exit :=
  match request? args with
  | none => .usageError
  | some .version => .success ("scribe " ++ versionText)
  | some (.instrument path emit restriction) =>
      let settings := (Settings.ofVariables lookup).restrict restriction
      match (instrument settings emit path (contents path)).result with
      | .ok (output, _) => .success output
      | .error failure => .failure failure
  | some (.run path cls method args restriction) =>
      let settings := (Settings.ofVariables lookup).restrict restriction
      match (run settings path (contents path) cls method args).result with
      | .ok result => .success result.display
      | .error failure => .failure failure

end Command
end TraceWeaving
