import TraceWeaving.Selection
import TraceWeaving.Code.Source
import TraceWeaving.Weave.Pass

/-!
# Weaving a compilation unit

Every method of a unit that is selected goes through the passes that apply to it.
Weaving succeeds for the whole unit or fails at the first method that has a defect.
The log is a function of the same input, so that what is woven does not depend on
what is reported about it.
-/

namespace TraceWeaving
namespace Weave

open Code

/-- What a weaver needs. -/
inductive Service where
  | settings
  | hooks
  | markerNames
  deriving DecidableEq

inductive Failure where
  | missingService (service : Service)
  | defective (className method : String) (pass : Pass) (defect : Defect)
  deriving DecidableEq

namespace Service

def name : Service → String
  | settings => "instrumentation config"
  | hooks => "tree builder"
  | markerNames => "marker source"

end Service

namespace Failure

def message : Failure → String
  | missingService service => "Configuration error: missing " ++ service.name
  | defective className method pass defect =>
      "Failed to instrument " ++ className ++ "." ++ method ++ " (" ++ pass.name ++ "): "
        ++ defect.message

end Failure

/-! ## Reports -/

inductive Outcome where
  | woven (passes : List Pass)
  | skipped (reason : SkipReason)
  deriving DecidableEq

structure MethodReport where
  className : String
  method : String
  outcome : Outcome
  deriving DecidableEq

namespace MethodReport

def isWoven (report : MethodReport) : Bool :=
  match report.outcome with
  | .woven _ => true
  | .skipped _ => false

end MethodReport

/-- One entry for every method, in the order of the declarations. -/
structure UnitReport where
  methods : List MethodReport
  deriving DecidableEq

namespace UnitReport

def woven (report : UnitReport) : Nat :=
  report.methods.countP MethodReport.isWoven

def skipped (report : UnitReport) : Nat :=
  report.methods.length - report.woven

def find? (report : UnitReport) (className method : String) : Option MethodReport :=
  report.methods.find? fun m => m.className = className && m.method = method

end UnitReport

/-! ## Weaving -/

structure Weaver where
  settings : Settings
  hooks : Hooks
  markerNames : MarkerNames
  deriving DecidableEq

namespace Weaver

def ofSettings (settings : Settings) : Weaver :=
  ⟨settings, ⟨settings.runtimeClass⟩, .standard⟩

/-- A weaver from the services at hand; the first missing one is named. -/
def assemble (settings : Option Settings) (hooks : Option Hooks)
    (markerNames : Option MarkerNames) : Except Failure Weaver := do
  return {
    settings := ← settings.getDM (throw (.missingService .settings))
    hooks := ← hooks.getDM (throw (.missingService .hooks))
    markerNames := ← markerNames.getDM (throw (.missingService .markerNames)) }

def classMarkers (w : Weaver) (c : ClassDecl) : MarkerSet :=
  .ofAnnots w.markerNames c.annotations

def methodMarkers (w : Weaver) (m : MethodDecl) : MarkerSet :=
  .ofAnnots w.markerNames m.annotations

def decide (w : Weaver) (s : Session) : Decision :=
  decideSelection w.settings s.classMarkers s.markers s.decl.body.isSome

def passesFor (w : Weaver) (s : Session) : List Pass :=
  Pass.canonical.filter fun pass => pass.applies w.settings s

def runPasses (w : Weaver) : List Pass → Session → Except Failure Session
  | [], s => .ok s
  | pass :: rest, s =>
      match pass.run w.hooks s with
      | .ok s => runPasses w rest s
      | .error defect => .error (.defective s.className s.decl.name pass defect)

def session (w : Weaver) (u : CompilationUnit) (c : ClassDecl) (m : MethodDecl) : Session :=
  .start (u.qualifiedName c) (w.classMarkers c) (w.methodMarkers m) m

def weaveMethod (w : Weaver) (s : Session) : Except Failure (MethodDecl × MethodReport) :=
  match w.decide s with
  | .skip reason => .ok (s.decl, ⟨s.className, s.decl.name, .skipped reason⟩)
  | .weave => do
      let woven ← w.runPasses (w.passesFor s) s
      return (woven.decl, ⟨s.className, s.decl.name, .woven (w.passesFor s)⟩)

def weaveClass (w : Weaver) (u : CompilationUnit) (c : ClassDecl) :
    Except Failure (ClassDecl × List MethodReport) := do
  let results ← c.methods.mapM fun m => w.weaveMethod (w.session u c m)
  return ({ c with methods := results.map (·.1) }, results.map (·.2))

def weaveUnit (w : Weaver) (u : CompilationUnit) :
    Except Failure (CompilationUnit × UnitReport) := do
  let results ← u.classes.mapM (w.weaveClass u)
  return ({ u with classes := results.map (·.1) }, ⟨(results.map (·.2)).flatten⟩)

/-! ## Log -/

def methodEvent (s : Session) (level : LogLevel) (message : String)
    (details : List (String × String)) : LogEvent :=
  ⟨level, .weaving, message, [("class", s.className), ("method", s.decl.name)] ++ details⟩

/-- The passes that are started: all of them, or those up to the one that fails. -/
def startedPasses (w : Weaver) : List Pass → Session → List Pass
  | [], _ => []
  | pass :: rest, s =>
      pass ::
        match pass.run w.hooks s with
        | .ok s => startedPasses w rest s
        | .error _ => []

def passEvents (w : Weaver) (s : Session) : List LogEvent :=
  (w.startedPasses (w.passesFor s) s).map fun pass =>
    methodEvent s .trace "applying pass" [("pass", pass.name)]

def methodLog (w : Weaver) (s : Session) : List LogEvent :=
  match w.decide s with
  | .skip reason => [methodEvent s .debug "skipping method" [("reason", reason.message)]]
  | .weave =>
      w.passEvents s ++
        match w.weaveMethod s with
        | .ok (woven, _) =>
            [methodEvent s .debug "instrumented method" [("source", woven.source)]]
        | .error _ => []

/-- What happens in order: marker warnings and the weaving of methods. -/
inductive Stage where
  | warnings (events : List LogEvent)
  | method (s : Session)

def classWarnings (w : Weaver) (c : ClassDecl) : List LogEvent :=
  w.markerNames.warnings c.name c.annotations

def stages (w : Weaver) (u : CompilationUnit) : List Stage :=
  u.classes.flatMap fun c =>
    .warnings (w.classWarnings c)
      :: c.methods.flatMap fun m =>
        [.warnings (w.markerNames.warnings m.name m.annotations), .method (w.session u c m)]

def stagesLog (w : Weaver) : List Stage → List LogEvent
  | [] => []
  | .warnings events :: rest => events ++ stagesLog w rest
  | .method s :: rest =>
      w.methodLog s ++
        match w.weaveMethod s with
        | .ok _ => stagesLog w rest
        | .error _ => []

def summaryEvent (report : UnitReport) : LogEvent :=
  ⟨.debug, .weaving, "instrumented compilation unit",
    [("instrumented", Text.natText report.woven), ("skipped", Text.natText report.skipped)]⟩

def unitLog (w : Weaver) (u : CompilationUnit) : List LogEvent :=
  w.stagesLog (w.stages u) ++
    match w.weaveUnit u with
    | .ok (_, report) => [summaryEvent report]
    | .error _ => []

end Weaver
end Weave
end TraceWeaving
