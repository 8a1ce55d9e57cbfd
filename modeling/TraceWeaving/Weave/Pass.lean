import TraceWeaving.Marker
import TraceWeaving.Weave.Changes
import TraceWeaving.Weave.Returns
import TraceWeaving.Weave.Wrapper

/-!
# Weaving passes

The passes that a method goes through, and the order they run in.  Later passes rely
on what earlier ones leave behind: normal form, and the wrapper.
-/

namespace TraceWeaving
namespace Weave

open Code

/-- A method that is being woven. -/
structure Session where
  /-- The qualified name of the class. -/
  className : String
  classMarkers : MarkerSet
  markers : MarkerSet
  decl : MethodDecl
  /-- The number of the next fresh name. -/
  nextName : Nat

namespace Session

def start (className : String) (classMarkers markers : MarkerSet) (decl : MethodDecl) :
    Session :=
  ⟨className, classMarkers, markers, decl, 0⟩

/-- The identifier that every woven call carries. -/
def id (s : Session) : String :=
  s.className ++ "." ++ s.decl.name

def body (s : Session) : Except Defect (List Stmt) :=
  match s.decl.body with
  | some body => .ok body
  | none => .error (.noBody s.decl.name)

def withBody (s : Session) (body : List Stmt) : Session :=
  { s with decl := s.decl.withBody body }

def naming (s : Session) (work : Naming (List Stmt)) : Session :=
  let (body, nextName) := work.run s.nextName
  { s.withBody body with nextName := nextName }

/-- Starts again with the same declaration. -/
def restart (s : Session) : Session :=
  { s with nextName := 0 }

end Session

inductive Pass where
  | normalize
  | changes
  | entryExit
  | returns
  | timeout
  | errors
  | delegation
  deriving DecidableEq

namespace Pass

/-- The passes in the order they run in. -/
def canonical : List Pass :=
  [normalize, changes, entryExit, returns, timeout, errors, delegation]

def name : Pass → String
  | normalize => "block_normalizer"
  | changes => "value_change"
  | entryExit => "entering_exiting"
  | returns => "returning"
  | timeout => "timeout"
  | errors => "on_error"
  | delegation => "constructor"

def description : Pass → String
  | normalize => "Wrap every controlled statement in a block"
  | changes => "Extract return values and report assignments"
  | entryExit => "Report method entry and guarantee the exit report"
  | returns => "Report the value of each return"
  | timeout => "Arm the declared timeout at method entry"
  | errors => "Report uncaught errors and rethrow them"
  | delegation => "Keep the delegating constructor call first"

def applies (pass : Pass) (settings : Settings) (s : Session) : Bool :=
  match pass with
  | normalize | entryExit => true
  | changes => settings.traceChanges
  | returns => settings.traceReturns
  | timeout => s.markers.timeout.isSome
  | errors => settings.traceErrors
  | delegation => s.decl.isConstructor

def run (pass : Pass) (hooks : Hooks) (s : Session) : Except Defect Session :=
  match pass with
  | normalize => do
      return s.withBody (← normalizeBody (← s.body))
  | changes => do
      let s := s.naming (← extractReturns Expr.isName s.decl (← s.body))
      return s.naming (reportChanges hooks s.id (← s.body))
  | entryExit => do
      return s.withBody (wrap hooks s.id s.decl.params (← s.body))
  | returns =>
      if s.decl.returnsValue then do
        let s := s.naming (← extractReturns Expr.isTrivial s.decl (← s.body))
        return s.withBody (reportReturns hooks s.id (← s.body))
      else return s
  | timeout =>
      match s.markers.timeout with
      | some millis => do
          return s.withBody (← setDeadline hooks s.id millis (← s.body))
      | none => return s
  | errors => do
      return s.withBody (← reportErrors hooks s.id (← s.body))
  | delegation =>
      if s.decl.isConstructor then do
        return s.withBody (delegateFirst hooks (← s.body))
      else return s

end Pass
end Weave
end TraceWeaving
