import TraceWeaving.Eval.Evaluator

/-!
# Executing statements

A statement ends normally, or abruptly with a `return`, `break` or `continue` that is
still under way.  A loop takes the `break` and `continue` statements without label and
those with its own label; any other labelled statement takes only a `break` with its
label.
-/

namespace TraceWeaving
namespace Eval

open Code
open Trace (Throwable)

/-! ## Loops -/

/-- What the end of an iteration means for its loop. -/
inductive LoopStep where
  | next
  | stop
  | leave (flow : Flow)

def LoopStep.ofFlow (label : Option String) : Flow → LoopStep
  | .normal => .next
  | .continued none => .next
  | .broke none => .stop
  | .continued (some target) =>
      if label = some target then .next else .leave (.continued (some target))
  | .broke (some target) =>
      if label = some target then .stop else .leave (.broke (some target))
  | .returned value => .leave (.returned value)

section

variable (r : Evaluator)

def afterBody (label : Option String) (body : Stmt) (goOn : Action Flow) : Action Flow := do
  match LoopStep.ofFlow label (← r.exec body) with
  | .next => goOn
  | .stop => return .normal
  | .leave flow => return flow

/-- A `for` loop without condition goes on forever. -/
def evalForTest : Option Expr → Action Bool
  | some cond => r.evalBool cond "for"
  | none => return true

def iterateStep (label : Option String) (loop : Loop) : Action Flow :=
  match loop with
  | .whileLoop cond body => do
      if ← r.evalBool cond "while" then
        afterBody r label body (r.iterate label loop)
      else return .normal
  | .doWhile body cond =>
      afterBody r label body do
        if ← r.evalBool cond "do-while" then r.iterate label loop else return .normal
  | .forLoop cond update body => do
      if ← evalForTest r cond then
        afterBody r label body do
          r.evalEach update
          r.iterate label loop
      else return .normal

def execForInit : ForInit → Action Unit
  | .exprs es => r.evalEach es
  | .decl _ ident init => do
      let value ← r.eval init
      Action.modify fun s => s.declare ident value

/-- Runs the body once for every item, each time with a scope of its own. -/
def execForItems (label : Option String) (ident : String) (body : Stmt) :
    List Value → Action Flow
  | [] => return .normal
  | item :: rest => do
      let flow ← Action.inScope do
        Action.modify fun s => s.declare ident item
        r.exec body
      match LoopStep.ofFlow label flow with
      | .next => execForItems label ident body rest
      | .stop => return .normal
      | .leave flow => return flow

def execForEach (label : Option String) (ident : String) (items : Expr) (body : Stmt) :
    Action Flow := do
  match ← r.eval items with
  | .array address =>
      let s ← Action.state
      execForItems r label ident body (s.heap.items address).toList
  | other => .fail (.typeMismatch "for-each" "array" other.typeName)

def execLoop (label : Option String) (s : Stmt) : Action Flow :=
  match s with
  | .whileLoop cond body => r.iterate label (.whileLoop cond body)
  | .doWhile body cond => r.iterate label (.doWhile body cond)
  | .forLoop init cond update body =>
      .inScope do
        execForInit r init
        r.iterate label (.forLoop cond update body)
  | .forEach _ ident items body => execForEach r label ident items body
  | s => r.exec s

/-! ## Other statements -/

def execLabeled (label : String) (body : Stmt) : Action Flow :=
  if body.isLoop then execLoop r (some label) body
  else do
    match ← r.exec body with
    | .broke (some target) =>
        if target = label then return .normal else return .broke (some target)
    | flow => return flow

/-- The cases from the first one that has the value among its labels; if there is none,
from the first default case. -/
def casesFrom (value : Value) (cases : List SwitchCase) : List SwitchCase :=
  match cases.dropWhile fun c => !c.labels.any fun l => Value.ofLiteral l = value with
  | [] => cases.dropWhile fun c => !c.labels.isEmpty
  | chosen => chosen

def execCases : List SwitchCase → Action Flow
  | [] => return .normal
  | c :: rest => do
      match ← r.execAll c.body with
      | .normal => execCases rest
      | .broke none => return .normal
      | flow => return flow

def execSwitch (selector : Expr) (cases : List SwitchCase) : Action Flow := do
  let value ← r.eval selector
  .inScope (execCases r (casesFrom value cases))

def catchesType (type : TypeName) (t : Throwable) : Bool :=
  match Text.lastSegment type with
  | "Throwable" => true
  | "Exception" => true
  | "RuntimeException" => t.simpleClass.endsWith "Exception"
  | cls => cls = t.simpleClass

/-- Executes a body and, when it throws, the first clause that takes what is thrown. -/
def execCatching (body : List Stmt) (catches : List CatchClause) : Action Flow :=
  fun s =>
    match r.execBlock body s with
    | .thrown t s =>
        match catches.find? fun c => catchesType c.type t with
        | some c =>
            Action.inScope (do
              Action.modify fun s => s.declare c.ident (.throwable t)
              r.execAll c.body) s
        | none => .thrown t s
    | outcome => outcome

/-- Executes the cleanup after an outcome, which it replaces when it ends abruptly.
After a fault there is no cleanup. -/
def execCleanup (cleanup : List Stmt) (outcome : Outcome Flow) : Outcome Flow :=
  match outcome with
  | .done flow s =>
      (do match ← r.execBlock cleanup with
          | .normal => return flow
          | abrupt => return abrupt : Action Flow) s
  | .thrown t s =>
      (do match ← r.execBlock cleanup with
          | .normal => Action.raiseValue t
          | abrupt => return abrupt : Action Flow) s
  | outcome => outcome

def execTry (body : List Stmt) (catches : List CatchClause) (cleanup : Option (List Stmt)) :
    Action Flow :=
  match cleanup with
  | some cleanup => fun s => execCleanup r cleanup (execCatching r body catches s)
  | none => execCatching r body catches

def execRaise (value : Expr) : Action Flow := do
  match ← r.eval value with
  | .throwable t => .raiseValue t
  | .null => .raise "NullPointerException" "throw null"
  | other => .fail (.typeMismatch "throw" "Throwable" other.typeName)

def execReturn : Option Expr → Action Flow
  | some value => do
      return .returned (← r.eval value)
  | none => return .returned .null

def execDecl (type : TypeName) (ident : String) (init : Option Expr) : Action Flow := do
  let value ← r.evalInit type init
  Action.modify fun s => s.declare ident value
  return .normal

def execStep (s : Stmt) : Action Flow :=
  match s with
  | .block stmts => r.execBlock stmts
  | .decl type ident init => execDecl r type ident init
  | .expr e => do
      let _ ← r.eval e
      return .normal
  | .ifElse cond ifTrue ifFalse => do
      if ← r.evalBool cond "if" then r.exec ifTrue
      else
        match ifFalse with
        | some s => r.exec s
        | none => return .normal
  | .whileLoop .. | .doWhile .. | .forLoop .. | .forEach .. => execLoop r none s
  | .labeled label body => execLabeled r label body
  | .switch selector cases => execSwitch r selector cases
  | .breakTo label => return .broke label
  | .continueTo label => return .continued label
  | .ret value => execReturn r value
  | .raise value => execRaise r value
  | .tryCatch body catches cleanup => execTry r body catches cleanup
  | .sync lock body => do
      let _ ← r.eval lock
      r.execBlock body
  | .unmodelled text => .fail (.unsupported text)

end

end Eval
end TraceWeaving
