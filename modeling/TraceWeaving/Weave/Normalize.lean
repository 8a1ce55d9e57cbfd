import TraceWeaving.Code.Basic
import TraceWeaving.Weave.Defect

/-!
# Normal form

In normal form every branch and every loop body is a block, so that statements can
be inserted there.  An `else if` chain stays flat, and a label stays on its loop,
because `continue` refers to the label of a loop.

Code without a model has no normal form: nothing is known about what it controls.
-/

namespace TraceWeaving
namespace Weave

open Code

/-! ## Code without a model -/

mutual

def unmodelled? : Stmt → Option String
  | .unmodelled text => some text
  | .block stmts => unmodelledInAll? stmts
  | .ifElse _ ifTrue ifFalse => (unmodelled? ifTrue).or (unmodelledInElse? ifFalse)
  | .whileLoop _ body => unmodelled? body
  | .doWhile body _ => unmodelled? body
  | .forLoop _ _ _ body => unmodelled? body
  | .forEach _ _ _ body => unmodelled? body
  | .labeled _ body => unmodelled? body
  | .switch _ cases => unmodelledInCases? cases
  | .tryCatch body catches cleanup =>
      ((unmodelledInAll? body).or (unmodelledInCatches? catches)).or
        (unmodelledInCleanup? cleanup)
  | .sync _ body => unmodelledInAll? body
  | _ => none

def unmodelledInAll? : List Stmt → Option String
  | [] => none
  | s :: rest => (unmodelled? s).or (unmodelledInAll? rest)

def unmodelledInElse? : Option Stmt → Option String
  | some s => unmodelled? s
  | none => none

def unmodelledInCases? : List SwitchCase → Option String
  | [] => none
  | .mk _ body :: rest => (unmodelledInAll? body).or (unmodelledInCases? rest)

def unmodelledInCatches? : List CatchClause → Option String
  | [] => none
  | .mk _ _ body :: rest => (unmodelledInAll? body).or (unmodelledInCatches? rest)

def unmodelledInCleanup? : Option (List Stmt) → Option String
  | some stmts => unmodelledInAll? stmts
  | none => none

end

/-! ## Putting blocks around controlled statements -/

def asBlock (s : Stmt) : Stmt :=
  if s.isBlock then s else .block [s]

/-- Whether a statement may stand behind `else` without a block. -/
def chainsElse : Stmt → Bool
  | .ifElse .. => true
  | _ => false

/-- Whether a statement may stand behind a label without a block. -/
def keepsLabel : Stmt → Bool
  | .labeled .. => true
  | s => s.isLoop

mutual

def normalize : Stmt → Stmt
  | .block stmts => .block (normalizeAll stmts)
  | .ifElse cond ifTrue ifFalse =>
      .ifElse cond (asBlock (normalize ifTrue)) (normalizeElse ifFalse)
  | .whileLoop cond body => .whileLoop cond (asBlock (normalize body))
  | .doWhile body cond => .doWhile (asBlock (normalize body)) cond
  | .forLoop init cond update body => .forLoop init cond update (asBlock (normalize body))
  | .forEach type ident items body => .forEach type ident items (asBlock (normalize body))
  | .labeled label body =>
      .labeled label (if keepsLabel body then normalize body else asBlock (normalize body))
  | .switch selector cases => .switch selector (normalizeCases cases)
  | .tryCatch body catches cleanup =>
      .tryCatch (normalizeAll body) (normalizeCatches catches) (normalizeCleanup cleanup)
  | .sync lock body => .sync lock (normalizeAll body)
  | .decl type ident init => .decl type ident init
  | .expr e => .expr e
  | .breakTo label => .breakTo label
  | .continueTo label => .continueTo label
  | .ret value => .ret value
  | .raise value => .raise value
  | .unmodelled text => .unmodelled text

def normalizeAll : List Stmt → List Stmt
  | [] => []
  | s :: rest => normalize s :: normalizeAll rest

def normalizeElse : Option Stmt → Option Stmt
  | some s => some (if chainsElse s then normalize s else asBlock (normalize s))
  | none => none

def normalizeCases : List SwitchCase → List SwitchCase
  | [] => []
  | .mk labels body :: rest => .mk labels (normalizeAll body) :: normalizeCases rest

def normalizeCatches : List CatchClause → List CatchClause
  | [] => []
  | .mk type ident body :: rest =>
      .mk type ident (normalizeAll body) :: normalizeCatches rest

def normalizeCleanup : Option (List Stmt) → Option (List Stmt)
  | some stmts => some (normalizeAll stmts)
  | none => none

end

def normalizeBody (body : List Stmt) : Except Defect (List Stmt) :=
  match unmodelledInAll? body with
  | some text => .error (.unmodelledCode text)
  | none => .ok (normalizeAll body)

end Weave
end TraceWeaving
