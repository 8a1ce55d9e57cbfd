import TraceWeaving.Code.Lists
import TraceWeaving.Weave.Naming
import TraceWeaving.Weave.Normalize
import TraceWeaving.Weave.Write

/-!
# Value changes

A report follows every write, as soon as the statement that makes it is complete.
Reports about a condition stand at the start of both branches.  A loop whose
condition writes loops without condition, and the test moves into its body:

    while (true) {
        if (!(cond)) { reports; break; }
        reports
        body
    }

In a `do` loop the test follows the body.  The body becomes a labelled block, and a
`continue` of the loop leaves that block, so that it still reaches the test.
-/

namespace TraceWeaving
namespace Weave

open Code

/-! ## Leaving the body of a loop -/

section

variable (loopLabel : Option String) (target : String)

mutual

/-- Turns every `continue` of the loop into a `break` to the target.  A `continue`
without label belongs to the innermost loop around it. -/
def retarget (inInnerLoop : Bool) : Stmt → Stmt
  | .continueTo none => if inInnerLoop then .continueTo none else .breakTo (some target)
  | .continueTo (some label) =>
      if loopLabel = some label then .breakTo (some target) else .continueTo (some label)
  | .block stmts => .block (retargetAll inInnerLoop stmts)
  | .ifElse cond ifTrue ifFalse =>
      .ifElse cond (retarget inInnerLoop ifTrue) (retargetElse inInnerLoop ifFalse)
  | .whileLoop cond body => .whileLoop cond (retarget true body)
  | .doWhile body cond => .doWhile (retarget true body) cond
  | .forLoop init cond update body => .forLoop init cond update (retarget true body)
  | .forEach type ident items body => .forEach type ident items (retarget true body)
  | .labeled label body => .labeled label (retarget inInnerLoop body)
  | .switch selector cases => .switch selector (retargetCases inInnerLoop cases)
  | .tryCatch body catches cleanup =>
      .tryCatch (retargetAll inInnerLoop body) (retargetCatches inInnerLoop catches)
        (retargetCleanup inInnerLoop cleanup)
  | .sync lock body => .sync lock (retargetAll inInnerLoop body)
  | .decl type ident init => .decl type ident init
  | .expr e => .expr e
  | .breakTo label => .breakTo label
  | .ret value => .ret value
  | .raise value => .raise value
  | .unmodelled text => .unmodelled text

def retargetAll (inInnerLoop : Bool) : List Stmt → List Stmt
  | [] => []
  | s :: rest => retarget inInnerLoop s :: retargetAll inInnerLoop rest

def retargetElse (inInnerLoop : Bool) : Option Stmt → Option Stmt
  | some s => some (retarget inInnerLoop s)
  | none => none

def retargetCases (inInnerLoop : Bool) : List SwitchCase → List SwitchCase
  | [] => []
  | .mk labels body :: rest =>
      .mk labels (retargetAll inInnerLoop body) :: retargetCases inInnerLoop rest

def retargetCatches (inInnerLoop : Bool) : List CatchClause → List CatchClause
  | [] => []
  | .mk type ident body :: rest =>
      .mk type ident (retargetAll inInnerLoop body) :: retargetCatches inInnerLoop rest

def retargetCleanup (inInnerLoop : Bool) : Option (List Stmt) → Option (List Stmt)
  | some stmts => some (retargetAll inInnerLoop stmts)
  | none => none

end

end

/-! ## Placing reports -/

structure Placed where
  before : List Stmt
  stmt : Stmt
  after : List Stmt

namespace Placed

def alone (s : Stmt) : Placed :=
  ⟨[], s, []⟩

def followedBy (s : Stmt) (after : List Stmt) : Placed :=
  ⟨[], s, after⟩

/-- The statements in order; what is declared in front stays in a block of its own. -/
def stmts (placed : Placed) : List Stmt :=
  if placed.before.isEmpty then placed.stmt :: placed.after
  else [.block (placed.before ++ placed.stmt :: placed.after)]

end Placed

def prepend (stmts : List Stmt) (body : Stmt) : Stmt :=
  match stmts, body with
  | [], body => body
  | stmts, .block inner => .block (stmts ++ inner)
  | stmts, body => .block (stmts ++ [body])

section

variable (hooks : Hooks) (id : String)

def reports (writes : List Write) : List Stmt :=
  writes.map fun w => hooks.changed id w.path w.target

def reportCalls (writes : List Write) : List Expr :=
  writes.map fun w => hooks.changedCall id w.path w.target

def testInBody (cond : Expr) (writes : List Write) : List Stmt :=
  .ifElse (.unary .not cond) (.block (reports hooks id writes ++ [.breakTo none])) none
    :: reports hooks id writes

def placeIf (cond : Expr) (ifTrue : Stmt) (ifFalse : Option Stmt) : Stmt :=
  let front := reports hooks id (writesIn cond)
  if front.isEmpty then .ifElse cond ifTrue ifFalse
  else .ifElse cond (prepend front ifTrue) (some (prepend front (ifFalse.getD (.block []))))

def placeWhile (cond : Expr) (body : Stmt) : Stmt :=
  let writes := writesIn cond
  if writes.isEmpty then .whileLoop cond body
  else .whileLoop (.bool true) (prepend (testInBody hooks id cond writes) body)

def placeDoWhile (body : Stmt) (cond : Expr) (label : Option String) : Naming Stmt := do
  let writes := writesIn cond
  if writes.isEmpty then return .doWhile body cond
  let iteration ← freshName "iteration"
  let body := retarget label iteration false (asBlock body)
  return .whileLoop (.bool true)
    (.block (.labeled iteration body :: testInBody hooks id cond writes))

/-- The condition of a `for` loop moves when it writes; updates are reported at the end
of the update list, which also runs after `continue`. -/
def placeFor (init : ForInit) (cond : Option Expr) (update : List Expr) (body : Stmt) :
    Placed :=
  let update := update ++ reportCalls hooks id (update.flatMap writesIn)
  let condWrites := (cond.map writesIn).getD []
  let (cond, body) :=
    match cond with
    | some test =>
        if condWrites.isEmpty then (some test, body)
        else (none, prepend (testInBody hooks id test condWrites) body)
    | none => (none, body)
  match init with
  | .exprs es =>
      .alone (.forLoop (.exprs (es ++ reportCalls hooks id (es.flatMap writesIn)))
        cond update body)
  | .decl type ident init =>
      { before :=
          .declare type ident init
            :: reports hooks id (writesIn init ++ [Write.ofVariable ident])
        stmt := .forLoop (.exprs []) cond update body
        after := [] }

mutual

/-- Places the reports of a statement; those of nested lists are in place already. -/
def place : Stmt → Naming Placed
  | .expr e => return .followedBy (.expr e) (reports hooks id (writesIn e))
  | .decl type ident (some init) =>
      return .followedBy (.decl type ident (some init))
        (reports hooks id (writesIn init ++ [Write.ofVariable ident]))
  | .ifElse cond ifTrue ifFalse => do
      return .alone (placeIf hooks id cond ifTrue (← placeElse ifFalse))
  | .whileLoop cond body => return .alone (placeWhile hooks id cond body)
  | .doWhile body cond => do
      return .alone (← placeDoWhile hooks id body cond none)
  | .forLoop init cond update body => return placeFor hooks id init cond update body
  | .forEach type ident items body =>
      return .followedBy
        (.forEach type ident items (prepend (reports hooks id [Write.ofVariable ident]) body))
        (reports hooks id (writesIn items))
  | .labeled label (.doWhile body cond) => do
      return .alone (.labeled label (← placeDoWhile hooks id body cond (some label)))
  | .labeled label body => do
      let inner ← place body
      return { inner with stmt := .labeled label inner.stmt }
  | .switch selector cases =>
      return .followedBy (.switch selector cases) (reports hooks id (writesIn selector))
  | .sync lock body => return .alone (.sync lock (reports hooks id (writesIn lock) ++ body))
  | s => return .alone s

/-- An `else if` is placed with its own condition. -/
def placeElse : Option Stmt → Naming (Option Stmt)
  | some s => do
      if chainsElse s then return some (← place s).stmt else return some s
  | none => return none

end

def placeInList (stmts : List Stmt) : Naming (List Stmt) := do
  let placed ← stmts.mapM (place hooks id)
  return placed.flatMap Placed.stmts

def reportChanges (body : List Stmt) : Naming (List Stmt) :=
  transformLists (placeInList hooks id) body

end

end Weave
end TraceWeaving
