import TraceWeaving.Code.Basic

/-!
# Statement lists

Code is inserted next to existing statements, so the unit of change is a statement
list: a block, the body of a switch case, or a part of a `try` statement.  Lists are
visited from the outside in and in source order; changes proceed from the inside
out.  A body that is a single statement is not a list.
-/

namespace TraceWeaving
namespace Code

inductive ListRole where
  | block
  | switchCase
  deriving DecidableEq

/-! ## Visiting -/

namespace Stmt

mutual

/-- The statement lists nested in a statement, in visiting order. -/
def nestedLists : Stmt → List (ListRole × List Stmt)
  | block stmts => (.block, stmts) :: nestedListsOfAll stmts
  | ifElse _ ifTrue ifFalse => nestedLists ifTrue ++ nestedListsOfElse ifFalse
  | whileLoop _ body => nestedLists body
  | doWhile body _ => nestedLists body
  | forLoop _ _ _ body => nestedLists body
  | forEach _ _ _ body => nestedLists body
  | labeled _ body => nestedLists body
  | switch _ cases => nestedListsOfCases cases
  | tryCatch body catches cleanup =>
      (.block, body) :: nestedListsOfAll body ++ nestedListsOfCatches catches
        ++ nestedListsOfCleanup cleanup
  | sync _ body => (.block, body) :: nestedListsOfAll body
  | decl .. | expr _ | breakTo _ | continueTo _ | ret _ | raise _ | unmodelled _ => []

def nestedListsOfAll : List Stmt → List (ListRole × List Stmt)
  | [] => []
  | s :: rest => nestedLists s ++ nestedListsOfAll rest

def nestedListsOfElse : Option Stmt → List (ListRole × List Stmt)
  | some s => nestedLists s
  | none => []

def nestedListsOfCases : List SwitchCase → List (ListRole × List Stmt)
  | [] => []
  | .mk _ body :: rest =>
      (.switchCase, body) :: nestedListsOfAll body ++ nestedListsOfCases rest

def nestedListsOfCatches : List CatchClause → List (ListRole × List Stmt)
  | [] => []
  | .mk _ _ body :: rest =>
      (.block, body) :: nestedListsOfAll body ++ nestedListsOfCatches rest

def nestedListsOfCleanup : Option (List Stmt) → List (ListRole × List Stmt)
  | some stmts => (.block, stmts) :: nestedListsOfAll stmts
  | none => []

end

end Stmt

/-- All statement lists of a block, the block itself first. -/
def listsOf (stmts : List Stmt) : List (ListRole × List Stmt) :=
  (.block, stmts) :: Stmt.nestedListsOfAll stmts

/-! ## Transforming -/

namespace Stmt

section

variable {m : Type → Type} [Monad m] (f : List Stmt → m (List Stmt))

mutual

def transformNested : Stmt → m Stmt
  | block stmts => do
      return block (← f (← transformNestedInAll stmts))
  | ifElse cond ifTrue ifFalse => do
      let ifTrue ← transformNested ifTrue
      return ifElse cond ifTrue (← transformNestedInElse ifFalse)
  | whileLoop cond body => do
      return whileLoop cond (← transformNested body)
  | doWhile body cond => do
      return doWhile (← transformNested body) cond
  | forLoop init cond update body => do
      return forLoop init cond update (← transformNested body)
  | forEach type ident items body => do
      return forEach type ident items (← transformNested body)
  | labeled label body => do
      return labeled label (← transformNested body)
  | switch selector cases => do
      return switch selector (← transformCases cases)
  | tryCatch body catches cleanup => do
      let body ← f (← transformNestedInAll body)
      let catches ← transformCatches catches
      return tryCatch body catches (← transformCleanup cleanup)
  | sync lock body => do
      return sync lock (← f (← transformNestedInAll body))
  | decl type ident init => pure (decl type ident init)
  | expr e => pure (expr e)
  | breakTo label => pure (breakTo label)
  | continueTo label => pure (continueTo label)
  | ret value => pure (ret value)
  | raise value => pure (raise value)
  | unmodelled text => pure (unmodelled text)

def transformNestedInAll : List Stmt → m (List Stmt)
  | [] => pure []
  | s :: rest => do
      let s ← transformNested s
      return s :: (← transformNestedInAll rest)

def transformNestedInElse : Option Stmt → m (Option Stmt)
  | some s => do
      return some (← transformNested s)
  | none => pure none

def transformCases : List SwitchCase → m (List SwitchCase)
  | [] => pure []
  | .mk labels body :: rest => do
      let body ← f (← transformNestedInAll body)
      return .mk labels body :: (← transformCases rest)

def transformCatches : List CatchClause → m (List CatchClause)
  | [] => pure []
  | .mk type ident body :: rest => do
      let body ← f (← transformNestedInAll body)
      return .mk type ident body :: (← transformCatches rest)

def transformCleanup : Option (List Stmt) → m (Option (List Stmt))
  | some stmts => do
      return some (← f (← transformNestedInAll stmts))
  | none => pure none

end

end

end Stmt

/-- Transforms every statement list of a block, the innermost first and the block itself
last. -/
def transformLists {m : Type → Type} [Monad m] (f : List Stmt → m (List Stmt))
    (stmts : List Stmt) : m (List Stmt) := do
  f (← Stmt.transformNestedInAll f stmts)

end Code
end TraceWeaving
