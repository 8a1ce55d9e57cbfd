import TraceWeaving.Eval.Outcome

/-!
# Evaluators

The rules of evaluation are stated one step at a time.  A step is given an evaluator
for everything inside and after it, so that every rule is an ordinary definition
without recursion; the recursion is tied once, over the number of steps.
-/

namespace TraceWeaving
namespace Eval

open Code

/-- A unit together with the class whose calls are reports. -/
structure Program where
  unit : CompilationUnit
  runtimeClass : String

/-- How a statement ends when nothing is thrown. -/
inductive Flow where
  | normal
  | returned (value : Value)
  | broke (label : Option String)
  | continued (label : Option String)
  deriving DecidableEq

inductive Loop where
  | whileLoop (cond : Expr) (body : Stmt)
  | doWhile (body : Stmt) (cond : Expr)
  | forLoop (cond : Option Expr) (update : List Expr) (body : Stmt)

structure Evaluator where
  eval : Expr → Action Value
  exec : Stmt → Action Flow
  /-- Runs the iterations of a loop with the given label. -/
  iterate : Option String → Loop → Action Flow

namespace Program

def findClass (p : Program) (name : String) : Action ClassDecl :=
  .orFail (.classNotFound name) (p.unit.class? name)

/-- Whether a name in an expression stands for a class: no variable hides it. -/
def isClassName (p : Program) (name : String) : Action Bool := do
  let s ← Action.state
  return (s.frame.lookup? name).isNone && (p.unit.class? name).isSome

end Program

namespace Value

def snapshot (v : Value) : Action Trace.Snapshot := do
  let s ← Action.state
  .orDiverge (s.heap.snapshot? v)

def text (v : Value) : Action String := do
  return (← v.snapshot).text

def equals (a b : Value) : Action Bool := do
  let s ← Action.state
  .orDiverge (s.heap.equal? a b)

end Value

namespace Evaluator

variable (r : Evaluator)

def evalAll : List Expr → Action (List Value)
  | [] => return []
  | e :: rest => do
      let value ← r.eval e
      return value :: (← evalAll rest)

def evalEach : List Expr → Action Unit
  | [] => return ()
  | e :: rest => do
      let _ ← r.eval e
      evalEach rest

def evalBool (e : Expr) (operation : String) : Action Bool := do
  match ← r.eval e with
  | .bool b => return b
  | other => .fail (.typeMismatch operation "boolean" other.typeName)

def evalInt (e : Expr) (operation : String) : Action Int64 := do
  match ← r.eval e with
  | .int n => return n
  | other => .fail (.typeMismatch operation "int" other.typeName)

def evalArray (e : Expr) : Action Nat := do
  match ← r.eval e with
  | .array address => return address
  | .null => .raise "NullPointerException" "array is null"
  | other => .fail (.typeMismatch "indexing" "array" other.typeName)

def evalInit (type : TypeName) : Option Expr → Action Value
  | some init => r.eval init
  | none => return .initial type

def execAll : List Stmt → Action Flow
  | [] => return .normal
  | s :: rest => do
      match ← r.exec s with
      | .normal => execAll rest
      | flow => return flow

def execBlock (stmts : List Stmt) : Action Flow :=
  .inScope (r.execAll stmts)

end Evaluator
end Eval
end TraceWeaving
