import TraceWeaving.Eval.Call
import TraceWeaving.Eval.Operator

/-!
# Evaluating expressions

Operands are evaluated from left to right.  An assignment works out its place before
its value, and a compound assignment reads the place before it as well.
-/

namespace TraceWeaving
namespace Eval

open Code

section

variable (p : Program) (r : Evaluator)

def evalAssign (op : AssignOp) (target value : Expr) : Action Value := do
  let place ← resolvePlace p r target
  let result ←
    match op.arithmetic? with
    | none => r.eval value
    | some arithmetic => do
        let current ← place.read
        let operand ← r.eval value
        applyBinary arithmetic current operand
  place.write result
  return result

def evalStepping (op : UnaryOp) (target : Expr) : Action Value := do
  let place ← resolvePlace p r target
  match ← place.read with
  | .int n =>
      place.write (.int (stepped op n))
      return .int (stepResult op n (stepped op n))
  | other => .fail (.typeMismatch "increment" "int" other.typeName)

def evalUnary (op : UnaryOp) (operand : Expr) : Action Value :=
  match op with
  | .neg => do
      return .int (-(← r.evalInt operand "-"))
  | .not => do
      return .bool (!(← r.evalBool operand "!"))
  | op => evalStepping p r op operand

def evalBinary (op : BinaryOp) (left right : Expr) : Action Value :=
  match op with
  | .and => do
      if ← r.evalBool left "&&" then return .bool (← r.evalBool right "&&")
      return .bool false
  | .or => do
      if ← r.evalBool left "||" then return .bool true
      return .bool (← r.evalBool right "||")
  | op => do
      let a ← r.eval left
      let b ← r.eval right
      applyBinary op a b

def makeArray (elements : List Expr) : Action Value := do
  let items ← r.evalAll elements
  let s ← Action.state
  let (value, heap) := s.heap.alloc items.toArray
  Action.modify fun s => { s with heap := heap }
  return value

def evalStep (e : Expr) : Action Value :=
  match e with
  | .lit value => return .ofLiteral value
  | .name ident => readName ident
  | .self => do
      let s ← Action.state
      return .object s.frame.cls
  | .field target member => readMember p r target member
  | .index target position => readElement r target position
  | .assign op target value => evalAssign p r op target value
  | .unary op operand => evalUnary p r op operand
  | .binary op left right => evalBinary r op left right
  | .conditional cond ifTrue ifFalse => do
      if ← r.evalBool cond "?:" then r.eval ifTrue else r.eval ifFalse
  | .call receiver method args => evalCall p r receiver method args
  | .new cls args => do
      let args ← r.evalAll args
      instantiate p r cls args
  | .newArray _ elements => makeArray r elements
  | .superCall args => do
      let _ ← r.evalAll args
      return .null
  | .selfCall args => do
      let args ← r.evalAll args
      let s ← Action.state
      let c ← p.findClass s.frame.cls
      let _ ← construct r c args
      return .null

end

end Eval
end TraceWeaving
