import TraceWeaving.Eval.Evaluator

/-!
# Operators on values

Integer arithmetic wraps around at 64 bits and truncates quotients toward zero.  A sum
with a string on either side is a concatenation.
-/

namespace TraceWeaving
namespace Eval

open Code

def applyToInts (op : BinaryOp) (a b : Int64) : Action Value :=
  match op with
  | .add => return .int (a + b)
  | .sub => return .int (a - b)
  | .mul => return .int (a * b)
  | .div => if b = 0 then .raise "ArithmeticException" "/ by zero" else return .int (a / b)
  | .rem => if b = 0 then .raise "ArithmeticException" "/ by zero" else return .int (a % b)
  | .lt => return .bool (a < b)
  | .le => return .bool (a ≤ b)
  | .gt => return .bool (b < a)
  | .ge => return .bool (b ≤ a)
  | .eq => return .bool (a = b)
  | .ne => return .bool (a ≠ b)
  | .and | .or => .fail (.typeMismatch op.symbol "boolean" "int")

def concatenate (a b : Value) : Action Value := do
  let left ← a.text
  let right ← b.text
  return .str (left ++ right)

def applyBinary (op : BinaryOp) (a b : Value) : Action Value :=
  match op, a, b with
  | .add, .str _, _ => concatenate a b
  | .add, _, .str _ => concatenate a b
  | .eq, _, _ => do
      return .bool (← a.equals b)
  | .ne, _, _ => do
      return .bool (!(← a.equals b))
  | op, .int a, .int b => applyToInts op a b
  | op, _, _ =>
      .fail (.typeMismatch op.symbol "int operands" (a.typeName ++ " and " ++ b.typeName))

def stepped (op : UnaryOp) (n : Int64) : Int64 :=
  match op with
  | .preInc | .postInc => n + 1
  | _ => n - 1

/-- The value of an increment or decrement as an expression. -/
def stepResult (op : UnaryOp) (before after : Int64) : Int64 :=
  if op.isPostfix then before else after

end Eval
end TraceWeaving
