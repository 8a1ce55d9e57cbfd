/-!
# Operators

The operators of expressions, with the symbols they are written with and the
binding strength of the binary ones.
-/

namespace TraceWeaving
namespace Code

inductive BinaryOp where
  | add
  | sub
  | mul
  | div
  | rem
  | lt
  | le
  | gt
  | ge
  | eq
  | ne
  | and
  | or
  deriving DecidableEq, Repr

namespace BinaryOp

def all : List BinaryOp :=
  [add, sub, mul, div, rem, lt, le, gt, ge, eq, ne, and, or]

def symbol : BinaryOp → String
  | add => "+"
  | sub => "-"
  | mul => "*"
  | div => "/"
  | rem => "%"
  | lt => "<"
  | le => "<="
  | gt => ">"
  | ge => ">="
  | eq => "=="
  | ne => "!="
  | and => "&&"
  | or => "||"

/-- Binding strength; a higher number binds tighter. -/
def precedence : BinaryOp → Nat
  | or => 3
  | and => 4
  | eq | ne => 8
  | lt | le | gt | ge => 9
  | add | sub => 11
  | mul | div | rem => 12

def isShortCircuit : BinaryOp → Bool
  | and | or => true
  | _ => false

end BinaryOp

inductive AssignOp where
  | plain
  | add
  | sub
  | mul
  | div
  | rem
  deriving DecidableEq, Repr

namespace AssignOp

def all : List AssignOp :=
  [plain, add, sub, mul, div, rem]

def symbol : AssignOp → String
  | plain => "="
  | add => "+="
  | sub => "-="
  | mul => "*="
  | div => "/="
  | rem => "%="

/-- The arithmetic that a compound assignment applies to the old value. -/
def arithmetic? : AssignOp → Option BinaryOp
  | plain => none
  | add => some .add
  | sub => some .sub
  | mul => some .mul
  | div => some .div
  | rem => some .rem

end AssignOp

inductive UnaryOp where
  | neg
  | not
  | preInc
  | preDec
  | postInc
  | postDec
  deriving DecidableEq, Repr

namespace UnaryOp

def all : List UnaryOp :=
  [neg, not, preInc, preDec, postInc, postDec]

def symbol : UnaryOp → String
  | neg => "-"
  | not => "!"
  | preInc | postInc => "++"
  | preDec | postDec => "--"

def isPostfix : UnaryOp → Bool
  | postInc | postDec => true
  | _ => false

def isMutating : UnaryOp → Bool
  | neg | not => false
  | _ => true

end UnaryOp

end Code
end TraceWeaving
