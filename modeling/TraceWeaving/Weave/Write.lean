import TraceWeaving.Code.Lexeme

/-!
# Writes of an expression

The places that an expression certainly writes, in the order in which the writes
take effect.  A write in the right operand of `&&` and `||`, or in a branch of `?:`,
may not happen and is left out.  A place is reported by a path that can be read again
without side effects; a write to an element reports the whole array, and a target
without such a path is left out.
-/

namespace TraceWeaving
namespace Weave

open Code

/-- A completed write: the text of the path, and the expression that reads it. -/
structure Write where
  path : String
  target : Expr

namespace Write

def ofPath (target : Expr) : Write :=
  ⟨target.source, target⟩

def ofVariable (ident : String) : Write :=
  ⟨ident, .name ident⟩

end Write

/-- Names, fields of the own object, and fields of stable paths. -/
def isStablePath : Expr → Bool
  | .name _ => true
  | .field .self _ => true
  | .field target _ => isStablePath target
  | _ => false

def writeTo? : Expr → Option Write
  | .index target _ => writeTo? target
  | target => if isStablePath target then some (.ofPath target) else none

mutual

def writesIn : Expr → List Write
  | .assign _ target value => writesInPlace target ++ writesIn value ++ (writeTo? target).toList
  | .unary op operand =>
      if op.isMutating then writesInPlace operand ++ (writeTo? operand).toList
      else writesIn operand
  | .binary op left right => writesIn left ++ (if op.isShortCircuit then [] else writesIn right)
  | .conditional cond _ _ => writesIn cond
  | .field target _ => writesIn target
  | .index target position => writesIn target ++ writesIn position
  | .call receiver _ args => writesInReceiver receiver ++ writesInAll args
  | .new _ args => writesInAll args
  | .newArray _ elements => writesInAll elements
  | .superCall args => writesInAll args
  | .selfCall args => writesInAll args
  | .lit _ | .name _ | .self => []

/-- The writes made while the place of a target is worked out. -/
def writesInPlace : Expr → List Write
  | .field target _ => writesIn target
  | .index target position => writesIn target ++ writesIn position
  | _ => []

def writesInReceiver : Option Expr → List Write
  | some receiver => writesIn receiver
  | none => []

def writesInAll : List Expr → List Write
  | [] => []
  | e :: rest => writesIn e ++ writesInAll rest

end

end Weave
end TraceWeaving
