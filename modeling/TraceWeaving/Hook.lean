import TraceWeaving.Code.Build

/-!
# Hooks

The calls that are woven into a method.  Every hook is a call on the runtime class
whose first argument is the identifier of the method.
-/

namespace TraceWeaving

open Code

/-- The class that receives the woven calls. -/
structure Hooks where
  runtimeClass : String
  deriving DecidableEq

namespace Hooks

/-- Names that start like this are reserved for woven code. -/
def reservedStart : String :=
  "$scribe_"

def errorVariable : String :=
  reservedStart ++ "error"

def call (hooks : Hooks) (hook : String) (args : List Expr) : Expr :=
  .callOn (.name hooks.runtimeClass) hook args

def report (hooks : Hooks) (hook : String) (args : List Expr) : Stmt :=
  .expr (hooks.call hook args)

def entering (hooks : Hooks) (id : String) (params : List Param) : Stmt :=
  hooks.report "entering"
    [.text id,
     .newArray "String" (params.map fun p => .text p.name),
     .newArray "Object" (params.map fun p => .name p.name)]

def exiting (hooks : Hooks) (id : String) : Stmt :=
  hooks.report "exiting" [.text id]

def returning (hooks : Hooks) (id : String) (value : Expr) : Stmt :=
  hooks.report "returning" [.text id, value]

def changedCall (hooks : Hooks) (id path : String) (target : Expr) : Expr :=
  hooks.call "valueChanged" [.text id, .text path, target]

def changed (hooks : Hooks) (id path : String) (target : Expr) : Stmt :=
  .expr (hooks.changedCall id path target)

def longestMillis : UInt64 :=
  9223372036854775807

/-- Sets a deadline; durations beyond the range of literals are cut to the longest. -/
def timeout (hooks : Hooks) (id : String) (millis : UInt64) : Stmt :=
  hooks.report "timeout" [.text id, .long (min millis longestMillis).toInt64]

def onErrorClause (hooks : Hooks) (id : String) : CatchClause :=
  .mk "Throwable" errorVariable
    [hooks.report "onError" [.text id, .name errorVariable],
     .raise (.name errorVariable)]

/-! ## Recognising hooks -/

def isCallOf (hooks : Hooks) (hook : String) : Expr → Bool
  | .call (some (.name cls)) method _ => method = hook && cls = hooks.runtimeClass
  | _ => false

def isExiting (hooks : Hooks) : Stmt → Bool
  | .expr e => hooks.isCallOf "exiting" e
  | _ => false

end Hooks
end TraceWeaving
