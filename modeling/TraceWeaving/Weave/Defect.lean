/-!
# Defects

The shapes of a method that a weaving pass cannot work on.
-/

namespace TraceWeaving
namespace Weave

inductive Defect where
  | noBody (method : String)
  | noWrapper
  | unmodelledCode (text : String)
  | valueWithoutType (method : String)
  deriving DecidableEq

namespace Defect

def construct : Defect → String
  | noBody _ => "method without body"
  | noWrapper => "method body"
  | unmodelledCode _ => "statement"
  | valueWithoutType _ => "return statement"

def reason : Defect → String
  | noBody method => "'" ++ method ++ "' has no body"
  | noWrapper => "the entry/exit wrapper is missing; it must be added before this pass"
  | unmodelledCode text => "cannot instrument around unmodelled code `" ++ text ++ "`"
  | valueWithoutType method =>
      "'" ++ method ++ "' returns a value but declares no return type"

def message (defect : Defect) : String :=
  "Unsupported " ++ defect.construct ++ ": " ++ defect.reason

end Defect
end Weave
end TraceWeaving
