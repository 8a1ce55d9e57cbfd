import TraceWeaving.Text.Numeral

/-!
# Faults

The ways in which a program turns out not to be evaluable.  A fault is not a thrown
value: no catch clause and no cleanup sees it.
-/

namespace TraceWeaving
namespace Eval

inductive Fault where
  | classNotFound (name : String)
  | methodNotFound (cls method : String) (arity : Nat)
  | variableNotFound (name : String)
  | typeMismatch (operation expected actual : String)
  | invalidTarget (text : String)
  | strayControl (keyword : String)
  | unsupported (text : String)
  | unknownHook (name : String)
  deriving DecidableEq

namespace Fault

def message : Fault → String
  | classNotFound name => "Class '" ++ name ++ "' not found"
  | methodNotFound cls method arity =>
      "Method '" ++ cls ++ "." ++ method ++ "' with " ++ Text.natText arity
        ++ " argument(s) not found"
  | variableNotFound name => "Variable '" ++ name ++ "' not found"
  | typeMismatch operation expected actual =>
      "Type error: " ++ operation ++ " requires " ++ expected ++ ", got " ++ actual
  | invalidTarget text => "Invalid assignment target: " ++ text
  | strayControl keyword => "Unexpected " ++ keyword ++ " outside of a loop or method"
  | unsupported text => "Unsupported construct: " ++ text
  | unknownHook name => "Unknown runtime call '" ++ name ++ "'"

end Fault
end Eval
end TraceWeaving
