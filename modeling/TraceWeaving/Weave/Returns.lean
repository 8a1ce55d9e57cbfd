import TraceWeaving.Code.Lists
import TraceWeaving.Weave.Defect
import TraceWeaving.Weave.Naming

/-!
# Returned values

A returned expression is moved into a variable of its own, so that its value can be
reported without evaluating it twice; then a report is put in front of every
`return` that has a value.
-/

namespace TraceWeaving
namespace Weave

open Code

/-! ## Moving returned expressions into variables -/

def isValueReturn : Stmt → Bool
  | .ret (some _) => true
  | _ => false

def returnsSomeValue (body : List Stmt) : Bool :=
  (listsOf body).any fun list => list.2.any isValueReturn

def extractReturn (keep : Expr → Bool) (type : TypeName) : Stmt → Naming (List Stmt)
  | .ret (some value) =>
      if keep value then return [.retValue value]
      else do
        let result ← freshName "return"
        return [.declare type result value, .retValue (.name result)]
  | s => return [s]

def extractReturnsInList (keep : Expr → Bool) (type : TypeName) (stmts : List Stmt) :
    Naming (List Stmt) := do
  return (← stmts.mapM (extractReturn keep type)).flatten

/-- Moves every returned expression that `keep` does not hold of into a fresh variable.
Only a method with a type for its values can return one. -/
def extractReturns (keep : Expr → Bool) (decl : MethodDecl) (body : List Stmt) :
    Except Defect (Naming (List Stmt)) :=
  match decl.returnType with
  | some type =>
      if isVoid type then refuseValues
      else .ok (transformLists (extractReturnsInList keep type) body)
  | none => refuseValues
where
  refuseValues :=
    if returnsSomeValue body then .error (.valueWithoutType decl.name) else .ok (pure body)

/-! ## Reporting returned values -/

def reportReturn (hooks : Hooks) (id : String) : Stmt → List Stmt
  | .ret (some value) => [hooks.returning id value, .retValue value]
  | s => [s]

def reportReturns (hooks : Hooks) (id : String) (body : List Stmt) : List Stmt :=
  Id.run (transformLists (fun stmts => pure (stmts.flatMap (reportReturn hooks id))) body)

end Weave
end TraceWeaving
