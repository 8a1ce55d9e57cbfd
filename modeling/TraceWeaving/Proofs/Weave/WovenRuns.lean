import TraceWeaving.Proofs.Weave.Errors
import TraceWeaving.Proofs.Weave.Reference

/-!
# Runs of woven methods

In any program, running a woven method is observing the former body, in normal form: the
same reports are made, in the same places, and the method goes the same way.
-/

namespace TraceWeaving
namespace Weave

open Code
open Eval (Program)

/-- Labels are not reserved and not used again inside their statements, and a constructor
calls another one in its first statement, if at all. -/
def Arranged (m : MethodDecl) (body : List Stmt) : Prop :=
  Stmt.EveryIn LabelsHere body ∧ DelegatesFirst m body

instance (m : MethodDecl) (body : List Stmt) : Decidable (Arranged m body) :=
  inferInstanceAs (Decidable (_ ∧ _))

/-- In any program, a run of a woven method is an observed run, if its bound does not cut it
short. -/
theorem runMethod_observed {w : Weaver} {u : CompilationUnit} (u' : CompilationUnit)
    {c c' : ClassDecl} {m m' : MethodDecl} {reports : List MethodReport}
    {methodReport : MethodReport}
    (hc : w.weaveClass u c = .ok (c', reports))
    (hm : w.weaveMethod (w.session u c m) = .ok (m', methodReport))
    (hwoven : methodReport.isWoven = true) :
    ∃ body, m.body = some body ∧ (Arranged m body → ∀ args s, ∃ bound, ∀ steps ≥ bound,
      Eval.runMethod ((⟨u', w.hooks.runtimeClass⟩ : Program).evaluator steps) c' m' args s =
        w.observedCall (w.session u c m) (⟨u', w.hooks.runtimeClass⟩ : Program).meaning c body
          args s) := by
  rcases bodies_of_isWoven hm hwoven with ⟨body, hbody, rfl⟩
  obtain rfl : c' = c.withBodies (w.bodies u c) := weaveClass_ok hc
  refine ⟨body, hbody, fun harranged args s => ?_⟩
  let p : Program := ⟨u', w.hooks.runtimeClass⟩
  have hrun : Eval.runMethod p.meaning (c.withBodies (w.bodies u c))
      { m with body := some (w.bodyOf (w.session u c m) body) } args =
        w.observedCall (w.session u c m) p.meaning c body args :=
    runMethod_bodyOf (w := w) (s := w.session u c m) (Eval.runs_meaning p) rfl
      (c.withBodies (w.bodies u c)) harranged.1 harranged.2 args
  rcases p.tends_runMethod (c.withBodies (w.bodies u c))
    { m with body := some (w.bodyOf (w.session u c m) body) } args s with ⟨bound, hbound⟩
  rw [← hrun]
  exact ⟨bound, hbound⟩

/-- A method whose reports move: a condition that writes inside a loop that is left early. -/
def drainMethod : MethodDecl :=
  ((MethodDecl.procedure "drain").withParam "left" "int").returning "int" |>.withBody
    [.whileLoop (.binary .gt (.unary .postDec (.name "left")) (.int 0))
      (.ifElse (.binary .eq (.name "left") (.int 3))
        (.retValue (.set (.name "left") (.int 7))) none),
     .retValue (.name "left")]

def drainClass : ClassDecl :=
  (ClassDecl.empty "Tank").withMethod drainMethod

def drainUnit : CompilationUnit where
  package := none
  classes := [drainClass]

end Weave
end TraceWeaving
