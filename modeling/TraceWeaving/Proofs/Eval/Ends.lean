import Mathlib.Data.List.Forall2
import TraceWeaving.Proofs.Weave.Tracer

/-!
# The end of a scope

What a returning statement leaves in the innermost scope is lost with the scope.  Code may
therefore be exchanged for code that differs in this alone, and a statement that holds
lists of statements does the same when its lists end in the same way.
-/

namespace TraceWeaving
namespace Eval

open Code
open Trace (Throwable)

/-- The same outcome; after a `return` the innermost scopes may differ. -/
inductive Outcome.SameEnd : Outcome Flow → Outcome Flow → Prop where
  | same {o : Outcome Flow} : SameEnd o o
  | returned {value : Value} {s s' : State} :
      s.popScope = s'.popScope → SameEnd (.done (.returned value) s) (.done (.returned value) s')

def SameEnd (x y : Action Flow) : Prop :=
  ∀ s, (x s).SameEnd (y s)

namespace SameEnd

variable {α : Type} {x y : Action Flow}

theorem refl (x : Action Flow) : SameEnd x x :=
  fun _ => .same

theorem of_eq (h : x = y) : SameEnd x y := by
  rw [h]
  exact .refl y

theorem trans {z : Action Flow} (hxy : SameEnd x y) (hyz : SameEnd y z) : SameEnd x z := by
  intro s
  have hs := hxy s
  have hs' := hyz s
  generalize x s = o, y s = o', z s = o'' at hs hs'
  cases hs with
  | same => exact hs'
  | returned hpop =>
      cases hs' with
      | same => exact .returned hpop
      | returned hpop' => exact .returned (hpop.trans hpop')

theorem inScope_eq (h : SameEnd x y) : Action.inScope x = Action.inScope y := by
  funext s
  show (x s.pushScope).mapState State.popScope = (y s.pushScope).mapState State.popScope
  have hs := h s.pushScope
  generalize x s.pushScope = o, y s.pushScope = o' at hs
  cases hs with
  | same => rfl
  | returned hpop => exact congrArg (Outcome.done _) hpop

theorem ifNormal {k k' : Action Flow} (hx : SameEnd x y) (hk : SameEnd k k') :
    SameEnd (x >>= Eval.ifNormal k) (y >>= Eval.ifNormal k') := by
  intro s
  show (Action.bind x _ s).SameEnd (Action.bind y _ s)
  unfold Action.bind
  have hs := hx s
  generalize x s = o, y s = o' at hs
  cases hs with
  | same =>
      cases o with
      | done flow s' =>
          cases flow with
          | normal => exact hk s'
          | returned _ | broke _ | continued _ => exact .same
      | thrown _ _ | fault _ _ | exhausted => exact .same
  | returned hpop => exact .returned hpop

theorem after (x : Action α) {k k' : α → Action Flow} (hk : ∀ a, SameEnd (k a) (k' a)) :
    SameEnd (x >>= k) (x >>= k') := by
  intro s
  show (Action.bind x k s).SameEnd (Action.bind x k' s)
  unfold Action.bind
  cases x s with
  | done a s' => exact hk a s'
  | thrown _ _ | fault _ _ | exhausted => exact .same

end SameEnd

/-! ## Statements that hold lists -/

section

variable {r r' : Evaluator}

theorem execBlock_congr {stmts stmts' : List Stmt}
    (h : SameEnd (r.execAll stmts) (r'.execAll stmts')) :
    r.execBlock stmts = r'.execBlock stmts' :=
  h.inScope_eq

structure CasesAgree (r r' : Evaluator) (c c' : SwitchCase) : Prop where
  labels : c.labels = c'.labels
  body : SameEnd (r.execAll c.body) (r'.execAll c'.body)

structure CatchesAgree (r r' : Evaluator) (c c' : CatchClause) : Prop where
  type : c.type = c'.type
  ident : c.ident = c'.ident
  body : SameEnd (r.execAll c.body) (r'.execAll c'.body)

theorem forall₂_dropWhile {α : Type} {R : α → α → Prop} {p : α → Bool}
    (hp : ∀ a b, R a b → p a = p b) {xs ys : List α} (h : List.Forall₂ R xs ys) :
    List.Forall₂ R (xs.dropWhile p) (ys.dropWhile p) := by
  induction h with
  | nil => exact .nil
  | cons hab hrest ih =>
      rename_i a b xs ys
      rw [List.dropWhile_cons, List.dropWhile_cons, hp a b hab]
      split
      · exact ih
      · exact .cons hab hrest

theorem forall₂_casesFrom (value : Value) {cases cases' : List SwitchCase}
    (h : List.Forall₂ (CasesAgree r r') cases cases') :
    List.Forall₂ (CasesAgree r r') (casesFrom value cases) (casesFrom value cases') := by
  have hdrop : ∀ test : List Literal → Bool, List.Forall₂ (CasesAgree r r')
      (cases.dropWhile fun c => test c.labels) (cases'.dropWhile fun c => test c.labels) := by
    intro test
    apply forall₂_dropWhile _ h
    intro c c' hc
    rw [hc.labels]
  have hchosen := hdrop fun labels => !labels.any fun l => Value.ofLiteral l = value
  unfold casesFrom
  generalize cases.dropWhile _ = chosen at hchosen ⊢
  generalize cases'.dropWhile _ = chosen' at hchosen ⊢
  cases hchosen with
  | nil => exact hdrop fun labels => !labels.isEmpty
  | cons hc hrest => exact .cons hc hrest

theorem execCases_cons (r : Evaluator) (c : SwitchCase) (rest : List SwitchCase) :
    execCases r (c :: rest) = r.execAll c.body >>= fun flow =>
      match flow with
      | .normal => execCases r rest
      | .broke none => Pure.pure .normal
      | flow => Pure.pure flow :=
  rfl

theorem execCases_congr {cases cases' : List SwitchCase}
    (h : List.Forall₂ (CasesAgree r r') cases cases') :
    SameEnd (execCases r cases) (execCases r' cases') := by
  induction h with
  | nil => exact .refl _
  | cons hc hrest ih =>
      rename_i c c' rest rest'
      rw [execCases_cons, execCases_cons]
      intro s
      show (Action.bind _ _ s).SameEnd (Action.bind _ _ s)
      unfold Action.bind
      have hs := hc.body s
      generalize r.execAll c.body s = o, r'.execAll c'.body s = o' at hs
      cases hs with
      | same =>
          cases o with
          | done flow s' =>
              match flow with
              | .normal => exact ih s'
              | .broke none | .broke (some _) | .returned _ | .continued _ => exact .same
          | thrown _ _ | fault _ _ | exhausted => exact .same
      | returned hpop => exact .returned hpop

theorem execHandler_congr {catches catches' : List CatchClause}
    (h : List.Forall₂ (CatchesAgree r r') catches catches') :
    execHandler r catches = execHandler r' catches' := by
  funext t
  induction h with
  | nil => rfl
  | cons hc hrest ih =>
      rename_i c c' rest rest'
      unfold execHandler at ih ⊢
      rw [List.find?_cons, List.find?_cons, hc.type]
      cases catchesType c'.type t with
      | false => exact ih
      | true =>
          show Action.inScope _ = Action.inScope _
          rw [hc.ident]
          exact (SameEnd.after _ fun _ => hc.body).inScope_eq

theorem execTry_congr {body body' : List Stmt} {catches catches' : List CatchClause}
    {cleanup cleanup' : Option (List Stmt)} (hbody : r.execBlock body = r'.execBlock body')
    (hcatches : List.Forall₂ (CatchesAgree r r') catches catches')
    (hcleanup : cleanup.map r.execBlock = cleanup'.map r'.execBlock) :
    execTry r body catches cleanup = execTry r' body' catches' cleanup' := by
  have hcatching : execCatching r body catches = execCatching r' body' catches' := by
    rw [execCatching_eq, execCatching_eq, hbody, execHandler_congr hcatches]
  cases cleanup with
  | none =>
      cases cleanup' with
      | none => exact hcatching
      | some stmts' => exact absurd hcleanup (by simp)
  | some stmts =>
      cases cleanup' with
      | none => exact absurd hcleanup (by simp)
      | some stmts' =>
          have hblock : r.execBlock stmts = r'.execBlock stmts' := by simpa using hcleanup
          rw [execTry_cleanup_eq, execTry_cleanup_eq, hcatching]
          unfold execBefore
          rw [hblock]

variable (h : r.eval = r'.eval)

include h

theorem execSwitch_congr (selector : Expr) {cases cases' : List SwitchCase}
    (hcases : List.Forall₂ (CasesAgree r r') cases cases') :
    execSwitch r selector cases = execSwitch r' selector cases' := by
  unfold execSwitch
  rw [h]
  congr 1
  funext value
  exact (execCases_congr (forall₂_casesFrom value hcases)).inScope_eq

end

end Eval
end TraceWeaving
