import TraceWeaving.Proofs.Weave.Reference

/-!
# Blocks around controlled statements

The normal form puts blocks around branches and bodies of loops.  That makes a difference
to declarations alone, which end with their blocks.  Code in which no declaration is a
branch or a body therefore does what its normal form does.
-/

namespace TraceWeaving

namespace Code.Stmt

def isDecl : Stmt → Bool
  | decl _ _ _ => true
  | _ => false

/-- A statement that controls no declaration. -/
def ScopesHere (s : Stmt) : Prop :=
  ∀ t ∈ s.bodies, t.isDecl = false

instance : DecidablePred ScopesHere :=
  fun s => inferInstanceAs (Decidable (∀ t ∈ s.bodies, t.isDecl = false))

end Code.Stmt

namespace Eval

open Code
open Code.Stmt (ScopesHere)
open Weave

section

variable {E : Evaluator} {ρ : Expr → Action Value}
variable (hE : ∀ e, PassesFrom 0 (E.eval e)) (hret : ∀ e, PassesFrom 0 (ρ e))

include hE hret

/-! ## Statements that declare nothing -/

omit hE hret in
theorem passes_execForEach {r : Evaluator} (hr : r.Passes) {ident : String} (items : Expr)
    {body : Stmt} (label : Option String) :
    PassesFrom 0 (execForEach r label ident items body) := by
  have h := closed_passes 0
  have hround : ∀ item, PassesFrom 0 (Action.inScope
      (Action.modify (fun s => s.declare ident item) >>= fun _ => r.exec body)) := by
    intro item
    apply PassesFrom.inScope
    exact PassesFrom.bind (closedStmt_passes.declare ident item) fun _ => hr.exec body
  have hitems : ∀ values, PassesFrom 0 (execForItems r label ident body values) := by
    intro values
    induction values with
    | nil => exact h.pure _
    | cons item values ih =>
        rw [execForItems_cons]
        apply (hround item).bind
        intro flow
        cases LoopStep.ofFlow label flow with
        | next => exact ih
        | stop => exact h.pure _
        | leave flow => exact h.pure flow
  rw [execForEach_eq]
  apply (hr.eval items).bind
  intro value
  cases value with
  | array address => exact PassesFrom.bind (h.look _) fun values => hitems values
  | null | int _ | bool _ | str _ | object _ | throwable _ => exact h.fail _

omit hE hret in
theorem passes_execTry {r : Evaluator} (hr : r.Passes) (body : List Stmt)
    (catches : List CatchClause) (cleanup : Option (List Stmt)) :
    PassesFrom 0 (execTry r body catches cleanup) := by
  have h := closed_passes 0
  have hhandler : ∀ t, PassesFrom 0 (execHandler r catches t) := by
    intro t
    unfold execHandler
    cases catches.find? fun c => catchesType c.type t with
    | none => exact h.raise t
    | some c =>
        apply PassesFrom.inScope
        exact PassesFrom.bind (closedStmt_passes.declare c.ident _) fun _ => hr.execAll c.body
  have hcatching : PassesFrom 0 (execCatching r body catches) := by
    rw [execCatching_eq]
    exact (hr.execBlock body).andThen (fun flow => h.pure flow) hhandler
  cases cleanup with
  | none => exact hcatching
  | some stmts =>
      have hbefore : ∀ {o : Action Flow}, PassesFrom 0 o → PassesFrom 0 (execBefore r stmts o) := by
        intro o ho
        apply (hr.execBlock stmts).bind
        intro flow
        cases flow with
        | normal => exact ho
        | returned _ | broke _ | continued _ => exact h.pure _
      rw [execTry_cleanup_eq]
      exact hcatching.andThen (fun flow => hbefore (h.pure flow)) fun t => hbefore (h.raise t)

theorem passes_execLoop {s : Stmt} (hs : s.isLoop = true)
    (hbody : ∀ t ∈ s.bodies, PassesFrom 0 ((plain E ρ).exec t)) (label : Option String) :
    PassesFrom 0 (execLoop (plain E ρ) label s) := by
  have hplain : (plain E ρ).Passes := passes_plain hE hret
  cases s with
  | whileLoop cond body | doWhile body cond =>
      exact passes_iterate_plain hE label (hbody body (List.mem_singleton_self body))
  | forLoop init cond update body =>
      apply PassesFrom.inScope
      exact PassesFrom.bind (closedStmt_passes.execForInit (r := fun _ => plain E ρ)
        fun e _ => (hplain.eval e).weaken 1) fun _ => hplain.iterate label _
  | forEach type ident items body =>
      exact passes_execForEach hplain items label
  | block _ | decl _ _ _ | expr _ | ifElse _ _ _ | labeled _ _ | switch _ _ | breakTo _
  | continueTo _ | ret _ | raise _ | tryCatch _ _ _ | sync _ _ | unmodelled _ =>
      exact absurd hs (by simp [Stmt.isLoop])

/-- A statement that declares nothing does not see an empty scope, and neither do the
statements that it controls. -/
theorem passes_exec_plain (s : Stmt) (hscopes : s.Every ScopesHere) :
    (s.isDecl = false → PassesFrom 0 ((plain E ρ).exec s)) ∧
      ∀ t ∈ s.bodies, PassesFrom 0 ((plain E ρ).exec t) := by
  have hplain : (plain E ρ).Passes := passes_plain hE hret
  have h := closed_passes 0
  induction s using Stmt.childInduction with
  | step s ih =>
      have hbodies : ∀ t ∈ s.bodies, PassesFrom 0 ((plain E ρ).exec t) := by
        intro t ht
        have hmem := Stmt.bodies_subset s ht
        exact (ih t hmem (hscopes.child hmem)).1 (hscopes.here t ht)
      refine ⟨fun hdecl => ?_, hbodies⟩
      cases s with
      | block stmts =>
          rw [exec_plain_block]
          exact hplain.execBlock stmts
      | expr e =>
          rw [exec_plain]
          exact (hplain.eval e).bind fun _ => h.pure _
      | ifElse cond ifTrue ifFalse =>
          rw [exec_plain_ifElse]
          apply PassesFrom.bind (h.evalBool (r := fun _ => E) (hE cond) "if")
          intro holds
          cases holds with
          | true => exact hbodies ifTrue List.mem_cons_self
          | false =>
              apply passes_execElse
              intro t ht
              exact hbodies t (List.mem_cons_of_mem _ (Option.mem_toList.mpr ht))
      | whileLoop _ _ | doWhile _ _ | forLoop _ _ _ _ | forEach _ _ _ _ =>
          rw [exec_plain_loop rfl]
          exact passes_execLoop hE hret rfl hbodies none
      | labeled label body =>
          have hmem := List.mem_singleton_self body
          rw [exec_plain]
          show PassesFrom 0 (execLabeled _ label body)
          by_cases hloop : body.isLoop = true
          · unfold execLabeled
            rw [if_pos hloop]
            exact passes_execLoop hE hret hloop (ih body hmem (hscopes.child hmem)).2 (some label)
          · rw [execLabeled_eq _ _ (Bool.eq_false_iff.mpr hloop)]
            exact (hbodies body hmem).bind fun _ => h.pure _
      | switch selector cases =>
          rw [exec_plain]
          apply (hplain.eval selector).bind
          intro value
          apply PassesFrom.inScope
          exact closedStmt_passes.execCases (r := fun _ => plain E ρ) fun _ _ t _ => hplain.exec t
      | breakTo _ | continueTo _ =>
          rw [exec_plain]
          exact h.pure _
      | ret value =>
          rw [exec_plain]
          cases value with
          | none => exact h.pure _
          | some value => exact (hret value).bind fun _ => h.pure _
      | raise value =>
          rw [exec_plain]
          exact h.execRaise (r := fun _ => plain E ρ) (hplain.eval value)
      | tryCatch body catches cleanup =>
          rw [exec_plain]
          exact passes_execTry hplain body catches cleanup
      | sync lock body =>
          rw [exec_plain]
          exact (hplain.eval lock).bind fun _ => hplain.execBlock body
      | unmodelled text =>
          rw [exec_plain]
          exact h.fail _
      | decl _ _ _ => exact nomatch hdecl

/-! ## Normal code -/

omit hE hret in
theorem isLoop_normalize (s : Stmt) : (normalize s).isLoop = s.isLoop := by
  rw [← isLoop_head, head_normalize, isLoop_head]

omit hE hret in
theorem exec_asBlock {s : Stmt} (hs : PassesFrom 0 ((plain E ρ).exec s)) :
    (plain E ρ).exec (asBlock s) = (plain E ρ).exec s := by
  unfold asBlock
  split
  · rfl
  · rw [exec_plain_block]
    show Action.inScope ((plain E ρ).execAll [s]) = _
    rw [Evaluator.execAll_singleton, inScope_eq hs]

omit hE hret in
theorem execAll_map_congr {r : Evaluator} {f : Stmt → Stmt} {stmts : List Stmt}
    (h : ∀ s ∈ stmts, r.exec (f s) = r.exec s) : r.execAll (stmts.map f) = r.execAll stmts := by
  induction stmts with
  | nil => rfl
  | cons s rest ih =>
      rw [List.map_cons, Evaluator.execAll_cons, Evaluator.execAll_cons, h s List.mem_cons_self,
        ih fun t ht => h t (List.mem_cons_of_mem s ht)]

omit hE hret in
theorem execLoop_normalize {s : Stmt} (hs : s.isLoop = true)
    (hbody : ∀ t ∈ s.bodies, (plain E ρ).exec (asBlock (normalize t)) = (plain E ρ).exec t)
    (label : Option String) :
    execLoop (plain E ρ) label (normalize s) = execLoop (plain E ρ) label s := by
  rcases Stmt.exists_body_of_isLoop hs with ⟨body, hbodies⟩
  have hloop : normalize s = s.withLoopBody (asBlock (normalize body)) := by
    cases s with
    | whileLoop _ _ | doWhile _ _ | forLoop _ _ _ _ | forEach _ _ _ _ =>
        obtain rfl := List.head_eq_of_cons_eq hbodies
        rfl
    | block _ | decl _ _ _ | expr _ | ifElse _ _ _ | labeled _ _ | switch _ _ | breakTo _
    | continueTo _ | ret _ | raise _ | tryCatch _ _ _ | sync _ _ | unmodelled _ =>
        exact absurd hs (by simp [Stmt.isLoop])
  rw [hloop]
  apply execLoop_withLoopBody hs
  intro t ht
  have hmem := ht
  rw [hbodies] at hmem
  obtain rfl := List.mem_singleton.mp hmem
  exact hbody t ht

/-- Code in which no declaration is controlled does what its normal form does. -/
theorem exec_plain_normalize (s : Stmt) (hscopes : s.Every ScopesHere) :
    (plain E ρ).exec (normalize s) = (plain E ρ).exec s ∧
      ∀ t ∈ s.bodies, (plain E ρ).exec (asBlock (normalize t)) = (plain E ρ).exec t := by
  induction s using Stmt.childInduction with
  | step s ih =>
      have hchild : ∀ t ∈ s.children, (plain E ρ).exec (normalize t) = (plain E ρ).exec t :=
        fun t ht => (ih t ht (hscopes.child ht)).1
      have hlist : ∀ {stmts : List Stmt}, stmts ⊆ s.children →
          (plain E ρ).execAll (normalizeAll stmts) = (plain E ρ).execAll stmts := by
        intro stmts hstmts
        rw [normalizeAll_eq]
        exact execAll_map_congr fun t ht => hchild t (hstmts ht)
      -- a controlled statement declares nothing, so it may stand in a block
      have hbody : ∀ t ∈ s.bodies,
          (plain E ρ).exec (asBlock (normalize t)) = (plain E ρ).exec t := by
        intro t ht
        have hmem := s.bodies_subset ht
        have hpasses := (passes_exec_plain hE hret t (hscopes.child hmem)).1 (hscopes.here t ht)
        rw [← hchild t hmem] at hpasses
        rw [exec_asBlock hpasses, hchild t hmem]
      refine ⟨?_, hbody⟩
      cases s with
      | block stmts =>
          show (plain E ρ).exec (.block (normalizeAll stmts)) = _
          rw [exec_plain_block, exec_plain_block]
          exact execBlock_congr (.of_eq (hlist fun t ht => ht))
      | ifElse cond ifTrue ifFalse =>
          have helse : execElse (plain E ρ) (normalizeElse ifFalse) =
              execElse (plain E ρ) ifFalse := by
            cases ifFalse with
            | none => rfl
            | some t =>
                have ht : t ∈ (Stmt.ifElse cond ifTrue (some t)).bodies :=
                  List.mem_cons_of_mem _ (List.mem_singleton_self t)
                show (plain E ρ).exec (if chainsElse t then normalize t
                  else asBlock (normalize t)) = (plain E ρ).exec t
                split
                · exact hchild t (Stmt.bodies_subset _ ht)
                · exact hbody t ht
          exact exec_plain_ifElse_congr cond (hbody ifTrue List.mem_cons_self) helse
      | whileLoop _ _ | doWhile _ _ | forLoop _ _ _ _ | forEach _ _ _ _ =>
          rw [exec_plain_loop (isLoop_normalize _), exec_plain_loop rfl]
          exact execLoop_normalize rfl hbody none
      | labeled label body =>
          have hmem := List.mem_singleton_self body
          show (plain E ρ).exec (.labeled label (if keepsLabel body then normalize body
            else asBlock (normalize body))) = _
          by_cases hkeeps : keepsLabel body = true
          · rw [if_pos hkeeps]
            exact exec_plain_labeled_congr label (isLoop_normalize body)
              (fun hloop => execLoop_normalize hloop (ih body hmem (hscopes.child hmem)).2 (some label))
              (hchild body hmem)
          · have hother : body.isLoop = false := by
              cases body <;> first | rfl | exact absurd rfl hkeeps
            rcases asBlock_eq (normalize body) with ⟨stmts, hblock⟩
            have hsame := hbody body hmem
            rw [if_neg hkeeps]
            rw [hblock] at hsame ⊢
            exact exec_plain_labeled_congr label hother.symm
              (fun hloop => nomatch hother.symm.trans hloop) hsame
      | switch selector cases =>
          rw [exec_plain, exec_plain]
          show execSwitch _ selector (normalizeCases cases) = execSwitch _ selector cases
          apply execSwitch_congr rfl
          rw [normalizeCases_eq, List.forall₂_map_left_iff]
          refine List.forall₂_same.mpr fun c hc => ⟨rfl, .of_eq (hlist fun t ht => ?_)⟩
          exact List.mem_flatMap.mpr ⟨c, hc, ht⟩
      | tryCatch body catches cleanup =>
          apply exec_plain_tryCatch_congr
          · exact .of_eq (hlist fun t ht => List.mem_append_left _ (List.mem_append_left _ ht))
          · rw [normalizeCatches_eq, List.forall₂_map_left_iff]
            refine List.forall₂_same.mpr fun c hc => ⟨rfl, rfl, .of_eq (hlist fun t ht => ?_)⟩
            exact List.mem_append_left _ (List.mem_append_right _ (List.mem_flatMap.mpr ⟨c, hc, ht⟩))
          · cases cleanup with
            | none => rfl
            | some stmts =>
                refine congrArg some (execBlock_congr (.of_eq (hlist fun t ht => ?_)))
                exact List.mem_append_right _ ht
      | sync lock body =>
          exact exec_plain_sync_congr lock (.of_eq (hlist fun t ht => ht))
      | decl _ _ _ | expr _ | breakTo _ | continueTo _ | ret _ | raise _ | unmodelled _ => rfl

theorem execAll_plain_normalize {stmts : List Stmt} (hscopes : Stmt.EveryIn ScopesHere stmts) :
    (plain E ρ).execAll (normalizeAll stmts) = (plain E ρ).execAll stmts := by
  rw [normalizeAll_eq]
  exact execAll_map_congr fun s hs => (exec_plain_normalize hE hret s (hscopes s hs)).1

end

end Eval
end TraceWeaving
