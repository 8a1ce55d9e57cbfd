import TraceWeaving.Proofs.Eval.Ends
import TraceWeaving.Proofs.Weave.Placing

/-!
# Woven value changes are traced ones

Executing a body into which reports of value changes are woven is tracing the body itself.
The proof follows the placing of reports: lists are placed from the inside out, so a
statement is compared when everything nested in it has its reports already.
-/

namespace TraceWeaving
namespace Eval

open Code
open Weave

/-! ## Loops -/

section

variable (hooks : Hooks) (id : String)

def placeLoop (label : Option String) : Stmt → Naming Placed
  | .doWhile body cond => do
      return .alone (← placeDoWhile hooks id body cond label)
  | s => place hooks id s

theorem place_of_isLoop {s : Stmt} (hs : s.isLoop = true) (n : Nat) :
    place hooks id s n = placeLoop hooks id none s n := by
  cases s with
  | whileLoop _ _ | doWhile _ _ | forLoop _ _ _ _ | forEach _ _ _ _ => rfl
  | block _ | decl _ _ _ | expr _ | ifElse _ _ _ | labeled _ _ | switch _ _ | breakTo _
  | continueTo _ | ret _ | raise _ | tryCatch _ _ _ | sync _ _ | unmodelled _ =>
      exact absurd hs (by simp [Stmt.isLoop])

theorem place_labeled_loop (label : String) {s : Stmt} (hs : s.isLoop = true) (n : Nat) :
    (place hooks id (.labeled label s) n).1 =
      { (placeLoop hooks id (some label) s n).1 with
        stmt := .labeled label (placeLoop hooks id (some label) s n).1.stmt } := by
  cases s with
  | whileLoop _ _ | doWhile _ _ | forLoop _ _ _ _ | forEach _ _ _ _ => rfl
  | block _ | decl _ _ _ | expr _ | ifElse _ _ _ | labeled _ _ | switch _ _ | breakTo _
  | continueTo _ | ret _ | raise _ | tryCatch _ _ _ | sync _ _ | unmodelled _ =>
      exact absurd hs (by simp [Stmt.isLoop])

theorem isLoop_placeLoop (label : Option String) {s : Stmt} (hs : s.isLoop = true) (n : Nat) :
    (placeLoop hooks id label s n).1.stmt.isLoop = true := by
  cases s with
  | whileLoop cond body =>
      show (placeWhile hooks id cond body).isLoop = true
      unfold placeWhile
      simp only
      split <;> rfl
  | doWhile body cond =>
      show (placeDoWhile hooks id body cond label n).1.isLoop = true
      cases hw : (writesIn cond).isEmpty with
      | true =>
          rw [placeDoWhile_of_isEmpty hw]
          rfl
      | false =>
          rw [placeDoWhile_of_writes hw]
          rfl
  | forLoop init cond update body =>
      show (placeFor hooks id init cond update body).stmt.isLoop = true
      rw [placeFor_eq]
      cases init <;> rfl
  | forEach _ _ _ _ => rfl
  | block _ | decl _ _ _ | expr _ | ifElse _ _ _ | labeled _ _ | switch _ _ | breakTo _
  | continueTo _ | ret _ | raise _ | tryCatch _ _ _ | sync _ _ | unmodelled _ =>
      exact absurd hs (by simp [Stmt.isLoop])

end

/-! ## What is placed around a statement -/

def Starts (r : Evaluator) (stmts : List Stmt) : Prop :=
  ∃ start : Action Unit, r.execAll stmts = start >>= fun _ => Pure.pure .normal

theorem Starts.nil (r : Evaluator) : Starts r [] :=
  ⟨Pure.pure (), rfl⟩

theorem inScope_bind_pure {α β : Type} (x : Action α) (g : α → β) :
    Action.inScope (x >>= fun a => Pure.pure (g a)) =
      Action.inScope x >>= fun a => Pure.pure (g a) := by
  funext s
  show (Action.bind x _ s.pushScope).mapState State.popScope = Action.bind (Action.inScope x) _ s
  unfold Action.bind Action.inScope
  cases x s.pushScope <;> rfl

theorem around_bind_pure {r : Evaluator} {before : List Stmt} (hbefore : Starts r before)
    (x : Action Flow) (g : Flow → Flow) :
    around r before (x >>= fun flow => Pure.pure (g flow)) =
      around r before x >>= fun flow => Pure.pure (g flow) := by
  rcases hbefore with ⟨start, hstart⟩
  unfold around
  split
  · rfl
  · rw [hstart, bind_assoc, bind_assoc]
    simp only [pure_bind, ifNormal]
    rw [← inScope_bind_pure, bind_assoc]

/-- Executing what is placed for a statement is tracing the statement. -/
structure PlacedWell (hooks : Hooks) (id : String) (E : Evaluator)
    (returnBy : Expr → Action Value) (placed : Placed) (s : Stmt) : Prop where
  isLoop : placed.stmt.isLoop = s.isLoop
  before : Starts (plain E returnBy) placed.before
  core : around (plain E returnBy) placed.before ((plain E returnBy).exec placed.stmt) =
    tracedCore (tracer E id returnBy) (.reporting E id) returnBy s
  after : placed.after = reports hooks id (endWrites s)
  apart : placed.before.isEmpty = true ∨ endWrites s = []
  passes : chainsElse s = true → PassesFrom 0 ((plain E returnBy).exec placed.stmt)

section

variable {hooks : Hooks} {id : String} {E : Evaluator} {returnBy : Expr → Action Value}

theorem PlacedWell.exec_alone {s t : Stmt} (h : PlacedWell hooks id E returnBy (.alone t) s)
    (hs : endWrites s = []) : (plain E returnBy).exec t = (tracer E id returnBy).exec s := by
  rw [exec_tracer]
  unfold tracedStep
  rw [hs, reportAfter_nil]
  exact h.core

variable (hE : Reporting hooks id E)

include hE

theorem PlacedWell.execAll {placed : Placed} {s : Stmt}
    (h : PlacedWell hooks id E returnBy placed s) :
    (plain E returnBy).execAll placed.stmts = (tracer E id returnBy).exec s := by
  have hreports := hE.execAll_reports returnBy (endWrites s)
  have hcore := h.core
  rw [exec_tracer]
  unfold tracedStep reportAfter
  rw [← hcore]
  unfold Placed.stmts around
  split
  · rw [Evaluator.execAll_cons, h.after, hreports]
    rfl
  · rename_i hbefore
    -- behind a start in a block of its own there are no reports
    have hend : endWrites s = [] := by
      rcases h.apart with h | h
      · exact absurd h hbefore
      · exact h
    have hafter : placed.after = [] := by
      rw [h.after, hend]
      rfl
    rw [hafter, hend, Evaluator.execAll_singleton, exec_plain_block]
    unfold Evaluator.execBlock
    rw [Evaluator.execAll_append, Evaluator.execAll_singleton]
    exact (reportAfter_nil E id _).symm

/-! ## Lists -/

/-- The reports of everything nested in the statement are in place when it is placed
itself, with whatever number comes next. -/
def Places (hooks : Hooks) (id : String) (E : Evaluator) (returnBy : Expr → Action Value)
    (s : Stmt) : Prop :=
  ∀ n k, (Stmt.transformNested (placeInList hooks id) s n).2 ≤ k →
    PlacedWell hooks id E returnBy
      (place hooks id (Stmt.transformNested (placeInList hooks id) s n).1 k).1 s

theorem execAll_placeInList {stmts : List Stmt} (h : ∀ s ∈ stmts, Places hooks id E returnBy s)
    (n k : Nat) (hk : (Stmt.transformNestedInAll (placeInList hooks id) stmts n).2 ≤ k) :
    (plain E returnBy).execAll
        (placeInList hooks id (Stmt.transformNestedInAll (placeInList hooks id) stmts n).1 k).1 =
      (tracer E id returnBy).execAll stmts := by
  induction stmts generalizing n k with
  | nil => rfl
  | cons s rest ih =>
      let s' := (Stmt.transformNested (placeInList hooks id) s n).1
      let n' := (Stmt.transformNested (placeInList hooks id) s n).2
      let rest' := (Stmt.transformNestedInAll (placeInList hooks id) rest n').1
      have hrest : n' ≤ (Stmt.transformNestedInAll (placeInList hooks id) rest n').2 :=
        (mem_transformNestedInAll rest (fun t _ k =>
          (transformNested_source le_placeInList t k).1) n').1
      have hs := h s List.mem_cons_self n k (Nat.le_trans hrest hk)
      have hnext : k ≤ (place hooks id s' k).2 := le_place s' k
      have ih' := ih (fun t ht => h t (List.mem_cons_of_mem s ht)) n' (place hooks id s' k).2
        (Nat.le_trans hk hnext)
      have hlist : (placeInList hooks id (s' :: rest') k).1 =
          (place hooks id s' k).1.stmts ++
            (placeInList hooks id rest' (place hooks id s' k).2).1 := by
        unfold placeInList
        rw [List.mapM_cons]
        rfl
      show (plain E returnBy).execAll (placeInList hooks id (s' :: rest') k).1 = _
      rw [hlist, Evaluator.execAll_append, hs.execAll hE, ih', Evaluator.execAll_cons]

theorem execAll_reportChanges_of {stmts : List Stmt}
    (h : ∀ s ∈ stmts, Places hooks id E returnBy s) (n : Nat) :
    (plain E returnBy).execAll (reportChanges hooks id stmts n).1 =
      (tracer E id returnBy).execAll stmts :=
  execAll_placeInList hE h n _ (Nat.le_refl _)

theorem casesAgree_placed {cases : List SwitchCase}
    (h : ∀ c ∈ cases, ∀ s ∈ c.body, Places hooks id E returnBy s) (n : Nat) :
    List.Forall₂ (CasesAgree (plain E returnBy) (tracer E id returnBy))
      (Stmt.transformCases (placeInList hooks id) cases n).1 cases := by
  induction cases generalizing n with
  | nil => exact .nil
  | cons c rest ih =>
      cases c with
      | mk labels body =>
          apply List.Forall₂.cons
          · exact ⟨rfl, .of_eq (execAll_reportChanges_of hE (h _ List.mem_cons_self) n)⟩
          · exact ih (fun c hc => h c (List.mem_cons_of_mem _ hc)) _

theorem catchesAgree_placed {catches : List CatchClause}
    (h : ∀ c ∈ catches, ∀ s ∈ c.body, Places hooks id E returnBy s) (n : Nat) :
    List.Forall₂ (CatchesAgree (plain E returnBy) (tracer E id returnBy))
      (Stmt.transformCatches (placeInList hooks id) catches n).1 catches := by
  induction catches generalizing n with
  | nil => exact .nil
  | cons c rest ih =>
      cases c with
      | mk type ident body =>
          apply List.Forall₂.cons
          · exact ⟨rfl, rfl, .of_eq (execAll_reportChanges_of hE (h _ List.mem_cons_self) n)⟩
          · exact ih (fun c hc => h c (List.mem_cons_of_mem _ hc)) _

theorem execBlock_placed {stmts : List Stmt} (h : ∀ s ∈ stmts, Places hooks id E returnBy s)
    (n : Nat) :
    (plain E returnBy).execBlock (reportChanges hooks id stmts n).1 =
      (tracer E id returnBy).execBlock stmts :=
  execBlock_congr (.of_eq (execAll_reportChanges_of hE h n))

theorem cleanup_placed {cleanup : Option (List Stmt)}
    (h : ∀ stmts ∈ cleanup, ∀ s ∈ stmts, Places hooks id E returnBy s) (n : Nat) :
    (Stmt.transformCleanup (placeInList hooks id) cleanup n).1.map (plain E returnBy).execBlock =
      cleanup.map (tracer E id returnBy).execBlock := by
  cases cleanup with
  | none => rfl
  | some stmts => exact congrArg some (execBlock_placed hE (h stmts rfl) n)

/-! ## Controlled statements -/

omit hE in
theorem Places.exec_block {s : Stmt} (h : Places hooks id E returnBy s)
    (hs : s.isBlock = true) (n : Nat) :
    (plain E returnBy).exec (Stmt.transformNested (placeInList hooks id) s n).1 =
      (tracer E id returnBy).exec s := by
  cases s with
  | block stmts => exact (h n _ (Nat.le_refl _)).exec_alone rfl
  | decl _ _ _ | expr _ | ifElse _ _ _ | whileLoop _ _ | doWhile _ _ | forLoop _ _ _ _
  | forEach _ _ _ _ | labeled _ _ | switch _ _ | breakTo _ | continueTo _ | ret _ | raise _
  | tryCatch _ _ _ | sync _ _ | unmodelled _ => exact absurd hs (by simp [Stmt.isBlock])

omit hE in
theorem isBlock_transformNested (f : List Stmt → Naming (List Stmt)) (s : Stmt) (n : Nat) :
    (Stmt.transformNested f s n).1.isBlock = s.isBlock := by
  rw [← isBlock_head, head_transformNested, isBlock_head]

variable (hret : ∀ e, PassesFrom 0 (returnBy e))

include hret

theorem around_placeLoop {s : Stmt} (hs : s.isLoop = true) (htidy : s.Every Tidy)
    (hbody : ∀ t ∈ s.children, Places hooks id E returnBy t) (label : Option String)
    (hl : ∀ l ∈ label, isReserved l = false ∧ Unlabeled l s) (n k : Nat)
    (hk : (Stmt.transformNested (placeInList hooks id) s n).2 ≤ k) :
    around (plain E returnBy)
        (placeLoop hooks id label (Stmt.transformNested (placeInList hooks id) s n).1 k).1.before
        (execLoop (plain E returnBy) label
          (placeLoop hooks id label (Stmt.transformNested (placeInList hooks id) s n).1 k).1.stmt) =
      tracedLoop (tracer E id returnBy) (.reporting E id) label s := by
  have hblock : ∀ {t : Stmt}, t ∈ s.children → t.isBlock = true → ∀ n,
      (Stmt.transformNested (placeInList hooks id) t n).1.isBlock = true ∧
        (plain E returnBy).exec (Stmt.transformNested (placeInList hooks id) t n).1 =
          (tracer E id returnBy).exec t := by
    intro t ht hb n
    exact ⟨(isBlock_transformNested _ t n).trans hb, (hbody t ht).exec_block hb n⟩
  have hR := traces_tracedRules E id returnBy
  cases s with
  | whileLoop cond body =>
      have h := hblock (List.mem_singleton_self body) htidy.here.1 n
      exact hE.execLoop_placeWhile hret hR label h.1 h.2 cond
  | doWhile body cond =>
      have h := hblock (List.mem_singleton_self body) htidy.here.1 n
      have hclear := placeNested_clearOf hooks id (htidy.child (List.mem_singleton_self body))
        (fun l hm => ⟨(hl l hm).1, (hl l hm).2.child (List.mem_singleton_self body)⟩) hk
      exact hE.execLoop_placeDoWhile hret hR label h.1 h.2 cond hclear
  | forLoop init cond update body =>
      have h := hblock (List.mem_singleton_self body) htidy.here.1 n
      exact hE.execLoop_placeFor hret hR label h.1 h.2 init cond update
  | forEach type ident items body =>
      have h := hblock (List.mem_singleton_self body) htidy.here.1 n
      exact hE.execLoop_forEach hret hR label h.1 h.2 type ident items
  | block _ | decl _ _ _ | expr _ | ifElse _ _ _ | labeled _ _ | switch _ _ | breakTo _
  | continueTo _ | ret _ | raise _ | tryCatch _ _ _ | sync _ _ | unmodelled _ =>
      exact absurd hs (by simp [Stmt.isLoop])

/-! ## Statements -/

omit hE hret in
theorem PlacedWell.alone {s t : Stmt} (hloop : t.isLoop = s.isLoop) (hends : endWrites s = [])
    (hchain : chainsElse s = false)
    (hcore : (plain E returnBy).exec t =
      tracedCore (tracer E id returnBy) (.reporting E id) returnBy s) :
    PlacedWell hooks id E returnBy (.alone t) s where
  isLoop := hloop
  before := .nil _
  core := hcore
  after := by
    rw [hends]
    rfl
  apart := .inl rfl
  passes h := absurd h (by simp [hchain])

omit hE hret in
theorem PlacedWell.followedBy {s t : Stmt} (hloop : t.isLoop = s.isLoop)
    (hchain : chainsElse s = false)
    (hcore : (plain E returnBy).exec t =
      tracedCore (tracer E id returnBy) (.reporting E id) returnBy s) :
    PlacedWell hooks id E returnBy (.followedBy t (reports hooks id (endWrites s))) s where
  isLoop := hloop
  before := .nil _
  core := hcore
  after := rfl
  apart := .inl rfl
  passes h := absurd h (by simp [hchain])

omit hE hret in
theorem exec_eq_tracedCore {s : Stmt} (hplain : ∀ r, plainStep r returnBy s = execStep r s)
    (htraced : ∀ r, tracedCore r (.reporting E id) returnBy s = execStep r s)
    (h : ∀ r r' : Evaluator, r.eval = r'.eval → execStep r s = execStep r' s) :
    (plain E returnBy).exec s = tracedCore (tracer E id returnBy) (.reporting E id) returnBy s := by
  rw [exec_plain, hplain, htraced]
  exact h _ _ ((eval_plain E returnBy).trans (eval_tracer E id returnBy).symm)

def execElse (r : Evaluator) : Option Stmt → Action Flow
  | some s => r.exec s
  | none => Pure.pure .normal

omit hE hret in
theorem exec_plain_ifElse (cond : Expr) (ifTrue : Stmt) (ifFalse : Option Stmt) :
    (plain E returnBy).exec (.ifElse cond ifTrue ifFalse) =
      E.evalBool cond "if" >>= fun holds =>
        if holds then (plain E returnBy).exec ifTrue else execElse (plain E returnBy) ifFalse := by
  rw [exec_plain, ← evalBool_congr (eval_plain E returnBy)]
  cases ifFalse <;> rfl

omit hE hret in
theorem tracedCore_ifElse (cond : Expr) (ifTrue : Stmt) (ifFalse : Option Stmt) :
    tracedCore (tracer E id returnBy) (.reporting E id) returnBy (.ifElse cond ifTrue ifFalse) =
      tracedTest E (.reporting E id) "if" cond >>= fun holds =>
        if holds then (tracer E id returnBy).exec ifTrue
        else execElse (tracer E id returnBy) ifFalse := by
  rw [← tracedTest_congr (eval_tracer E id returnBy)]
  cases ifFalse <;> rfl

omit hE hret in
theorem passes_execElse {ifFalse : Option Stmt}
    (h : ∀ t ∈ ifFalse, PassesFrom 0 ((plain E returnBy).exec t)) :
    PassesFrom 0 (execElse (plain E returnBy) ifFalse) := by
  cases ifFalse with
  | none => exact (closed_passes 0).pure _
  | some t => exact h t rfl

theorem exec_placeIf (cond : Expr) {ifTrue : Stmt} {ifFalse : Option Stmt}
    (hblock : ifTrue.isBlock = true)
    (hpasses : ∀ t ∈ ifFalse, PassesFrom 0 ((plain E returnBy).exec t)) :
    (plain E returnBy).exec (placeIf hooks id cond ifTrue ifFalse) =
      tracedTest E (.reporting E id) "if" cond >>= fun holds =>
        if holds then (plain E returnBy).exec ifTrue
        else execElse (plain E returnBy) ifFalse := by
  have hpassTrue := hE.passes_exec_block hret hblock
  unfold placeIf
  simp only
  cases hw : (writesIn cond).isEmpty with
  | true =>
      have hfront : (reports hooks id (writesIn cond)).isEmpty = true := by
        rw [List.isEmpty_iff.mp hw]
        rfl
      rw [if_pos hfront, exec_plain_ifElse, tracedTest_of_isEmpty E id hw]
  | false =>
      have hfront : ¬ (reports hooks id (writesIn cond)).isEmpty = true := by
        unfold reports
        rw [List.isEmpty_map, hw]
        simp
      rw [if_neg hfront, exec_plain_ifElse]
      unfold tracedTest
      simp only [bind_assoc, pure_bind]
      congr 1
      funext holds
      cases holds with
      | true => exact hE.exec_prepend_reports (writesIn cond) hpassTrue
      | false =>
          cases ifFalse with
          | some t => exact hE.exec_prepend_reports (writesIn cond) (hpasses t rfl)
          | none =>
              show (plain E returnBy).exec (prepend _ (.block [])) = _
              rw [hE.exec_prepend_reports (writesIn cond) (hE.passes_exec_block hret rfl),
                exec_plain_block]
              rfl

theorem passes_placeIf (cond : Expr) {ifTrue : Stmt} {ifFalse : Option Stmt}
    (hblock : ifTrue.isBlock = true)
    (hpasses : ∀ t ∈ ifFalse, PassesFrom 0 ((plain E returnBy).exec t)) :
    PassesFrom 0 ((plain E returnBy).exec (placeIf hooks id cond ifTrue ifFalse)) := by
  rw [exec_placeIf hE hret cond hblock hpasses]
  apply (closed_passes 0).bind (x := fun _ => tracedTest E (.reporting E id) "if" cond)
    (f := fun _ holds => if holds then (plain E returnBy).exec ifTrue
      else execElse (plain E returnBy) ifFalse) (hE.passes_tracedTest "if" cond)
  intro holds
  cases holds with
  | true => exact hE.passes_exec_block hret hblock
  | false => exact passes_execElse hpasses

/-- The second branch with its reports in place: a block, or an `if` with a condition of
its own. -/
theorem placeElse_placed {ifFalse : Option Stmt}
    (hnormal : ∀ s ∈ ifFalse, chainsElse s = true ∨ s.isBlock = true)
    (h : ∀ s ∈ ifFalse, Places hooks id E returnBy s) (n k : Nat)
    (hk : (Stmt.transformNestedInElse (placeInList hooks id) ifFalse n).2 ≤ k) :
    (∀ t ∈ (placeElse hooks id (Stmt.transformNestedInElse (placeInList hooks id) ifFalse n).1 k).1,
      PassesFrom 0 ((plain E returnBy).exec t)) ∧
    execElse (plain E returnBy)
        (placeElse hooks id (Stmt.transformNestedInElse (placeInList hooks id) ifFalse n).1 k).1 =
      execElse (tracer E id returnBy) ifFalse := by
  cases ifFalse with
  | none =>
      constructor
      · intro t ht
        exact absurd ht (by intro h; cases h)
      · rfl
  | some s =>
      let s' := (Stmt.transformNested (placeInList hooks id) s n).1
      have hchain' : chainsElse s' = chainsElse s := by
        rw [← chainsElse_head, head_transformNested, chainsElse_head]
      have hplaced := h s rfl n k hk
      show (∀ t ∈ (placeElse hooks id (some s') k).1, PassesFrom 0 ((plain E returnBy).exec t)) ∧
        execElse _ (placeElse hooks id (some s') k).1 = _
      rw [placeElse_some, hchain']
      by_cases hchain : chainsElse s = true
      · rw [if_pos hchain]
        constructor
        · intro t ht
          obtain rfl := Option.some.inj ht
          exact hplaced.passes hchain
        · cases s with
          | ifElse cond ifTrue ifFalse => exact hplaced.exec_alone rfl
          | block _ | decl _ _ _ | expr _ | whileLoop _ _ | doWhile _ _ | forLoop _ _ _ _
          | forEach _ _ _ _ | labeled _ _ | switch _ _ | breakTo _ | continueTo _ | ret _
          | raise _ | tryCatch _ _ _ | sync _ _ | unmodelled _ =>
              exact absurd hchain (by simp [chainsElse])
      · rw [if_neg hchain]
        have hblock : s.isBlock = true := (hnormal s rfl).resolve_left hchain
        constructor
        · intro t ht
          obtain rfl := Option.some.inj ht
          exact hE.passes_exec_block hret ((isBlock_transformNested _ s n).trans hblock)
        · exact (h s rfl).exec_block hblock n

omit hret in
theorem starts_placeLoop (returnBy : Expr → Action Value) (label : Option String) {s : Stmt}
    (hs : s.isLoop = true) (n k : Nat) :
    Starts (plain E returnBy)
        (placeLoop hooks id label (Stmt.transformNested (placeInList hooks id) s n).1 k).1.before ∧
      (placeLoop hooks id label (Stmt.transformNested (placeInList hooks id) s n).1 k).1.after =
        reports hooks id (endWrites s) ∧
      ((placeLoop hooks id label
          (Stmt.transformNested (placeInList hooks id) s n).1 k).1.before.isEmpty = true ∨
        endWrites s = []) := by
  cases s with
  | whileLoop _ _ | doWhile _ _ | forEach _ _ _ _ => exact ⟨.nil _, rfl, .inl rfl⟩
  | forLoop init cond update body =>
      let body' := (Stmt.transformNested (placeInList hooks id) body n).1
      show Starts _ (placeFor hooks id init cond update body').before ∧
        (placeFor hooks id init cond update body').after = [] ∧
        ((placeFor hooks id init cond update body').before.isEmpty = true ∨ _)
      rw [placeFor_eq]
      cases init with
      | exprs es => exact ⟨.nil _, rfl, .inl rfl⟩
      | decl type ident init =>
          refine ⟨⟨execForInit E (.decl type ident init) >>= fun _ =>
            reportWrites E id (writesIn init ++ [Write.ofVariable ident]), ?_⟩, rfl, .inr rfl⟩
          rw [bind_assoc]
          exact hE.execAll_start type ident init
  | block _ | decl _ _ _ | expr _ | ifElse _ _ _ | labeled _ _ | switch _ _ | breakTo _
  | continueTo _ | ret _ | raise _ | tryCatch _ _ _ | sync _ _ | unmodelled _ =>
      exact absurd hs (by simp [Stmt.isLoop])

omit hE hret in
theorem isLoop_transformNested (f : List Stmt → Naming (List Stmt)) (s : Stmt) (n : Nat) :
    (Stmt.transformNested f s n).1.isLoop = s.isLoop := by
  rw [← isLoop_head, head_transformNested, isLoop_head]

omit hE hret in
theorem chainsElse_of_isLoop {s : Stmt} (hs : s.isLoop = true) : chainsElse s = false := by
  cases s with
  | ifElse _ _ _ => exact absurd hs (by simp [Stmt.isLoop])
  | block _ | decl _ _ _ | expr _ | whileLoop _ _ | doWhile _ _ | forLoop _ _ _ _
  | forEach _ _ _ _ | labeled _ _ | switch _ _ | breakTo _ | continueTo _ | ret _ | raise _
  | tryCatch _ _ _ | sync _ _ | unmodelled _ => rfl

omit hE hret in
theorem exec_plain_loop {s : Stmt} (hs : s.isLoop = true) :
    (plain E returnBy).exec s = execLoop (plain E returnBy) none s := by
  rw [exec_plain]
  cases s with
  | whileLoop _ _ | doWhile _ _ | forLoop _ _ _ _ | forEach _ _ _ _ => rfl
  | block _ | decl _ _ _ | expr _ | ifElse _ _ _ | labeled _ _ | switch _ _ | breakTo _
  | continueTo _ | ret _ | raise _ | tryCatch _ _ _ | sync _ _ | unmodelled _ =>
      exact absurd hs (by simp [Stmt.isLoop])

omit hE hret in
theorem tracedCore_loop (r : Evaluator) (watch : Watch) {s : Stmt} (hs : s.isLoop = true) :
    tracedCore r watch returnBy s = tracedLoop r watch none s := by
  cases s with
  | whileLoop _ _ | doWhile _ _ | forLoop _ _ _ _ | forEach _ _ _ _ => rfl
  | block _ | decl _ _ _ | expr _ | ifElse _ _ _ | labeled _ _ | switch _ _ | breakTo _
  | continueTo _ | ret _ | raise _ | tryCatch _ _ _ | sync _ _ | unmodelled _ =>
      exact absurd hs (by simp [Stmt.isLoop])

theorem places_loop {s : Stmt} (hs : s.isLoop = true) (htidy : s.Every Tidy)
    (hbody : ∀ t ∈ s.children, Places hooks id E returnBy t) : Places hooks id E returnBy s := by
  intro n k hk
  have hs' := (isLoop_transformNested (placeInList hooks id) s n).trans hs
  rw [place_of_isLoop hooks id hs']
  have hloop := isLoop_placeLoop hooks id none hs' k
  have hstarts := starts_placeLoop hE returnBy none hs n k
  exact
    { isLoop := hloop.trans hs.symm
      before := hstarts.1
      core := by
        rw [exec_plain_loop hloop, tracedCore_loop _ _ hs]
        exact around_placeLoop hE hret hs htidy hbody none (fun l hl => by cases hl) n k hk
      after := hstarts.2.1
      apart := hstarts.2.2
      passes := fun h => absurd h (by simp [chainsElse_of_isLoop hs]) }

theorem places_labeled_loop {label : String} {body : Stmt} (hb : body.isLoop = true)
    (htidy : (Stmt.labeled label body).Every Tidy)
    (hbody : ∀ t ∈ body.children, Places hooks id E returnBy t) :
    Places hooks id E returnBy (.labeled label body) := by
  intro n k hk
  have hb' := (isLoop_transformNested (placeInList hooks id) body n).trans hb
  have hloop := isLoop_placeLoop hooks id (some label) hb' k
  have hstarts := starts_placeLoop hE returnBy (some label) hb n k
  have hlabel : isReserved label = false ∧ Unlabeled label body := htidy.here.2
  show PlacedWell hooks id E returnBy (place hooks id (.labeled label _) k).1 _
  rw [place_labeled_loop hooks id label hb']
  exact
    { isLoop := rfl
      before := hstarts.1
      core := by
        have hexec : (plain E returnBy).exec (.labeled label (placeLoop hooks id (some label)
            (Stmt.transformNested (placeInList hooks id) body n).1 k).1.stmt) =
              execLoop (plain E returnBy) (some label) (placeLoop hooks id (some label)
                (Stmt.transformNested (placeInList hooks id) body n).1 k).1.stmt := by
          rw [exec_plain]
          exact if_pos hloop
        have hcore :
            tracedCore (tracer E id returnBy) (.reporting E id) returnBy (.labeled label body) =
              tracedLoop (tracer E id returnBy) (.reporting E id) (some label) body := if_pos hb
        rw [hexec, hcore]
        apply around_placeLoop hE hret hb (htidy.child (List.mem_singleton_self body)) hbody _ _ n k
          hk
        intro l hl
        obtain rfl := Option.some.inj hl
        exact hlabel
      after := hstarts.2.1
      apart := hstarts.2.2
      passes := fun h => absurd h (by simp [chainsElse]) }

omit hE hret in
theorem places_labeled {label : String} {body : Stmt} (hb : body.isLoop = false)
    (h : Places hooks id E returnBy body) : Places hooks id E returnBy (.labeled label body) := by
  intro n k hk
  let body' := (Stmt.transformNested (placeInList hooks id) body n).1
  have hb' : body'.isLoop = false := (isLoop_transformNested _ body n).trans hb
  have hplaced := h n k hk
  have hstmt : (place hooks id body' k).1.stmt.isLoop = false := hplaced.isLoop.trans hb
  show PlacedWell hooks id E returnBy (place hooks id (.labeled label body') k).1 _
  rw [place_labeled]
  · exact
      { isLoop := rfl
        before := hplaced.before
        core := by
          have hexec : (plain E returnBy).exec (.labeled label (place hooks id body' k).1.stmt) =
              (plain E returnBy).exec (place hooks id body' k).1.stmt >>= fun flow =>
                Pure.pure (flow.leaveLabel label) := by
            rw [exec_plain]
            exact execLabeled_eq _ label hstmt
          have hcore :
              tracedCore (tracer E id returnBy) (.reporting E id) returnBy (.labeled label body) =
                tracedCore (tracer E id returnBy) (.reporting E id) returnBy body >>= fun flow =>
                  Pure.pure (flow.leaveLabel label) := by
            simp only [tracedCore, hb]
            rfl
          rw [hexec, hcore, around_bind_pure hplaced.before, hplaced.core]
        after := hplaced.after
        apart := hplaced.apart
        passes := fun h => absurd h (by simp [chainsElse]) }
  · intro inner cond hdo
    rw [hdo] at hb'
    exact absurd hb' (by simp [Stmt.isLoop])

theorem places_ifElse {cond : Expr} {ifTrue : Stmt} {ifFalse : Option Stmt}
    (hnormal : NormalHere (.ifElse cond ifTrue ifFalse))
    (htrue : Places hooks id E returnBy ifTrue)
    (hfalse : ∀ s ∈ ifFalse, Places hooks id E returnBy s) :
    Places hooks id E returnBy (.ifElse cond ifTrue ifFalse) := by
  intro n k hk
  let ifTrue' := (Stmt.transformNested (placeInList hooks id) ifTrue n).1
  let n' := (Stmt.transformNested (placeInList hooks id) ifTrue n).2
  have hblock : ifTrue'.isBlock = true := (isBlock_transformNested _ ifTrue n).trans hnormal.1
  have helse := placeElse_placed hE hret hnormal.2 hfalse n' k hk
  show PlacedWell hooks id E returnBy (.alone (placeIf hooks id cond ifTrue' (placeElse hooks id
    (Stmt.transformNestedInElse (placeInList hooks id) ifFalse n').1 k).1)) _
  exact
    { isLoop := by
        unfold placeIf
        simp only [Placed.alone]
        split <;> rfl
      before := .nil _
      core := by
        show (plain E returnBy).exec (placeIf hooks id cond ifTrue' _) = _
        rw [exec_placeIf hE hret cond hblock helse.1, tracedCore_ifElse, helse.2,
          htrue.exec_block hnormal.1]
      after := rfl
      apart := .inl rfl
      passes := fun _ => passes_placeIf hE hret cond hblock helse.1 }

/-- Reports are in place in every statement of tidy code.  A label asks for the body of the
loop that it stands on, so the children are part of the induction. -/
theorem places_of_tidy (s : Stmt) (htidy : s.Every Tidy) :
    Places hooks id E returnBy s ∧ ∀ t ∈ s.children, Places hooks id E returnBy t := by
  induction s using Stmt.childInduction with
  | step s ih =>
      have hchild : ∀ t ∈ s.children, Places hooks id E returnBy t :=
        fun t ht => (ih t ht (htidy.child ht)).1
      refine ⟨?_, hchild⟩
      cases s with
      | block stmts =>
          intro n k hk
          refine PlacedWell.alone rfl rfl rfl ?_
          show (plain E returnBy).exec (.block (reportChanges hooks id stmts n).1) = _
          rw [exec_plain_block]
          exact execBlock_placed hE hchild n
      | decl type ident init =>
          intro n k hk
          cases init with
          | none =>
              refine PlacedWell.alone rfl rfl rfl ?_
              rw [exec_plain]
              rfl
          | some init =>
              refine PlacedWell.followedBy rfl rfl ?_
              refine exec_eq_tracedCore (fun _ => rfl) (fun _ => rfl) fun r r' hr => ?_
              show r.eval init >>= _ = r'.eval init >>= _
              rw [hr]
      | expr e =>
          intro n k hk
          refine PlacedWell.followedBy rfl rfl ?_
          refine exec_eq_tracedCore (fun _ => rfl) (fun _ => rfl) fun r r' hr => ?_
          show r.eval e >>= _ = r'.eval e >>= _
          rw [hr]
      | ifElse cond ifTrue ifFalse =>
          apply places_ifElse hE hret htidy.here.1 (hchild ifTrue List.mem_cons_self)
          intro s hs
          exact hchild s (List.mem_cons_of_mem _ (Option.mem_toList.mpr hs))
      | whileLoop _ _ | doWhile _ _ | forLoop _ _ _ _ | forEach _ _ _ _ =>
          exact places_loop hE hret rfl htidy hchild
      | labeled label body =>
          have hbody := List.mem_singleton_self body
          by_cases hb : body.isLoop = true
          · exact places_labeled_loop hE hret hb htidy (ih body hbody (htidy.child hbody)).2
          · exact places_labeled (by simpa using hb) (hchild body hbody)
      | switch selector cases =>
          intro n k hk
          refine PlacedWell.followedBy (s := .switch selector cases) rfl rfl ?_
          rw [exec_plain]
          apply execSwitch_congr ((eval_plain E returnBy).trans (eval_tracer E id returnBy).symm)
          apply casesAgree_placed hE
          intro c hc s hs
          exact hchild s (List.mem_flatMap.mpr ⟨c, hc, hs⟩)
      | breakTo label | continueTo label | unmodelled text =>
          intro n k hk
          refine PlacedWell.alone rfl rfl rfl ?_
          rw [exec_plain]
          rfl
      | ret value =>
          intro n k hk
          cases value with
          | none | some _ =>
              refine PlacedWell.alone rfl rfl rfl ?_
              rw [exec_plain]
              rfl
      | raise value =>
          intro n k hk
          refine PlacedWell.alone rfl rfl rfl ?_
          refine exec_eq_tracedCore (fun _ => rfl) (fun _ => rfl) fun r r' hr => ?_
          show r.eval value >>= _ = r'.eval value >>= _
          rw [hr]
      | tryCatch body catches cleanup =>
          intro n k hk
          refine PlacedWell.alone rfl rfl rfl ?_
          rw [exec_plain]
          apply execTry_congr
          · apply execBlock_placed hE
            intro s hs
            exact hchild s (List.mem_append_left _ (List.mem_append_left _ hs))
          · apply catchesAgree_placed hE
            intro c hc s hs
            exact hchild s (List.mem_append_left _ (List.mem_append_right _
              (List.mem_flatMap.mpr ⟨c, hc, hs⟩)))
          · apply cleanup_placed hE
            intro stmts hstmts s hs
            obtain rfl := Option.mem_def.mp hstmts
            exact hchild s (List.mem_append_right _ hs)
      | sync lock body =>
          intro n k hk
          refine PlacedWell.alone rfl rfl rfl ?_
          rw [exec_plain]
          show (plain E returnBy).eval lock >>= (fun _ => (plain E returnBy).execBlock _) =
            (tracer E id returnBy).eval lock >>= fun _ => _
          rw [eval_plain, eval_tracer, hE.execBlock_front]
          congr 1
          funext _
          congr 1
          funext _
          exact execBlock_placed hE hchild n

/-- Executing a body with reports of value changes is tracing the body. -/
theorem execAll_reportChanges {body : List Stmt} (htidy : Stmt.EveryIn Tidy body) (n : Nat) :
    (plain E returnBy).execAll (reportChanges hooks id body n).1 =
      (tracer E id returnBy).execAll body :=
  execAll_reportChanges_of hE (fun s hs => (places_of_tidy hE hret s (htidy s hs)).1) n

end

end Eval
end TraceWeaving
