import TraceWeaving.Weave.Unit
import TraceWeaving.Proofs.Code.Nodes

/-!
# Going through woven code

The passes go through the statements of a body.  For each of them this module says once
where the statements inside a result come from; a condition on statements then holds of
the result as soon as it holds of what the pass makes of each single statement.

Fresh names are numbered.  The numbers that were handed out inside a statement are
smaller than those that come after it.
-/

namespace TraceWeaving
namespace Weave

open Code

/-! ## Going through the lists of a body -/

section

variable {f : List Stmt → Naming (List Stmt)}

theorem mem_transformNestedInAll (stmts : List Stmt)
    (hmono : ∀ s ∈ stmts, ∀ n, n ≤ (Stmt.transformNested f s n).2) (n : Nat) :
    n ≤ (Stmt.transformNestedInAll f stmts n).2 ∧
      ∀ t ∈ (Stmt.transformNestedInAll f stmts n).1, ∃ s ∈ stmts, ∃ k,
        (Stmt.transformNested f s k).2 ≤ (Stmt.transformNestedInAll f stmts n).2 ∧
          t = (Stmt.transformNested f s k).1 := by
  induction stmts generalizing n with
  | nil => exact ⟨Nat.le_refl n, fun t ht => absurd ht List.not_mem_nil⟩
  | cons s rest ih =>
      have hs := hmono s List.mem_cons_self n
      have hrest := ih (fun s' hs' => hmono s' (List.mem_cons_of_mem s hs'))
        (Stmt.transformNested f s n).2
      refine ⟨Nat.le_trans hs hrest.1, fun t ht => ?_⟩
      rcases List.mem_cons.mp ht with rfl | ht
      · exact ⟨s, List.mem_cons_self, n, hrest.1, rfl⟩
      · rcases hrest.2 t ht with ⟨s', hs', k, hk, rfl⟩
        exact ⟨s', List.mem_cons_of_mem s hs', k, hk, rfl⟩

/-- Where a statement inside a result comes from: from a statement that does not stand in
a list, or from a list. -/
inductive Source (f : List Stmt → Naming (List Stmt)) (s : Stmt) (bound : Nat) (t : Stmt) : Prop
  | body {c : Stmt} {k : Nat} : c ∈ s.bodies → (Stmt.transformNested f c k).2 ≤ bound →
      t = (Stmt.transformNested f c k).1 → Source f s bound t
  | list {stmts : List Stmt} {k : Nat} : stmts ⊆ s.children →
      (transformLists f stmts k).2 ≤ bound → t ∈ (transformLists f stmts k).1 →
      Source f s bound t

variable (hf : ∀ stmts n, n ≤ (f stmts n).2)

include hf

theorem le_transformLists {stmts : List Stmt}
    (hmono : ∀ s ∈ stmts, ∀ n, n ≤ (Stmt.transformNested f s n).2) (n : Nat) :
    n ≤ (transformLists f stmts n).2 :=
  Nat.le_trans (mem_transformNestedInAll stmts hmono n).1 (hf _ _)

theorem mem_transformCases (cases : List SwitchCase)
    (hmono : ∀ c ∈ cases, ∀ s ∈ c.body, ∀ n, n ≤ (Stmt.transformNested f s n).2) (n : Nat) :
    n ≤ (Stmt.transformCases f cases n).2 ∧
      ∀ c' ∈ (Stmt.transformCases f cases n).1, ∃ c ∈ cases, ∃ k,
        (transformLists f c.body k).2 ≤ (Stmt.transformCases f cases n).2 ∧
          c'.body = (transformLists f c.body k).1 := by
  induction cases generalizing n with
  | nil => exact ⟨Nat.le_refl n, fun c hc => absurd hc List.not_mem_nil⟩
  | cons c rest ih =>
      cases c with
      | mk labels body =>
          have hbody := le_transformLists hf (hmono (.mk labels body) List.mem_cons_self) n
          have hrest := ih (fun c' hc' => hmono c' (List.mem_cons_of_mem _ hc'))
            (transformLists f body n).2
          refine ⟨Nat.le_trans hbody hrest.1, fun c' hc' => ?_⟩
          rcases List.mem_cons.mp hc' with rfl | hc'
          · exact ⟨.mk labels body, List.mem_cons_self, n, hrest.1, rfl⟩
          · rcases hrest.2 c' hc' with ⟨c, hc, k, hk, hbody⟩
            exact ⟨c, List.mem_cons_of_mem _ hc, k, hk, hbody⟩

theorem mem_transformCatches (catches : List CatchClause)
    (hmono : ∀ c ∈ catches, ∀ s ∈ c.body, ∀ n, n ≤ (Stmt.transformNested f s n).2) (n : Nat) :
    n ≤ (Stmt.transformCatches f catches n).2 ∧
      ∀ c' ∈ (Stmt.transformCatches f catches n).1, ∃ c ∈ catches, ∃ k,
        (transformLists f c.body k).2 ≤ (Stmt.transformCatches f catches n).2 ∧
          c'.body = (transformLists f c.body k).1 := by
  induction catches generalizing n with
  | nil => exact ⟨Nat.le_refl n, fun c hc => absurd hc List.not_mem_nil⟩
  | cons c rest ih =>
      cases c with
      | mk type ident body =>
          have hbody := le_transformLists hf (hmono (.mk type ident body) List.mem_cons_self) n
          have hrest := ih (fun c' hc' => hmono c' (List.mem_cons_of_mem _ hc'))
            (transformLists f body n).2
          refine ⟨Nat.le_trans hbody hrest.1, fun c' hc' => ?_⟩
          rcases List.mem_cons.mp hc' with rfl | hc'
          · exact ⟨.mk type ident body, List.mem_cons_self, n, hrest.1, rfl⟩
          · rcases hrest.2 c' hc' with ⟨c, hc, k, hk, hbody⟩
            exact ⟨c, List.mem_cons_of_mem _ hc, k, hk, hbody⟩

theorem mem_transformCleanup (cleanup : Option (List Stmt))
    (hmono : ∀ stmts, cleanup = some stmts → ∀ s ∈ stmts, ∀ n,
      n ≤ (Stmt.transformNested f s n).2) (n : Nat) :
    n ≤ (Stmt.transformCleanup f cleanup n).2 ∧
      ∀ t ∈ (Stmt.transformCleanup f cleanup n).1.getD [], ∃ stmts, cleanup = some stmts ∧ ∃ k,
        (transformLists f stmts k).2 ≤ (Stmt.transformCleanup f cleanup n).2 ∧
          t ∈ (transformLists f stmts k).1 := by
  cases cleanup with
  | none => exact ⟨Nat.le_refl n, fun t ht => absurd ht List.not_mem_nil⟩
  | some stmts =>
      exact ⟨le_transformLists hf (hmono stmts rfl) n,
        fun t ht => ⟨stmts, rfl, n, Nat.le_refl _, ht⟩⟩

theorem transformNested_source (s : Stmt) (n : Nat) :
    n ≤ (Stmt.transformNested f s n).2 ∧
      ∀ t ∈ (Stmt.transformNested f s n).1.children,
        Source f s (Stmt.transformNested f s n).2 t := by
  induction s using Stmt.childInduction generalizing n with
  | step s ih =>
      have hmono : ∀ t ∈ s.children, ∀ n, n ≤ (Stmt.transformNested f t n).2 :=
        fun t ht n => (ih t ht n).1
      cases s with
      | block stmts =>
          exact ⟨le_transformLists hf hmono n, fun t ht => .list (fun _ h => h) (Nat.le_refl _) ht⟩
      | sync lock stmts =>
          exact ⟨le_transformLists hf hmono n, fun t ht => .list (fun _ h => h) (Nat.le_refl _) ht⟩
      | whileLoop _ body | doWhile body _ | forLoop _ _ _ body | forEach _ _ _ body
      | labeled _ body =>
          refine ⟨hmono body (List.mem_singleton.mpr rfl) n, fun t ht => ?_⟩
          exact .body (List.mem_singleton.mpr rfl) (Nat.le_refl _) (List.mem_singleton.mp ht)
      | ifElse cond ifTrue ifFalse =>
          have hfirst := hmono ifTrue List.mem_cons_self n
          cases ifFalse with
          | none =>
              refine ⟨hfirst, fun t ht => ?_⟩
              exact .body List.mem_cons_self (Nat.le_refl _) (List.mem_singleton.mp ht)
          | some s =>
              have hsecond := hmono s (by simp [Stmt.children]) (Stmt.transformNested f ifTrue n).2
              refine ⟨Nat.le_trans hfirst hsecond, fun t ht => ?_⟩
              rcases List.mem_cons.mp ht with rfl | ht
              · exact .body List.mem_cons_self hsecond rfl
              · have hs : s ∈ (Stmt.ifElse cond ifTrue (some s)).bodies := by simp [Stmt.bodies]
                exact .body hs (Nat.le_refl _) (List.mem_singleton.mp ht)
      | switch selector cases =>
          have hcases := mem_transformCases hf cases
            (fun c hc s hs => hmono s (List.mem_flatMap.mpr ⟨c, hc, hs⟩)) n
          refine ⟨hcases.1, fun t ht => ?_⟩
          rcases List.mem_flatMap.mp ht with ⟨c', hc', ht⟩
          rcases hcases.2 c' hc' with ⟨c, hc, k, hk, hbody⟩
          rw [hbody] at ht
          exact .list (fun s hs => List.mem_flatMap.mpr ⟨c, hc, hs⟩) hk ht
      | tryCatch body catches cleanup =>
          have hbody := le_transformLists hf
            (fun s hs => hmono s (List.mem_append_left _ (List.mem_append_left _ hs))) n
          have hcatches := mem_transformCatches hf catches
            (fun c hc s hs => hmono s (List.mem_append_left _ (List.mem_append_right _
              (List.mem_flatMap.mpr ⟨c, hc, hs⟩)))) (transformLists f body n).2
          have hclean := mem_transformCleanup hf cleanup
            (fun stmts hstmts s hs => hmono s (List.mem_append_right _ (by rw [hstmts]; exact hs)))
            (Stmt.transformCatches f catches (transformLists f body n).2).2
          refine ⟨Nat.le_trans hbody (Nat.le_trans hcatches.1 hclean.1), fun t ht => ?_⟩
          rcases List.mem_append.mp ht with ht | ht
          · rcases List.mem_append.mp ht with ht | ht
            · exact .list (fun s hs => List.mem_append_left _ (List.mem_append_left _ hs))
                (Nat.le_trans hcatches.1 hclean.1) ht
            · rcases List.mem_flatMap.mp ht with ⟨c', hc', ht⟩
              rcases hcatches.2 c' hc' with ⟨c, hc, k, hk, hbody⟩
              rw [hbody] at ht
              exact .list (fun s hs => List.mem_append_left _ (List.mem_append_right _
                (List.mem_flatMap.mpr ⟨c, hc, hs⟩))) (Nat.le_trans hk hclean.1) ht
          · rcases hclean.2 t ht with ⟨stmts, rfl, k, hk, ht⟩
            exact .list (fun s hs => List.mem_append_right _ hs) hk ht
      | decl _ _ _ | expr _ | breakTo _ | continueTo _ | ret _ | raise _ | unmodelled _ =>
          exact ⟨Nat.le_refl n, fun t ht => absurd ht List.not_mem_nil⟩

/-- A condition on the statements that a pass goes through, and one on what it makes of
them. -/
theorem transformNested_every {q₀ q : Stmt → Prop} {bound : Nat}
    (hq : ∀ s n, q₀ s → q (Stmt.transformNested f s n).1)
    (hlist : ∀ stmts n, (f stmts n).2 ≤ bound → Stmt.EveryIn q stmts →
      Stmt.EveryIn q (f stmts n).1) {s : Stmt} (h : s.Every q₀) (n : Nat)
    (hn : (Stmt.transformNested f s n).2 ≤ bound) : (Stmt.transformNested f s n).1.Every q := by
  induction s using Stmt.childInduction generalizing n with
  | step s ih =>
      have hsource := transformNested_source hf s n
      refine Stmt.every_iff.mpr ⟨hq s n h.here, fun t ht => ?_⟩
      cases hsource.2 t ht with
      | body hc hk ht =>
          have hchild := s.bodies_subset hc
          rw [ht]
          exact ih _ hchild (h.child hchild) _ (Nat.le_trans hk hn)
      | list hstmts hk ht =>
          have hle := Nat.le_trans hk hn
          refine hlist _ _ hle (fun t' ht' => ?_) t ht
          rcases (mem_transformNestedInAll _
            (fun s _ n => (transformNested_source hf s n).1) _).2 t' ht' with ⟨c, hc, k', hk', rfl⟩
          have hchild := hstmts hc
          exact ih c hchild (h.child hchild) k'
            (Nat.le_trans hk' (Nat.le_trans (hf _ _) hle))

theorem transformLists_every {q₀ q : Stmt → Prop} {bound : Nat}
    (hq : ∀ s n, q₀ s → q (Stmt.transformNested f s n).1)
    (hlist : ∀ stmts n, (f stmts n).2 ≤ bound → Stmt.EveryIn q stmts →
      Stmt.EveryIn q (f stmts n).1) {stmts : List Stmt} (h : Stmt.EveryIn q₀ stmts) (n : Nat)
    (hn : (transformLists f stmts n).2 ≤ bound) :
    Stmt.EveryIn q (transformLists f stmts n).1 := by
  refine hlist _ _ hn fun t ht => ?_
  rcases (mem_transformNestedInAll _
    (fun s _ n => (transformNested_source hf s n).1) _).2 t ht with ⟨s, hs, k, hk, rfl⟩
  exact transformNested_every hf hq hlist (h s hs) k
    (Nat.le_trans hk (Nat.le_trans (hf _ _) hn))

omit hf in
theorem head_transformNested (s : Stmt) (n : Nat) :
    (Stmt.transformNested f s n).1.head = s.head := by
  cases s <;> rfl

end

theorem mapM_naming {α β : Type} {g : α → Naming β} (xs : List α) (n : Nat)
    (hmono : ∀ x ∈ xs, ∀ k, k ≤ (g x k).2) :
    n ≤ (xs.mapM g n).2 ∧
      ∀ y ∈ (xs.mapM g n).1, ∃ x ∈ xs, ∃ k, (g x k).2 ≤ (xs.mapM g n).2 ∧ y = (g x k).1 := by
  induction xs generalizing n with
  | nil => exact ⟨Nat.le_refl n, fun y hy => absurd hy List.not_mem_nil⟩
  | cons x xs ih =>
      have hx := hmono x List.mem_cons_self n
      have hrest := ih (g x n).2 fun x' hx' => hmono x' (List.mem_cons_of_mem x hx')
      rw [List.mapM_cons]
      refine ⟨Nat.le_trans hx hrest.1, fun y hy => ?_⟩
      rcases List.mem_cons.mp hy with rfl | hy
      · exact ⟨x, List.mem_cons_self, n, hrest.1, rfl⟩
      · rcases hrest.2 y hy with ⟨x', hx', k, hk, rfl⟩
        exact ⟨x', List.mem_cons_of_mem x hx', k, hk, rfl⟩

/-! ## Changes without fresh names -/

section

variable (g : List Stmt → List Stmt)

mutual

theorem transformNested_pure : ∀ (s : Stmt) (number : Nat),
    Stmt.transformNested (fun stmts => (pure (g stmts) : Naming (List Stmt))) s number =
      (Id.run (Stmt.transformNested (fun stmts => pure (g stmts)) s), number)
  | .block stmts, number => by
      simp only [Stmt.transformNested, Bind.bind, StateT.bind, transformNestedInAll_pure stmts]
      rfl
  | .ifElse cond ifTrue ifFalse, number => by
      simp only [Stmt.transformNested, Bind.bind, StateT.bind, transformNested_pure ifTrue,
        transformNestedInElse_pure ifFalse]
      rfl
  | .whileLoop cond body, number => by
      simp only [Stmt.transformNested, Bind.bind, StateT.bind, transformNested_pure body]
      rfl
  | .doWhile body cond, number => by
      simp only [Stmt.transformNested, Bind.bind, StateT.bind, transformNested_pure body]
      rfl
  | .forLoop init cond update body, number => by
      simp only [Stmt.transformNested, Bind.bind, StateT.bind, transformNested_pure body]
      rfl
  | .forEach type ident items body, number => by
      simp only [Stmt.transformNested, Bind.bind, StateT.bind, transformNested_pure body]
      rfl
  | .labeled label body, number => by
      simp only [Stmt.transformNested, Bind.bind, StateT.bind, transformNested_pure body]
      rfl
  | .switch selector cases, number => by
      simp only [Stmt.transformNested, Bind.bind, StateT.bind, transformCases_pure cases]
      rfl
  | .tryCatch body catches cleanup, number => by
      simp only [Stmt.transformNested, pure_bind]
      simp only [Bind.bind, StateT.bind, transformNestedInAll_pure body,
        transformCatches_pure catches, transformCleanup_pure cleanup]
      rfl
  | .sync lock body, number => by
      simp only [Stmt.transformNested, Bind.bind, StateT.bind, transformNestedInAll_pure body]
      rfl
  | .decl _ _ _, _ | .expr _, _ | .breakTo _, _ | .continueTo _, _ | .ret _, _
  | .raise _, _ | .unmodelled _, _ => rfl

theorem transformNestedInAll_pure : ∀ (stmts : List Stmt) (number : Nat),
    Stmt.transformNestedInAll (fun stmts => (pure (g stmts) : Naming (List Stmt))) stmts number =
      (Id.run (Stmt.transformNestedInAll (fun stmts => pure (g stmts)) stmts), number)
  | [], _ => rfl
  | s :: rest, number => by
      simp only [Stmt.transformNestedInAll, Bind.bind, StateT.bind, transformNested_pure s,
        transformNestedInAll_pure rest]
      rfl

theorem transformNestedInElse_pure : ∀ (s : Option Stmt) (number : Nat),
    Stmt.transformNestedInElse (fun stmts => (pure (g stmts) : Naming (List Stmt))) s number =
      (Id.run (Stmt.transformNestedInElse (fun stmts => pure (g stmts)) s), number)
  | none, _ => rfl
  | some s, number => by
      simp only [Stmt.transformNestedInElse, Bind.bind, StateT.bind, transformNested_pure s]
      rfl

theorem transformCases_pure : ∀ (cases : List SwitchCase) (number : Nat),
    Stmt.transformCases (fun stmts => (pure (g stmts) : Naming (List Stmt))) cases number =
      (Id.run (Stmt.transformCases (fun stmts => pure (g stmts)) cases), number)
  | [], _ => rfl
  | .mk labels body :: rest, number => by
      simp only [Stmt.transformCases, pure_bind]
      simp only [Bind.bind, StateT.bind, transformNestedInAll_pure body,
        transformCases_pure rest]
      rfl

theorem transformCatches_pure : ∀ (catches : List CatchClause) (number : Nat),
    Stmt.transformCatches (fun stmts => (pure (g stmts) : Naming (List Stmt))) catches number =
      (Id.run (Stmt.transformCatches (fun stmts => pure (g stmts)) catches), number)
  | [], _ => rfl
  | .mk type ident body :: rest, number => by
      simp only [Stmt.transformCatches, pure_bind]
      simp only [Bind.bind, StateT.bind, transformNestedInAll_pure body,
        transformCatches_pure rest]
      rfl

theorem transformCleanup_pure : ∀ (cleanup : Option (List Stmt)) (number : Nat),
    Stmt.transformCleanup (fun stmts => (pure (g stmts) : Naming (List Stmt))) cleanup number =
      (Id.run (Stmt.transformCleanup (fun stmts => pure (g stmts)) cleanup), number)
  | none, _ => rfl
  | some stmts, number => by
      simp only [Stmt.transformCleanup, Bind.bind, StateT.bind, transformNestedInAll_pure stmts]
      rfl

end

theorem transformLists_pure (stmts : List Stmt) (number : Nat) :
    transformLists (fun stmts => (pure (g stmts) : Naming (List Stmt))) stmts number =
      (Id.run (transformLists (fun stmts => pure (g stmts)) stmts), number) := by
  simp only [transformLists, Bind.bind, StateT.bind, transformNestedInAll_pure]
  rfl

end

/-! ## Normal form -/

theorem normalizeAll_eq (stmts : List Stmt) : normalizeAll stmts = stmts.map normalize := by
  induction stmts with
  | nil => rfl
  | cons s rest ih =>
      rw [normalizeAll, ih]
      rfl

theorem normalizeCases_eq (cases : List SwitchCase) :
    normalizeCases cases = cases.map fun c => .mk c.labels (normalizeAll c.body) := by
  induction cases with
  | nil => rfl
  | cons c rest ih =>
      cases c
      rw [normalizeCases, ih]
      rfl

theorem normalizeCatches_eq (catches : List CatchClause) :
    normalizeCatches catches =
      catches.map fun c => .mk c.type c.ident (normalizeAll c.body) := by
  induction catches with
  | nil => rfl
  | cons c rest ih =>
      cases c
      rw [normalizeCatches, ih]
      rfl

theorem normalize_source {s t : Stmt} (ht : t ∈ (normalize s).children) :
    ∃ c ∈ s.children, t = normalize c ∨ t = asBlock (normalize c) := by
  have hall : ∀ {stmts : List Stmt}, t ∈ normalizeAll stmts → ∃ c ∈ stmts, t = normalize c := by
    intro stmts ht
    rw [normalizeAll_eq] at ht
    rcases List.mem_map.mp ht with ⟨c, hc, rfl⟩
    exact ⟨c, hc, rfl⟩
  cases s with
  | block stmts | sync _ stmts =>
      rcases hall ht with ⟨c, hc, rfl⟩
      exact ⟨c, hc, .inl rfl⟩
  | whileLoop _ body | doWhile body _ | forLoop _ _ _ body | forEach _ _ _ body =>
      exact ⟨body, List.mem_singleton.mpr rfl, .inr (List.mem_singleton.mp ht)⟩
  | labeled label body =>
      have ht' := List.mem_singleton.mp ht
      split at ht'
      · exact ⟨body, List.mem_singleton.mpr rfl, .inl ht'⟩
      · exact ⟨body, List.mem_singleton.mpr rfl, .inr ht'⟩
  | ifElse cond ifTrue ifFalse =>
      rcases List.mem_cons.mp ht with rfl | ht
      · exact ⟨ifTrue, List.mem_cons_self, .inr rfl⟩
      · cases ifFalse with
        | none => exact absurd ht List.not_mem_nil
        | some s =>
            have ht' := List.mem_singleton.mp ht
            have hs : s ∈ (Stmt.ifElse cond ifTrue (some s)).children := by simp [Stmt.children]
            split at ht'
            · exact ⟨s, hs, .inl ht'⟩
            · exact ⟨s, hs, .inr ht'⟩
  | switch selector cases =>
      simp only [normalize, normalizeCases_eq, Stmt.children, List.mem_flatMap, List.mem_map] at ht
      rcases ht with ⟨_, ⟨c, hc, rfl⟩, ht⟩
      rcases hall ht with ⟨s, hs, rfl⟩
      exact ⟨s, List.mem_flatMap.mpr ⟨c, hc, hs⟩, .inl rfl⟩
  | tryCatch body catches cleanup =>
      simp only [normalize, normalizeCatches_eq, Stmt.children, List.mem_append] at ht
      rcases ht with (ht | ht) | ht
      · rcases hall ht with ⟨s, hs, rfl⟩
        exact ⟨s, List.mem_append_left _ (List.mem_append_left _ hs), .inl rfl⟩
      · simp only [List.mem_flatMap, List.mem_map] at ht
        rcases ht with ⟨_, ⟨c, hc, rfl⟩, ht⟩
        rcases hall ht with ⟨s, hs, rfl⟩
        exact ⟨s, List.mem_append_left _ (List.mem_append_right _
          (List.mem_flatMap.mpr ⟨c, hc, hs⟩)), .inl rfl⟩
      · cases cleanup with
        | none => exact absurd ht List.not_mem_nil
        | some stmts =>
            rcases hall ht with ⟨s, hs, rfl⟩
            exact ⟨s, List.mem_append_right _ hs, .inl rfl⟩
  | decl _ _ _ | expr _ | breakTo _ | continueTo _ | ret _ | raise _ | unmodelled _ =>
      exact absurd ht List.not_mem_nil

theorem asBlock_every {q : Stmt → Prop} (hblock : ∀ stmts, q (.block stmts)) {s : Stmt}
    (h : s.Every q) : (asBlock s).Every q := by
  unfold asBlock
  split
  · exact h
  · exact Stmt.every_block.mpr ⟨hblock _, Stmt.everyIn_singleton.mpr h⟩

theorem normalize_every {q₀ q : Stmt → Prop} (hblock : ∀ stmts, q (.block stmts))
    (hq : ∀ s, q₀ s → q (normalize s)) {s : Stmt} (h : s.Every q₀) : (normalize s).Every q := by
  induction s using Stmt.childInduction with
  | step s ih =>
      refine Stmt.every_iff.mpr ⟨hq s h.here, fun t ht => ?_⟩
      rcases normalize_source ht with ⟨c, hc, rfl | rfl⟩
      · exact ih c hc (h.child hc)
      · exact asBlock_every hblock (ih c hc (h.child hc))

theorem normalizeAll_every {q₀ q : Stmt → Prop} (hblock : ∀ stmts, q (.block stmts))
    (hq : ∀ s, q₀ s → q (normalize s)) {stmts : List Stmt} (h : Stmt.EveryIn q₀ stmts) :
    Stmt.EveryIn q (normalizeAll stmts) := by
  rw [normalizeAll_eq]
  intro t ht
  rcases List.mem_map.mp ht with ⟨s, hs, rfl⟩
  exact normalize_every hblock hq (h s hs)

theorem head_normalize (s : Stmt) : (normalize s).head = s.head := by
  cases s <;> rfl

/-! ## Leaving the body of a loop -/

section

variable {loopLabel : Option String} {target : String}

theorem retargetAll_eq (b : Bool) (stmts : List Stmt) :
    retargetAll loopLabel target b stmts = stmts.map (retarget loopLabel target b) := by
  induction stmts with
  | nil => rfl
  | cons s rest ih =>
      rw [retargetAll, ih]
      rfl

theorem retargetCases_eq (b : Bool) (cases : List SwitchCase) :
    retargetCases loopLabel target b cases =
      cases.map fun c => .mk c.labels (retargetAll loopLabel target b c.body) := by
  induction cases with
  | nil => rfl
  | cons c rest ih =>
      cases c
      rw [retargetCases, ih]
      rfl

theorem retargetCatches_eq (b : Bool) (catches : List CatchClause) :
    retargetCatches loopLabel target b catches =
      catches.map fun c => .mk c.type c.ident (retargetAll loopLabel target b c.body) := by
  induction catches with
  | nil => rfl
  | cons c rest ih =>
      cases c
      rw [retargetCatches, ih]
      rfl

theorem retarget_source {b : Bool} {s t : Stmt}
    (ht : t ∈ (retarget loopLabel target b s).children) :
    ∃ c ∈ s.children, ∃ b', t = retarget loopLabel target b' c := by
  have hall : ∀ {b : Bool} {stmts : List Stmt}, t ∈ retargetAll loopLabel target b stmts →
      ∃ c ∈ stmts, ∃ b', t = retarget loopLabel target b' c := by
    intro b stmts ht
    rw [retargetAll_eq] at ht
    rcases List.mem_map.mp ht with ⟨c, hc, rfl⟩
    exact ⟨c, hc, b, rfl⟩
  cases s with
  | block stmts | sync _ stmts => exact hall ht
  | whileLoop _ body | doWhile body _ | forLoop _ _ _ body | forEach _ _ _ body
  | labeled _ body => exact ⟨body, List.mem_singleton.mpr rfl, _, List.mem_singleton.mp ht⟩
  | ifElse cond ifTrue ifFalse =>
      rcases List.mem_cons.mp ht with rfl | ht
      · exact ⟨ifTrue, List.mem_cons_self, b, rfl⟩
      · cases ifFalse with
        | none => exact absurd ht List.not_mem_nil
        | some s => exact ⟨s, by simp [Stmt.children], b, List.mem_singleton.mp ht⟩
  | switch selector cases =>
      simp only [retarget, retargetCases_eq, Stmt.children, List.mem_flatMap, List.mem_map] at ht
      rcases ht with ⟨_, ⟨c, hc, rfl⟩, ht⟩
      rcases hall ht with ⟨s, hs, b', rfl⟩
      exact ⟨s, List.mem_flatMap.mpr ⟨c, hc, hs⟩, b', rfl⟩
  | tryCatch body catches cleanup =>
      simp only [retarget, retargetCatches_eq, Stmt.children, List.mem_append] at ht
      rcases ht with (ht | ht) | ht
      · rcases hall ht with ⟨s, hs, b', rfl⟩
        exact ⟨s, List.mem_append_left _ (List.mem_append_left _ hs), b', rfl⟩
      · simp only [List.mem_flatMap, List.mem_map] at ht
        rcases ht with ⟨_, ⟨c, hc, rfl⟩, ht⟩
        rcases hall ht with ⟨s, hs, b', rfl⟩
        exact ⟨s, List.mem_append_left _ (List.mem_append_right _
          (List.mem_flatMap.mpr ⟨c, hc, hs⟩)), b', rfl⟩
      · cases cleanup with
        | none => exact absurd ht List.not_mem_nil
        | some stmts =>
            rcases hall ht with ⟨s, hs, b', rfl⟩
            exact ⟨s, List.mem_append_right _ hs, b', rfl⟩
  | continueTo label =>
      cases label with
      | none => cases b <;> exact absurd ht List.not_mem_nil
      | some label =>
          unfold retarget at ht
          split at ht <;> exact absurd ht List.not_mem_nil
  | decl _ _ _ | expr _ | breakTo _ | ret _ | raise _ | unmodelled _ =>
      exact absurd ht List.not_mem_nil

variable (loopLabel target) in
theorem retarget_every {q : Stmt → Prop}
    (hq : ∀ b s, q s → q (retarget loopLabel target b s)) (b : Bool) {s : Stmt}
    (h : s.Every q) : (retarget loopLabel target b s).Every q := by
  induction s using Stmt.childInduction generalizing b with
  | step s ih =>
      refine Stmt.every_iff.mpr ⟨hq b s h.here, fun t ht => ?_⟩
      rcases retarget_source ht with ⟨c, hc, b', rfl⟩
      exact ih c hc b' (h.child hc)

theorem head_retarget (b : Bool) (s : Stmt) :
    (retarget loopLabel target b s).head = s.head ∨
      retarget loopLabel target b s = .breakTo (some target) := by
  cases s with
  | continueTo label =>
      cases label with
      | none =>
          cases b with
          | true => exact .inl rfl
          | false => exact .inr rfl
      | some label =>
          unfold retarget
          split
          · exact .inr rfl
          · exact .inl rfl
  | block _ | decl _ _ _ | expr _ | ifElse _ _ _ | whileLoop _ _ | doWhile _ _
  | forLoop _ _ _ _ | forEach _ _ _ _ | labeled _ _ | switch _ _ | breakTo _ | ret _ | raise _
  | tryCatch _ _ _ | sync _ _ | unmodelled _ => exact .inl rfl

end

end Weave
end TraceWeaving
