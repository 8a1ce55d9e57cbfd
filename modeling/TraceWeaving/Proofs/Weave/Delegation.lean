import TraceWeaving.Proofs.Weave.Starts

/-!
# Statements stay in order

Weaving replaces each statement of a list by a few statements, and the parts stand in the
order of the statements they come from.  A call of another constructor becomes a part that
starts with it; no pass drops such a call, makes a second one or changes their order, however
deep inside the statement they stand.
-/

namespace TraceWeaving

namespace Code

namespace Stmt

def delegations (s : Stmt) : List Stmt :=
  s.nodes.filter isDelegation

end Stmt

def delegationsIn (stmts : List Stmt) : List Stmt :=
  stmts.flatMap Stmt.delegations

@[simp]
theorem delegationsIn_nil : delegationsIn [] = [] :=
  rfl

@[simp]
theorem delegationsIn_cons (s : Stmt) (rest : List Stmt) :
    delegationsIn (s :: rest) = s.delegations ++ delegationsIn rest :=
  rfl

@[simp]
theorem delegationsIn_append (xs ys : List Stmt) :
    delegationsIn (xs ++ ys) = delegationsIn xs ++ delegationsIn ys :=
  List.flatMap_append

theorem delegationsIn_flatMap {α : Type} {f g : α → List Stmt} {xs : List α}
    (h : ∀ x ∈ xs, delegationsIn (f x) = delegationsIn (g x)) :
    delegationsIn (xs.flatMap f) = delegationsIn (xs.flatMap g) := by
  induction xs with
  | nil => rfl
  | cons x xs ih =>
      have hrest := ih fun x' hx' => h x' (List.mem_cons_of_mem x hx')
      simp only [List.flatMap_cons, delegationsIn_append, h x List.mem_cons_self, hrest]

theorem delegationsIn_map {g : Stmt → Stmt} {stmts : List Stmt}
    (h : ∀ s ∈ stmts, (g s).delegations = s.delegations) :
    delegationsIn (stmts.map g) = delegationsIn stmts := by
  have hparts : delegationsIn (stmts.flatMap fun s => [g s]) =
      delegationsIn (stmts.flatMap fun s => [s]) :=
    delegationsIn_flatMap fun s hs => by simp [h s hs]
  rw [List.map_eq_flatMap, hparts, List.flatMap_singleton']

namespace Stmt

theorem delegations_of_not {s : Stmt} (hs : s.isDelegation = false) :
    s.delegations = delegationsIn s.children := by
  unfold delegations nodes delegationsIn
  rw [List.filter_cons_of_neg (by rw [hs]; exact Bool.false_ne_true), inner_eq,
    List.filter_flatMap]
  rfl

@[simp]
theorem delegations_block (stmts : List Stmt) :
    (block stmts).delegations = delegationsIn stmts :=
  delegations_of_not rfl

@[simp]
theorem delegations_sync (lock : Expr) (body : List Stmt) :
    (sync lock body).delegations = delegationsIn body :=
  delegations_of_not rfl

@[simp]
theorem delegations_labeled (label : String) (body : Stmt) :
    (labeled label body).delegations = body.delegations := by
  rw [delegations_of_not rfl]
  exact List.append_nil _

@[simp]
theorem delegations_whileLoop (cond : Expr) (body : Stmt) :
    (whileLoop cond body).delegations = body.delegations := by
  rw [delegations_of_not rfl]
  exact List.append_nil _

@[simp]
theorem delegations_doWhile (body : Stmt) (cond : Expr) :
    (doWhile body cond).delegations = body.delegations := by
  rw [delegations_of_not rfl]
  exact List.append_nil _

@[simp]
theorem delegations_forLoop (init : ForInit) (cond : Option Expr) (update : List Expr)
    (body : Stmt) : (forLoop init cond update body).delegations = body.delegations := by
  rw [delegations_of_not rfl]
  exact List.append_nil _

@[simp]
theorem delegations_forEach (type : TypeName) (ident : String) (items : Expr) (body : Stmt) :
    (forEach type ident items body).delegations = body.delegations := by
  rw [delegations_of_not rfl]
  exact List.append_nil _

@[simp]
theorem delegations_ifElse (cond : Expr) (ifTrue : Stmt) (ifFalse : Option Stmt) :
    (ifElse cond ifTrue ifFalse).delegations =
      ifTrue.delegations ++ delegationsIn ifFalse.toList :=
  delegations_of_not rfl

@[simp]
theorem delegations_switch (selector : Expr) (cases : List SwitchCase) :
    (switch selector cases).delegations = delegationsIn (cases.flatMap SwitchCase.body) :=
  delegations_of_not rfl

@[simp]
theorem delegations_tryCatch (body : List Stmt) (catches : List CatchClause)
    (cleanup : Option (List Stmt)) :
    (tryCatch body catches cleanup).delegations =
      delegationsIn body ++ delegationsIn (catches.flatMap CatchClause.body) ++
        delegationsIn (cleanup.getD []) := by
  rw [delegations_of_not rfl]
  simp [children]

section

variable {g : List Stmt → List Stmt}

theorem delegations_switch_map {selector : Expr} {cases : List SwitchCase}
    (hg : ∀ stmts ⊆ (switch selector cases).children,
      delegationsIn (g stmts) = delegationsIn stmts) :
    (switch selector (cases.map fun c => .mk c.labels (g c.body))).delegations =
      (switch selector cases).delegations := by
  have hcases : delegationsIn (cases.flatMap fun c => g c.body) =
      delegationsIn (cases.flatMap SwitchCase.body) :=
    delegationsIn_flatMap fun c hc => hg c.body fun t ht => List.mem_flatMap.mpr ⟨c, hc, ht⟩
  rw [delegations_switch, delegations_switch, ← hcases, List.flatMap_map]
  rfl

theorem delegations_tryCatch_map {body : List Stmt} {catches : List CatchClause}
    {cleanup : Option (List Stmt)}
    (hg : ∀ stmts ⊆ (tryCatch body catches cleanup).children,
      delegationsIn (g stmts) = delegationsIn stmts) :
    (tryCatch (g body) (catches.map fun c => .mk c.type c.ident (g c.body))
      (cleanup.map g)).delegations = (tryCatch body catches cleanup).delegations := by
  have hbody := hg body fun t ht => List.mem_append_left _ (List.mem_append_left _ ht)
  have hcatches : delegationsIn (catches.flatMap fun c => g c.body) =
      delegationsIn (catches.flatMap CatchClause.body) :=
    delegationsIn_flatMap fun c hc => hg c.body fun t ht =>
      List.mem_append_left _ (List.mem_append_right _ (List.mem_flatMap.mpr ⟨c, hc, ht⟩))
  have hclean : delegationsIn ((cleanup.map g).getD []) = delegationsIn (cleanup.getD []) := by
    cases cleanup with
    | none => rfl
    | some stmts => exact hg stmts fun t ht => List.mem_append_right _ ht
  rw [delegations_tryCatch, delegations_tryCatch, hbody, hclean, ← hcatches, List.flatMap_map]
  rfl

end

end Stmt
end Code

namespace Weave

open Code

/-! ## Parts -/

/-- A part of a list that comes from one statement: the calls of other constructors are
those of the statement, in the list itself and at any depth. -/
structure Part (s : Stmt) (part : List Stmt) : Prop where
  here : part.filter Stmt.isDelegation = [s].filter Stmt.isDelegation
  inside : delegationsIn part = s.delegations

/-- A list made of parts that come from the statements of another list, in their order. -/
inductive Unfolds : List Stmt → List Stmt → Prop
  | nil : Unfolds [] []
  | cons {s : Stmt} {rest part rest' : List Stmt} :
      Part s part → Unfolds rest rest' → Unfolds (s :: rest) (part ++ rest')

theorem Part.single {s t : Stmt} (hhere : t.isDelegation = true → t = s)
    (hsame : t.isDelegation = s.isDelegation) (hinside : t.delegations = s.delegations) :
    Part s [t] where
  here := by
    cases hs : s.isDelegation with
    | true =>
        obtain rfl := hhere (hsame.trans hs)
        rfl
    | false => simp [hs, hsame]
  inside := by simp [hinside]

theorem Part.refl (s : Stmt) : Part s [s] :=
  .single (fun _ => rfl) rfl rfl

namespace Unfolds

variable {xs ys zs : List Stmt}

theorem filter_eq (h : Unfolds xs ys) :
    ys.filter Stmt.isDelegation = xs.filter Stmt.isDelegation := by
  induction h with
  | nil => rfl
  | @cons s rest part rest' hpart _ ih =>
      rw [List.filter_append, hpart.here, ih, ← List.filter_append]
      rfl

theorem delegationsIn_eq (h : Unfolds xs ys) : delegationsIn ys = delegationsIn xs := by
  induction h with
  | nil => rfl
  | cons hpart _ ih => rw [delegationsIn_append, hpart.inside, ih, delegationsIn_cons]

theorem refl (xs : List Stmt) : Unfolds xs xs := by
  induction xs with
  | nil => exact .nil
  | cons s rest ih => exact .cons (.refl s) ih

theorem of_append {xs' : List Stmt} (h : Unfolds (xs ++ xs') zs) :
    ∃ ys ys', zs = ys ++ ys' ∧ Unfolds xs ys ∧ Unfolds xs' ys' := by
  induction xs generalizing zs with
  | nil => exact ⟨[], zs, rfl, .nil, h⟩
  | cons s rest ih =>
      cases h with
      | @cons _ _ part rest' hpart hrest =>
          rcases ih hrest with ⟨ys, ys', rfl, hys, hys'⟩
          exact ⟨part ++ ys, ys', (List.append_assoc _ _ _).symm, .cons hpart hys, hys'⟩

theorem part {s : Stmt} (hpart : Part s xs) (h : Unfolds xs ys) : Part s ys :=
  ⟨h.filter_eq.trans hpart.here, h.delegationsIn_eq.trans hpart.inside⟩

theorem trans (h : Unfolds xs ys) (h' : Unfolds ys zs) : Unfolds xs zs := by
  induction h generalizing zs with
  | nil => exact h'
  | cons hpart _ ih =>
      rcases h'.of_append with ⟨zs₁, zs₂, rfl, hfront, hrest⟩
      exact .cons (hfront.part hpart) (ih hrest)

theorem of_flatMap {g : Stmt → List Stmt} (h : ∀ s ∈ xs, Part s (g s)) :
    Unfolds xs (xs.flatMap g) := by
  induction xs with
  | nil => exact .nil
  | cons s rest ih =>
      rw [List.flatMap_cons]
      exact .cons (h s List.mem_cons_self) (ih fun s' hs' => h s' (List.mem_cons_of_mem s hs'))

theorem of_map {g : Stmt → Stmt} (h : ∀ s ∈ xs, Part s [g s]) : Unfolds xs (xs.map g) := by
  rw [List.map_eq_flatMap]
  exact of_flatMap h

theorem of_mapM {β : Type} {g : Stmt → Naming β} {out : β → List Stmt}
    (h : ∀ s ∈ xs, ∀ n, Part s (out (g s n).1)) (n : Nat) :
    Unfolds xs ((xs.mapM g n).1.flatMap out) := by
  induction xs generalizing n with
  | nil => exact .nil
  | cons s rest ih =>
      have hrest := ih (fun s' hs' => h s' (List.mem_cons_of_mem s hs')) (g s n).2
      rw [List.mapM_cons]
      exact .cons (h s List.mem_cons_self n) hrest

end Unfolds

/-! ## Normal form -/

theorem delegations_asBlock (s : Stmt) : (asBlock s).delegations = s.delegations := by
  unfold asBlock
  split
  · rfl
  · simp

theorem delegations_normalize (s : Stmt) : (normalize s).delegations = s.delegations := by
  induction s using Stmt.childInduction with
  | step s ih =>
      have hall : ∀ stmts : List Stmt, stmts ⊆ s.children →
          delegationsIn (normalizeAll stmts) = delegationsIn stmts := fun stmts h => by
        rw [normalizeAll_eq]
        exact delegationsIn_map fun t ht => ih t (h ht)
      cases s with
      | block stmts | sync _ stmts => simpa [normalize] using hall stmts fun _ h => h
      | whileLoop _ body | doWhile body _ | forLoop _ _ _ body | forEach _ _ _ body =>
          have hbody := ih body (List.mem_singleton.mpr rfl)
          simpa [normalize, delegations_asBlock] using hbody
      | labeled label body =>
          have hbody := ih body (List.mem_singleton.mpr rfl)
          unfold normalize
          split <;> simpa [delegations_asBlock] using hbody
      | ifElse cond ifTrue ifFalse =>
          have hthen := ih ifTrue List.mem_cons_self
          cases ifFalse with
          | none => simpa [normalize, normalizeElse, delegations_asBlock] using hthen
          | some s =>
              have helse := ih s (by simp [Stmt.children])
              unfold normalize normalizeElse
              split <;> simp [delegations_asBlock, hthen, helse]
      | switch selector cases =>
          unfold normalize
          rw [normalizeCases_eq]
          exact Stmt.delegations_switch_map hall
      | tryCatch body catches cleanup =>
          have hclean : normalizeCleanup cleanup = cleanup.map normalizeAll := by
            cases cleanup <;> rfl
          unfold normalize
          rw [normalizeCatches_eq, hclean]
          exact Stmt.delegations_tryCatch_map hall
      | decl _ _ _ | expr _ | breakTo _ | continueTo _ | ret _ | raise _ | unmodelled _ => rfl

theorem isDelegation_normalize (s : Stmt) : (normalize s).isDelegation = s.isDelegation := by
  cases s <;> rfl

theorem part_normalize (s : Stmt) : Part s [normalize s] := by
  refine .single (fun h => ?_) (isDelegation_normalize s) (delegations_normalize s)
  rw [isDelegation_normalize] at h
  rcases isExpr_of_isDelegation h with ⟨e, rfl, _⟩
  rfl

theorem unfolds_normalizeAll (stmts : List Stmt) : Unfolds stmts (normalizeAll stmts) := by
  rw [normalizeAll_eq]
  exact .of_map fun s _ => part_normalize s

/-! ## Going through the lists of a body -/

section

variable {f : List Stmt → Naming (List Stmt)}
  (hf : ∀ stmts n, delegationsIn (f stmts n).1 = delegationsIn stmts)

theorem delegationsIn_transformNestedInAll {stmts : List Stmt}
    (hs : ∀ s ∈ stmts, ∀ n, (Stmt.transformNested f s n).1.delegations = s.delegations)
    (n : Nat) : delegationsIn (Stmt.transformNestedInAll f stmts n).1 = delegationsIn stmts := by
  induction stmts generalizing n with
  | nil => rfl
  | cons s rest ih =>
      have hrest := ih (fun s' hs' => hs s' (List.mem_cons_of_mem s hs'))
        (Stmt.transformNested f s n).2
      show (Stmt.transformNested f s n).1.delegations ++ delegationsIn
        (Stmt.transformNestedInAll f rest (Stmt.transformNested f s n).2).1 = _
      rw [hs s List.mem_cons_self, hrest, delegationsIn_cons]

include hf

theorem delegationsIn_transformLists {stmts : List Stmt}
    (hs : ∀ s ∈ stmts, ∀ n, (Stmt.transformNested f s n).1.delegations = s.delegations)
    (n : Nat) : delegationsIn (transformLists f stmts n).1 = delegationsIn stmts :=
  (hf _ _).trans (delegationsIn_transformNestedInAll hs n)

theorem delegationsIn_transformCases {cases : List SwitchCase}
    (hs : ∀ c ∈ cases, ∀ s ∈ c.body, ∀ n,
      (Stmt.transformNested f s n).1.delegations = s.delegations) (n : Nat) :
    delegationsIn ((Stmt.transformCases f cases n).1.flatMap SwitchCase.body) =
      delegationsIn (cases.flatMap SwitchCase.body) := by
  induction cases generalizing n with
  | nil => rfl
  | cons c rest ih =>
      cases c with
      | mk labels body =>
          have hbody := delegationsIn_transformLists hf (hs (.mk labels body) List.mem_cons_self) n
          have hrest := ih (fun c' hc' => hs c' (List.mem_cons_of_mem _ hc'))
            (transformLists f body n).2
          rw [List.flatMap_cons, delegationsIn_append]
          exact (delegationsIn_append _ _).trans (congrArg₂ _ hbody hrest)

theorem delegationsIn_transformCatches {catches : List CatchClause}
    (hs : ∀ c ∈ catches, ∀ s ∈ c.body, ∀ n,
      (Stmt.transformNested f s n).1.delegations = s.delegations) (n : Nat) :
    delegationsIn ((Stmt.transformCatches f catches n).1.flatMap CatchClause.body) =
      delegationsIn (catches.flatMap CatchClause.body) := by
  induction catches generalizing n with
  | nil => rfl
  | cons c rest ih =>
      cases c with
      | mk type ident body =>
          have hbody := delegationsIn_transformLists hf
            (hs (.mk type ident body) List.mem_cons_self) n
          have hrest := ih (fun c' hc' => hs c' (List.mem_cons_of_mem _ hc'))
            (transformLists f body n).2
          rw [List.flatMap_cons, delegationsIn_append]
          exact (delegationsIn_append _ _).trans (congrArg₂ _ hbody hrest)

theorem delegationsIn_transformCleanup {cleanup : Option (List Stmt)}
    (hs : ∀ stmts ∈ cleanup, ∀ s ∈ stmts, ∀ n,
      (Stmt.transformNested f s n).1.delegations = s.delegations) (n : Nat) :
    delegationsIn ((Stmt.transformCleanup f cleanup n).1.getD []) =
      delegationsIn (cleanup.getD []) := by
  cases cleanup with
  | none => rfl
  | some stmts => exact delegationsIn_transformLists hf (hs stmts rfl) n

theorem delegations_transformNested (s : Stmt) (n : Nat) :
    (Stmt.transformNested f s n).1.delegations = s.delegations := by
  induction s using Stmt.childInduction generalizing n with
  | step s ih =>
      have hlist : ∀ stmts : List Stmt, stmts ⊆ s.children → ∀ n,
          delegationsIn (transformLists f stmts n).1 = delegationsIn stmts :=
        fun stmts h => delegationsIn_transformLists hf fun t ht => ih t (h ht)
      cases s with
      | block stmts =>
          exact (Stmt.delegations_block _).trans
            ((hlist stmts (fun _ h => h) n).trans (Stmt.delegations_block _).symm)
      | sync lock stmts =>
          exact (Stmt.delegations_sync _ _).trans
            ((hlist stmts (fun _ h => h) n).trans (Stmt.delegations_sync _ _).symm)
      | whileLoop _ body | doWhile body _ | forLoop _ _ _ body | forEach _ _ _ body
      | labeled _ body =>
          have hbody := ih body (List.mem_singleton.mpr rfl) n
          rw [Stmt.delegations_of_not rfl, Stmt.delegations_of_not rfl]
          exact congrArg (· ++ []) hbody
      | ifElse cond ifTrue ifFalse =>
          have hthen := ih ifTrue List.mem_cons_self n
          cases ifFalse with
          | none =>
              rw [Stmt.delegations_of_not rfl, Stmt.delegations_of_not rfl]
              exact congrArg (· ++ []) hthen
          | some s =>
              have helse := ih s (by simp [Stmt.children]) (Stmt.transformNested f ifTrue n).2
              rw [Stmt.delegations_of_not rfl, Stmt.delegations_of_not rfl]
              exact congrArg₂ (fun a b => a ++ (b ++ [])) hthen helse
      | switch selector cases =>
          exact (Stmt.delegations_switch _ _).trans
            ((delegationsIn_transformCases hf
              (fun c hc s hs => ih s (List.mem_flatMap.mpr ⟨c, hc, hs⟩)) n).trans
                (Stmt.delegations_switch _ _).symm)
      | tryCatch body catches cleanup =>
          have hbody := hlist body
            (fun t ht => List.mem_append_left _ (List.mem_append_left _ ht)) n
          have hcatches := delegationsIn_transformCatches hf
            (fun c hc s hs => ih s (List.mem_append_left _ (List.mem_append_right _
              (List.mem_flatMap.mpr ⟨c, hc, hs⟩)))) (transformLists f body n).2
          have hinside : ∀ stmts ∈ cleanup, ∀ s ∈ stmts, ∀ n,
              (Stmt.transformNested f s n).1.delegations = s.delegations :=
            fun stmts hstmts s hs => ih s (List.mem_append_right _ (by rw [hstmts]; exact hs))
          have hclean := delegationsIn_transformCleanup hf hinside
            (Stmt.transformCatches f catches (transformLists f body n).2).2
          rw [Stmt.delegations_tryCatch, ← hbody, ← hcatches, ← hclean]
          exact Stmt.delegations_tryCatch _ _ _
      | decl _ _ _ | expr _ | breakTo _ | continueTo _ | ret _ | raise _ | unmodelled _ => rfl

theorem part_transformNested (s : Stmt) (n : Nat) : Part s [(Stmt.transformNested f s n).1] := by
  have hsame : (Stmt.transformNested f s n).1.isDelegation = s.isDelegation := by
    rw [← isDelegation_head, head_transformNested, isDelegation_head]
  refine .single (fun h => ?_) hsame (delegations_transformNested hf s n)
  rw [hsame] at h
  rcases isExpr_of_isDelegation h with ⟨e, rfl, _⟩
  rfl

end

/-- Going through all lists unfolds the outer one, if the work on each list unfolds it. -/
theorem unfolds_transformLists {f : List Stmt → Naming (List Stmt)}
    (hf : ∀ stmts n, Unfolds stmts (f stmts n).1) (stmts : List Stmt) (n : Nat) :
    Unfolds stmts (transformLists f stmts n).1 := by
  have hcalls : ∀ stmts n, delegationsIn (f stmts n).1 = delegationsIn stmts :=
    fun stmts n => (hf stmts n).delegationsIn_eq
  have hnested : ∀ (stmts : List Stmt) (n : Nat),
      Unfolds stmts (Stmt.transformNestedInAll f stmts n).1 := by
    intro stmts
    induction stmts with
    | nil => exact fun _ => .nil
    | cons s rest ih => exact fun n => .cons (part_transformNested hcalls s n) (ih _)
  exact (hnested stmts n).trans (hf _ _)

/-! ## Returned values -/

theorem filter_of_delegationsIn {part : List Stmt} (h : delegationsIn part = []) :
    part.filter Stmt.isDelegation = [] := by
  refine List.filter_eq_nil_iff.mpr fun t ht hd => ?_
  have hmem : t ∈ t.delegations := List.mem_filter.mpr ⟨t.mem_nodes_self, hd⟩
  rw [List.flatMap_eq_nil_iff.mp h t ht] at hmem
  exact absurd hmem List.not_mem_nil

theorem Part.without {s : Stmt} {part : List Stmt} (hs : s.delegations = [])
    (hpart : delegationsIn part = []) : Part s part where
  here := by
    have hself : delegationsIn [s] = [] := by simp [hs]
    rw [filter_of_delegationsIn hpart, filter_of_delegationsIn hself]
  inside := hpart.trans hs.symm

theorem Part.append {s : Stmt} {part more : List Stmt} (h : Part s part)
    (hmore : delegationsIn more = []) : Part s (part ++ more) where
  here := by rw [List.filter_append, filter_of_delegationsIn hmore, List.append_nil, h.here]
  inside := by rw [delegationsIn_append, hmore, List.append_nil, h.inside]

theorem part_extractReturn (keep : Expr → Bool) (type : TypeName) (s : Stmt) (n : Nat) :
    Part s (extractReturn keep type s n).1 := by
  unfold extractReturn
  split
  · split
    · exact .refl _
    · exact .without rfl rfl
  · exact .refl _

theorem unfolds_extracted (keep : Expr → Bool) (decl : MethodDecl) (stmts : List Stmt) (n : Nat) :
    Unfolds stmts (extracted keep decl stmts n).1 := by
  have hlist : ∀ type stmts n, Unfolds stmts (extractReturnsInList keep type stmts n).1 := by
    intro type stmts n
    have h : Unfolds stmts ((stmts.mapM (extractReturn keep type) n).1.flatMap id) :=
      .of_mapM (fun s _ k => part_extractReturn keep type s k) n
    rwa [List.flatMap_id] at h
  rcases extracted_cases keep decl with hpure | ⟨type, hmoved⟩
  · rw [hpure]
    exact .refl stmts
  · rw [hmoved]
    exact unfolds_transformLists (hlist type) stmts n

theorem part_reportReturn (hooks : Hooks) (id : String) (s : Stmt) :
    Part s (reportReturn hooks id s) := by
  unfold reportReturn
  split
  · exact .without rfl rfl
  · exact .refl _

theorem unfolds_reportReturns (hooks : Hooks) (id : String) (stmts : List Stmt) :
    Unfolds stmts (reportReturns hooks id stmts) := by
  have hlists := unfolds_transformLists
    (f := fun stmts => (pure (stmts.flatMap (reportReturn hooks id)) : Naming (List Stmt)))
    (fun stmts _ => .of_flatMap fun s _ => part_reportReturn hooks id s) stmts 0
  rwa [transformLists_pure] at hlists

/-! ## Reports of changes -/

theorem delegations_retarget (loopLabel : Option String) (target : String) (b : Bool) (s : Stmt) :
    (retarget loopLabel target b s).delegations = s.delegations := by
  induction s using Stmt.childInduction generalizing b with
  | step s ih =>
      have hall : ∀ b (stmts : List Stmt), stmts ⊆ s.children →
          delegationsIn (retargetAll loopLabel target b stmts) = delegationsIn stmts :=
        fun b stmts h => by
          rw [retargetAll_eq]
          exact delegationsIn_map fun t ht => ih t (h ht) b
      cases s with
      | block stmts | sync _ stmts => simpa [retarget] using hall b stmts fun _ h => h
      | whileLoop _ body | doWhile body _ | forLoop _ _ _ body | forEach _ _ _ body =>
          simpa [retarget] using ih body (List.mem_singleton.mpr rfl) true
      | labeled label body => simpa [retarget] using ih body (List.mem_singleton.mpr rfl) b
      | ifElse cond ifTrue ifFalse =>
          have hthen := ih ifTrue List.mem_cons_self b
          cases ifFalse with
          | none => simpa [retarget, retargetElse] using hthen
          | some s =>
              have helse := ih s (by simp [Stmt.children]) b
              simp [retarget, retargetElse, hthen, helse]
      | switch selector cases =>
          unfold retarget
          rw [retargetCases_eq]
          exact Stmt.delegations_switch_map (hall b)
      | tryCatch body catches cleanup =>
          have hclean : retargetCleanup loopLabel target b cleanup =
              cleanup.map (retargetAll loopLabel target b) := by
            cases cleanup <;> rfl
          unfold retarget
          rw [retargetCatches_eq, hclean]
          exact Stmt.delegations_tryCatch_map (hall b)
      | continueTo label =>
          cases label with
          | none => cases b <;> rfl
          | some label =>
              unfold retarget
              split <;> rfl
      | decl _ _ _ | expr _ | breakTo _ | ret _ | raise _ | unmodelled _ => rfl

section

variable (hooks : Hooks) (id : String)

theorem delegationsIn_reports (writes : List Write) :
    delegationsIn (reports hooks id writes) = [] :=
  List.flatMap_eq_nil_iff.mpr fun t ht => by
    rcases List.mem_map.mp ht with ⟨write, _, rfl⟩
    rfl

theorem delegationsIn_testInBody (cond : Expr) (writes : List Write) :
    delegationsIn (testInBody hooks id cond writes) = [] := by
  have hleave : (Stmt.breakTo none).delegations = [] := rfl
  simp [testInBody, delegationsIn_reports, hleave]

theorem delegations_prepend {front : List Stmt} (hfront : delegationsIn front = [])
    (body : Stmt) : (prepend front body).delegations = body.delegations := by
  by_cases hne : front = []
  · rw [hne]
    rfl
  · rcases prepend_eq front body hne with ⟨inner, heq, rfl | rfl⟩ <;> rw [heq] <;> simp [hfront]

theorem delegations_placeIf (cond : Expr) (ifTrue : Stmt) (ifFalse : Option Stmt) :
    (placeIf hooks id cond ifTrue ifFalse).delegations =
      ifTrue.delegations ++ delegationsIn ifFalse.toList := by
  have hprepend := fun body => delegations_prepend
    (delegationsIn_reports hooks id (writesIn cond)) body
  unfold placeIf
  simp only
  split
  · exact Stmt.delegations_ifElse _ _ _
  · cases ifFalse <;> simp [hprepend]

theorem delegations_placeWhile (cond : Expr) (body : Stmt) :
    (placeWhile hooks id cond body).delegations = body.delegations := by
  unfold placeWhile
  simp only
  split
  · exact Stmt.delegations_whileLoop _ _
  · rw [Stmt.delegations_whileLoop,
      delegations_prepend (delegationsIn_testInBody hooks id cond _)]

theorem delegations_placeDoWhile (body : Stmt) (cond : Expr) (label : Option String) (n : Nat) :
    (placeDoWhile hooks id body cond label n).1.delegations = body.delegations := by
  cases hw : (writesIn cond).isEmpty with
  | true =>
      rw [placeDoWhile_of_isEmpty hw]
      exact Stmt.delegations_doWhile _ _
  | false =>
      rw [placeDoWhile_of_writes hw]
      simp [delegationsIn_testInBody, delegations_retarget, delegations_asBlock]

theorem delegations_forTest (cond : Option Expr) (body : Stmt) :
    (forTest hooks id cond body).2.delegations = body.delegations := by
  unfold forTest
  split
  · split
    · rfl
    · exact delegations_prepend (delegationsIn_testInBody hooks id _ _) body
  · rfl

structure Placed.Holds (s : Stmt) (placed : Placed) : Prop where
  before : delegationsIn placed.before = []
  stmt : placed.stmt.delegations = s.delegations
  after : delegationsIn placed.after = []

theorem Placed.Holds.alone {s t : Stmt} (h : t.delegations = s.delegations) :
    Placed.Holds s (.alone t) :=
  ⟨rfl, h, rfl⟩

theorem placed_holds (s : Stmt) (n : Nat) : (place hooks id s n).1.Holds s := by
  have hreports := delegationsIn_reports hooks id
  induction s using Stmt.childInduction generalizing n with
  | step s ih =>
      cases s with
      | expr e => exact ⟨rfl, rfl, hreports _⟩
      | decl type ident init =>
          cases init with
          | none => exact .alone rfl
          | some init => exact ⟨rfl, rfl, hreports _⟩
      | ifElse cond ifTrue ifFalse =>
          have helse : delegationsIn (placeElse hooks id ifFalse n).1.toList =
              delegationsIn ifFalse.toList := by
            cases ifFalse with
            | none => rfl
            | some s =>
                rw [placeElse_some]
                split
                · simp [(ih s (by simp [Stmt.children]) n).stmt]
                · rfl
          refine .alone ((delegations_placeIf hooks id cond ifTrue _).trans ?_)
          rw [helse, Stmt.delegations_ifElse]
      | whileLoop cond body =>
          exact .alone ((delegations_placeWhile hooks id cond body).trans
            (Stmt.delegations_whileLoop cond body).symm)
      | doWhile body cond =>
          exact .alone ((delegations_placeDoWhile hooks id body cond none n).trans
            (Stmt.delegations_doWhile body cond).symm)
      | forLoop init cond update body =>
          show (placeFor hooks id init cond update body).Holds _
          rw [placeFor_eq]
          have hbody := delegations_forTest hooks id cond body
          cases init with
          | exprs es => exact .alone (by simp [hbody])
          | decl type ident init =>
              refine ⟨?_, by simp [forStart, hbody], rfl⟩
              exact hreports _
      | forEach type ident items body =>
          refine ⟨rfl, ?_, hreports _⟩
          show (Stmt.forEach type ident items (prepend _ body)).delegations = _
          simp [delegations_prepend (hreports _)]
      | labeled label body =>
          by_cases hdo : ∃ inner cond, body = .doWhile inner cond
          · rcases hdo with ⟨inner, cond, rfl⟩
            rw [place_labeled_doWhile]
            exact .alone (by simp [delegations_placeDoWhile])
          · rw [place_labeled fun inner cond hb => hdo ⟨inner, cond, hb⟩]
            have hbody := ih body (List.mem_singleton_self body) n
            exact ⟨hbody.before, by simp [hbody.stmt], hbody.after⟩
      | switch selector cases => exact ⟨rfl, rfl, hreports _⟩
      | sync lock body => exact .alone (by simp [hreports])
      | block _ | breakTo _ | continueTo _ | ret _ | raise _ | tryCatch _ _ _ | unmodelled _ =>
          exact .alone rfl

theorem part_place (s : Stmt) (n : Nat) : Part s (place hooks id s n).1.stmts := by
  have hplaced := placed_holds hooks id s n
  have hsame := isDelegation_place hooks id s n
  unfold Placed.stmts
  cases hs : s.isDelegation with
  | true =>
      -- nothing stands in front of an expression
      rcases isExpr_of_isDelegation hs with ⟨e, rfl, _⟩
      exact (Part.refl (.expr e)).append hplaced.after
  | false =>
      split
      · have hstmt : Part s [(place hooks id s n).1.stmt] :=
          .single (fun h => by simp [hsame, hs] at h) hsame hplaced.stmt
        exact hstmt.append hplaced.after
      · refine .single (fun h => absurd h Bool.false_ne_true) hs.symm ?_
        simp [hplaced.before, hplaced.stmt, hplaced.after]

theorem unfolds_reportChanges (stmts : List Stmt) (n : Nat) :
    Unfolds stmts (reportChanges hooks id stmts n).1 :=
  unfolds_transformLists
    (fun _ n => .of_mapM (fun s _ k => part_place hooks id s k) n) stmts n

end

/-! ## Bodies -/

/-- The passes that work on the former body unfold it. -/
theorem unfolds_reported (w : Weaver) (s : Session) (body : List Stmt) :
    Unfolds body (w.reported s body) := by
  rcases Weaver.reported_induction (w := w) (s := s) (P := fun stmts _ => Unfolds body stmts)
    (unfolds_normalizeAll body)
    (fun _ _ n h => h.trans (unfolds_extracted _ s.decl _ n))
    (fun _ n h => h.trans (unfolds_reportChanges w.hooks s.id _ n))
    (fun _ _ h => h.trans (unfolds_reportReturns w.hooks s.id _)) with ⟨-, hreported⟩
  exact hreported

end Weave
end TraceWeaving
