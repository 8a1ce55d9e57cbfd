import Mathlib.Algebra.GroupWithZero.Nat
import TraceWeaving.Proofs.Weave.Continues
import TraceWeaving.Proofs.Weave.Starts

/-!
# Counting in woven code

How often something stands in code is the sum of what the single statements count for.
Weaving duplicates reports and rebuilds loops, but the statements that it makes anew count for
nothing, except for those that carry a fresh name: what is added is paid for by the numbers
that are drawn.
-/

namespace TraceWeaving
namespace Weave

open Code

/-- What statements count for by themselves.  The statements behind some of the labels are not
looked into. -/
structure Tally where
  own : Stmt → Nat
  covers : String → Bool
  /-- What the fresh names with numbers below a bound may count for. -/
  fresh : Nat → Nat

namespace Tally

variable (T : Tally)

def covered (s : Stmt) : Bool :=
  (labelOf? s).any T.covers

def total (s : Stmt) : Nat :=
  T.own s + if T.covered s then 0 else (s.children.attach.map fun t => total t.1).sum
termination_by sizeOf s
decreasing_by exact Stmt.sizeOf_lt_of_mem_children t.2

def totalIn (stmts : List Stmt) : Nat :=
  (stmts.map T.total).sum

@[simp]
theorem totalIn_nil : T.totalIn [] = 0 :=
  rfl

@[simp]
theorem totalIn_cons (s : Stmt) (rest : List Stmt) :
    T.totalIn (s :: rest) = T.total s + T.totalIn rest :=
  rfl

@[simp]
theorem totalIn_append (xs ys : List Stmt) :
    T.totalIn (xs ++ ys) = T.totalIn xs + T.totalIn ys := by
  unfold totalIn
  rw [List.map_append, List.sum_append]

theorem total_eq (s : Stmt) :
    T.total s = T.own s + if T.covered s then 0 else T.totalIn s.children := by
  have hattach : s.children.attach.map (fun t => T.total t.1) = s.children.map T.total := by
    rw [List.attach_map_val]
  unfold totalIn
  rw [← hattach, total]

theorem total_of_covered {s : Stmt} (h : T.covered s = true) : T.total s = T.own s := by
  simp [total_eq, h]

theorem total_of_not {s : Stmt} (h : T.covered s = false) :
    T.total s = T.own s + T.totalIn s.children := by
  simp [total_eq, h]

theorem total_labeled (label : String) (body : Stmt) :
    T.total (.labeled label body) =
      T.own (.labeled label body) + if T.covers label then 0 else T.total body := by
  rw [total_eq]
  rfl

theorem covered_head (s : Stmt) : T.covered s.head = T.covered s := by
  unfold covered
  rw [labelOf?_head]

theorem totalIn_of_zero {stmts : List Stmt} (h : ∀ s ∈ stmts, T.total s = 0) :
    T.totalIn stmts = 0 := by
  induction stmts with
  | nil => rfl
  | cons s rest ih =>
      rw [totalIn_cons, h s List.mem_cons_self,
        ih fun t ht => h t (List.mem_cons_of_mem s ht)]

theorem total_eq_zero_of_mem {stmts : List Stmt} (h : T.totalIn stmts = 0) :
    ∀ s ∈ stmts, T.total s = 0 := by
  induction stmts with
  | nil => exact fun _ hs => absurd hs List.not_mem_nil
  | cons t rest ih =>
      rw [totalIn_cons] at h
      intro s hs
      rcases List.mem_cons.mp hs with rfl | hs
      · omega
      · exact ih (by omega) s hs

theorem total_eq_zero {s : Stmt} (h : s.Every fun t => T.own t = 0) : T.total s = 0 := by
  induction s using Stmt.childInduction with
  | step s ih =>
      have hinside := T.totalIn_of_zero fun t ht => ih t ht (h.child ht)
      rw [total_eq, h.here, hinside]
      split <;> rfl

theorem totalIn_eq_zero {stmts : List Stmt} (h : Stmt.EveryIn (fun t => T.own t = 0) stmts) :
    T.totalIn stmts = 0 :=
  T.totalIn_of_zero fun s hs => T.total_eq_zero (h s hs)

theorem totalIn_eq_sum_of_forall {stmts : List Stmt}
    (h : ∀ s ∈ stmts, T.total s = (s.nodes.map T.own).sum) :
    T.totalIn stmts = ((stmts.flatMap Stmt.nodes).map T.own).sum := by
  induction stmts with
  | nil => rfl
  | cons s rest ih =>
      rw [totalIn_cons, h s List.mem_cons_self, ih fun t ht => h t (List.mem_cons_of_mem s ht),
        List.flatMap_cons, List.map_append, List.sum_append]

/-- When no label covers its statement, all statements inside count. -/
theorem total_eq_sum (hT : ∀ label, T.covers label = false) (s : Stmt) :
    T.total s = (s.nodes.map T.own).sum := by
  induction s using Stmt.childInduction with
  | step s ih =>
      have hcovered : T.covered s = false := by
        unfold covered
        cases labelOf? s with
        | none => rfl
        | some label => exact hT label
      rw [total_of_not T hcovered, totalIn_eq_sum_of_forall T ih, Stmt.nodes, Stmt.inner_eq,
        List.map_cons, List.sum_cons]

theorem totalIn_eq_sum (hT : ∀ label, T.covers label = false) (stmts : List Stmt) :
    T.totalIn stmts = ((stmts.flatMap Stmt.nodes).map T.own).sum :=
  T.totalIn_eq_sum_of_forall fun s _ => total_eq_sum T hT s

/-- What is added in going from one number to a later one is paid for by the names in
between. -/
structure Pays (before n after k : Nat) : Prop where
  le : n ≤ k
  bound : after + T.fresh n ≤ before + T.fresh k

variable {T}

namespace Pays

variable {a a' b b' c n m k : Nat}

theorem refl (a n : Nat) : T.Pays a n a n :=
  ⟨Nat.le_refl n, Nat.le_refl _⟩

theorem trans (h : T.Pays a n b m) (h' : T.Pays b m c k) : T.Pays a n c k where
  le := Nat.le_trans h.le h'.le
  bound := by
    have := h.bound
    have := h'.bound
    omega

theorem andThen (h : T.Pays a n a' m) (h' : T.Pays b m b' k) :
    T.Pays (a + b) n (a' + b') k where
  le := Nat.le_trans h.le h'.le
  bound := by
    have := h.bound
    have := h'.bound
    omega

theorem addLeft (h : T.Pays a n b k) (c : Nat) : T.Pays (c + a) n (c + b) k :=
  (refl c n).andThen h

theorem of_le (h : b ≤ a) (n : Nat) : T.Pays a n b n :=
  ⟨Nat.le_refl n, Nat.add_le_add_right h _⟩

end Pays

/-! ## Going through the lists of a body -/

section

variable {f : List Stmt → Naming (List Stmt)}

theorem pays_transformNestedInAll {stmts : List Stmt}
    (hs : ∀ s ∈ stmts, ∀ n, T.Pays (T.total s) n (T.total (Stmt.transformNested f s n).1)
      (Stmt.transformNested f s n).2) (n : Nat) :
    T.Pays (T.totalIn stmts) n (T.totalIn (Stmt.transformNestedInAll f stmts n).1)
      (Stmt.transformNestedInAll f stmts n).2 := by
  induction stmts generalizing n with
  | nil => exact .refl 0 n
  | cons s rest ih =>
      exact (hs s List.mem_cons_self n).andThen
        (ih (fun s' hs' => hs s' (List.mem_cons_of_mem s hs')) _)

variable (hf : ∀ stmts n, T.Pays (T.totalIn stmts) n (T.totalIn (f stmts n).1) (f stmts n).2)

include hf

theorem pays_transformListsOf {stmts : List Stmt}
    (hs : ∀ s ∈ stmts, ∀ n, T.Pays (T.total s) n (T.total (Stmt.transformNested f s n).1)
      (Stmt.transformNested f s n).2) (n : Nat) :
    T.Pays (T.totalIn stmts) n (T.totalIn (transformLists f stmts n).1)
      (transformLists f stmts n).2 :=
  (pays_transformNestedInAll hs n).trans (hf _ _)

theorem pays_transformCases {cases : List SwitchCase}
    (hs : ∀ c ∈ cases, ∀ s ∈ c.body, ∀ n, T.Pays (T.total s) n
      (T.total (Stmt.transformNested f s n).1) (Stmt.transformNested f s n).2) (n : Nat) :
    T.Pays (T.totalIn (cases.flatMap SwitchCase.body)) n
      (T.totalIn ((Stmt.transformCases f cases n).1.flatMap SwitchCase.body))
      (Stmt.transformCases f cases n).2 := by
  induction cases generalizing n with
  | nil => exact .refl 0 n
  | cons c rest ih =>
      cases c with
      | mk labels body =>
          have hbody := pays_transformListsOf hf (hs (.mk labels body) List.mem_cons_self) n
          have hrest := ih (fun c' hc' => hs c' (List.mem_cons_of_mem _ hc'))
            (transformLists f body n).2
          have h := hbody.andThen hrest
          rw [← totalIn_append, ← totalIn_append] at h
          exact h

theorem pays_transformCatches {catches : List CatchClause}
    (hs : ∀ c ∈ catches, ∀ s ∈ c.body, ∀ n, T.Pays (T.total s) n
      (T.total (Stmt.transformNested f s n).1) (Stmt.transformNested f s n).2) (n : Nat) :
    T.Pays (T.totalIn (catches.flatMap CatchClause.body)) n
      (T.totalIn ((Stmt.transformCatches f catches n).1.flatMap CatchClause.body))
      (Stmt.transformCatches f catches n).2 := by
  induction catches generalizing n with
  | nil => exact .refl 0 n
  | cons c rest ih =>
      cases c with
      | mk type ident body =>
          have hbody := pays_transformListsOf hf (hs (.mk type ident body) List.mem_cons_self) n
          have hrest := ih (fun c' hc' => hs c' (List.mem_cons_of_mem _ hc'))
            (transformLists f body n).2
          have h := hbody.andThen hrest
          rw [← totalIn_append, ← totalIn_append] at h
          exact h

theorem pays_transformCleanup {cleanup : Option (List Stmt)}
    (hs : ∀ s ∈ cleanup.getD [], ∀ n, T.Pays (T.total s) n
      (T.total (Stmt.transformNested f s n).1) (Stmt.transformNested f s n).2) (n : Nat) :
    T.Pays (T.totalIn (cleanup.getD [])) n
      (T.totalIn ((Stmt.transformCleanup f cleanup n).1.getD []))
      (Stmt.transformCleanup f cleanup n).2 := by
  cases cleanup with
  | none => exact .refl 0 n
  | some stmts => exact pays_transformListsOf hf hs n

theorem pays_children {s : Stmt}
    (hs : ∀ t ∈ s.children, ∀ n, T.Pays (T.total t) n (T.total (Stmt.transformNested f t n).1)
      (Stmt.transformNested f t n).2) (n : Nat) :
    T.Pays (T.totalIn s.children) n (T.totalIn (Stmt.transformNested f s n).1.children)
      (Stmt.transformNested f s n).2 := by
  cases s with
  | block stmts | sync _ stmts => exact pays_transformListsOf hf hs n
  | whileLoop _ body | doWhile body _ | forLoop _ _ _ body | forEach _ _ _ body
  | labeled _ body => exact hs body (List.mem_singleton.mpr rfl) n
  | ifElse cond ifTrue ifFalse =>
      have hthen := hs ifTrue List.mem_cons_self n
      cases ifFalse with
      | none => exact hthen
      | some s =>
          exact hthen.andThen (hs s (by simp [Stmt.children]) (Stmt.transformNested f ifTrue n).2)
  | switch selector cases =>
      exact pays_transformCases hf (fun c hc s h => hs s (List.mem_flatMap.mpr ⟨c, hc, h⟩)) n
  | tryCatch body catches cleanup =>
      have hbody := pays_transformListsOf hf
        (fun t ht => hs t (List.mem_append_left _ (List.mem_append_left _ ht))) n
      have hcatches := pays_transformCatches hf
        (fun c hc t ht => hs t (List.mem_append_left _ (List.mem_append_right _
          (List.mem_flatMap.mpr ⟨c, hc, ht⟩)))) (transformLists f body n).2
      have hclean := pays_transformCleanup hf (fun t ht => hs t (List.mem_append_right _ ht))
        (Stmt.transformCatches f catches (transformLists f body n).2).2
      have h := (hbody.andThen hcatches).andThen hclean
      rw [← totalIn_append, ← totalIn_append, ← totalIn_append, ← totalIn_append] at h
      exact h
  | decl _ _ _ | expr _ | breakTo _ | continueTo _ | ret _ | raise _ | unmodelled _ =>
      exact .refl _ n

end

/-! ## Tallies of fresh names -/

/-- A statement of a kind that the passes make without a fresh name. -/
def isPlain : Stmt → Bool
  | .block _ | .expr _ | .ret _ | .ifElse _ _ _ | .whileLoop _ _ | .breakTo none
  | .forLoop (.exprs _) _ _ _ => true
  | _ => false

variable (T) in
/-- Only what carries a fresh name counts among the statements that the passes make. -/
structure Lawful : Prop where
  mono : ∀ {n k : Nat}, n ≤ k → T.fresh n ≤ T.fresh k
  head : ∀ s : Stmt, T.own s.head = T.own s
  plain : ∀ {s : Stmt}, isPlain s = true → T.own s = 0
  start : ∀ {type : TypeName} {ident : String} {init : Expr} (cond : Option Expr)
    (update : List Expr) (body : Stmt),
      T.own (.declare type ident init) ≤ T.own (.forLoop (.decl type ident init) cond update body)
  covered : ∀ {label : String}, T.covers label = true → ∀ (type : TypeName) (ident : String)
    (init : Expr), T.own (.declare type ident init) = 0
  result : ∀ (type : TypeName) (value : Expr) (n : Nat),
    T.own (.declare type (reservedName "return" n) value) + T.fresh n ≤ T.fresh (n + 1)
  iteration : ∀ (n : Nat) (body : Stmt),
    T.own (.labeled (reservedName "iteration" n) body) + T.fresh n ≤ T.fresh (n + 1)
  next : ∀ n : Nat, T.covers (reservedName "iteration" n) = false →
    T.own (.breakTo (some (reservedName "iteration" n))) = 0

namespace Lawful

variable (hT : T.Lawful)

include hT

theorem own_of_head {s t : Stmt} (h : t.head = s.head) : T.own t = T.own s := by
  rw [← hT.head t, h, hT.head s]

omit hT in
theorem covered_of_head {s t : Stmt} (h : t.head = s.head) : T.covered t = T.covered s := by
  rw [← T.covered_head t, h, T.covered_head s]

theorem pays_transformNested {f : List Stmt → Naming (List Stmt)}
    (hf : ∀ stmts n, T.Pays (T.totalIn stmts) n (T.totalIn (f stmts n).1) (f stmts n).2)
    (s : Stmt) (n : Nat) :
    T.Pays (T.total s) n (T.total (Stmt.transformNested f s n).1)
      (Stmt.transformNested f s n).2 := by
  induction s using Stmt.childInduction generalizing n with
  | step s ih =>
      have hhead := head_transformNested (f := f) s n
      have hown := hT.own_of_head hhead
      have hsame := covered_of_head (T := T) hhead
      have hchildren := pays_children hf ih n
      cases hc : T.covered s with
      | true =>
          rw [total_of_covered T hc, total_of_covered T (hsame.trans hc), hown]
          exact ⟨hchildren.le, Nat.add_le_add_left (hT.mono hchildren.le) _⟩
      | false =>
          rw [total_of_not T hc, total_of_not T (hsame.trans hc), hown]
          exact hchildren.addLeft _

theorem pays_transformLists {f : List Stmt → Naming (List Stmt)}
    (hf : ∀ stmts n, T.Pays (T.totalIn stmts) n (T.totalIn (f stmts n).1) (f stmts n).2)
    (stmts : List Stmt) (n : Nat) :
    T.Pays (T.totalIn stmts) n (T.totalIn (transformLists f stmts n).1)
      (transformLists f stmts n).2 :=
  pays_transformListsOf hf (fun s _ => hT.pays_transformNested hf s) n

omit hT in
theorem pays_mapM {β : Type} {g : Stmt → Naming β} {out : β → List Stmt} (stmts : List Stmt)
    (hg : ∀ s n, T.Pays (T.total s) n (T.totalIn (out (g s n).1)) (g s n).2) (n : Nat) :
    T.Pays (T.totalIn stmts) n (T.totalIn ((stmts.mapM g n).1.flatMap out))
      (stmts.mapM g n).2 := by
  induction stmts generalizing n with
  | nil => exact .refl 0 n
  | cons s rest ih =>
      have h := (hg s n).andThen (ih (g s n).2)
      rw [List.mapM_cons, totalIn_cons]
      rw [← totalIn_append] at h
      exact h

/-! ### Returned values -/

theorem total_plain {s : Stmt} (hs : isPlain s = true) : T.total s = T.totalIn s.children := by
  have hcovered : T.covered s = false := by
    unfold Tally.covered
    cases s <;> simp_all [isPlain, labelOf?]
  rw [total_of_not T hcovered, hT.plain hs, Nat.zero_add]

omit hT in
theorem total_declare (type : TypeName) (ident : String) (init : Expr) :
    T.total (.declare type ident init) = T.own (.declare type ident init) :=
  total_of_not T rfl

theorem pays_extractReturn (keep : Expr → Bool) (type : TypeName) (s : Stmt) (n : Nat) :
    T.Pays (T.total s) n (T.totalIn (extractReturn keep type s n).1)
      (extractReturn keep type s n).2 := by
  unfold extractReturn
  split
  · rename_i value
    have hret : ∀ value, T.total (.retValue value) = 0 := fun value => hT.total_plain rfl
    split
    · exact .refl _ n
    · refine ⟨Nat.le_succ n, ?_⟩
      have hdraw := hT.result type value n
      show T.total (.declare type (reservedName "return" n) value) +
        (T.total (.retValue (.name (reservedName "return" n))) + 0) + T.fresh n ≤
          T.total (.retValue value) + T.fresh (n + 1)
      rw [total_declare, hret, hret]
      omega
  · exact .refl _ n

theorem pays_extracted (keep : Expr → Bool) (decl : MethodDecl) (stmts : List Stmt) (n : Nat) :
    T.Pays (T.totalIn stmts) n (T.totalIn (extracted keep decl stmts n).1)
      (extracted keep decl stmts n).2 := by
  have hlist : ∀ type stmts n, T.Pays (T.totalIn stmts) n
      (T.totalIn (extractReturnsInList keep type stmts n).1)
      (extractReturnsInList keep type stmts n).2 := by
    intro type stmts n
    have h : T.Pays (T.totalIn stmts) n
        (T.totalIn ((stmts.mapM (extractReturn keep type) n).1.flatMap id)) _ :=
      pays_mapM stmts (hT.pays_extractReturn keep type) n
    rw [List.flatMap_id] at h
    exact h
  rcases extracted_cases keep decl with hpure | ⟨type, hmoved⟩
  · rw [hpure]
    exact .refl _ n
  · rw [hmoved]
    exact hT.pays_transformLists (hlist type) stmts n

theorem totalIn_reportReturn (hooks : Hooks) (id : String) (s : Stmt) :
    T.totalIn (reportReturn hooks id s) = T.total s := by
  unfold reportReturn
  split
  · rename_i value
    have hreport : T.total (hooks.returning id value) = 0 := hT.total_plain rfl
    rw [totalIn_cons, hreport, Nat.zero_add]
    rfl
  · rfl

theorem pays_reportReturns (hooks : Hooks) (id : String) (stmts : List Stmt) (n : Nat) :
    T.Pays (T.totalIn stmts) n (T.totalIn (reportReturns hooks id stmts)) n := by
  have hlist : ∀ stmts, T.totalIn (stmts.flatMap (reportReturn hooks id)) = T.totalIn stmts := by
    intro stmts
    induction stmts with
    | nil => rfl
    | cons s rest ih =>
        rw [List.flatMap_cons, totalIn_append, hT.totalIn_reportReturn, ih, totalIn_cons]
  have h := hT.pays_transformLists
    (f := fun stmts => (pure (stmts.flatMap (reportReturn hooks id)) : Naming (List Stmt)))
    (fun stmts n => .of_le (Nat.le_of_eq (hlist stmts)) n) stmts n
  rw [transformLists_pure] at h
  exact h

/-! ### Reports of changes -/

theorem total_retarget {label : Option String} {target : String}
    (htarget : T.own (.breakTo (some target)) = 0) (b : Bool) (s : Stmt) :
    T.total (retarget label target b s) ≤ T.total s := by
  have hbreak : T.total (.breakTo (some target)) = 0 := (total_of_not T rfl).trans htarget
  induction s using Stmt.childInduction generalizing b with
  | step s ih =>
      by_cases hs : ∃ label, s = .continueTo label
      · rcases hs with ⟨l, rfl⟩
        rw [retarget_continueTo]
        split
        · rw [hbreak]
          exact Nat.zero_le _
        · exact Nat.le_refl _
      · have hkind : (retarget label target b s).head = s.head ∨ _ := head_retarget b s
        rcases hkind with hhead | heq
        · have hchildren := children_retarget label target b fun l h => hs ⟨l, h⟩
          have hinside : ∀ stmts : List Stmt, stmts ⊆ s.children →
              T.totalIn (stmts.map (retarget label target (b || s.isLoop))) ≤
                T.totalIn stmts := by
            intro stmts
            induction stmts with
            | nil => exact fun _ => Nat.le_refl 0
            | cons t rest ihrest =>
                intro hsub
                exact Nat.add_le_add (ih t (hsub List.mem_cons_self) _)
                  (ihrest fun _ hx => hsub (List.mem_cons_of_mem t hx))
          rw [total_eq, total_eq T s, hT.own_of_head hhead, covered_of_head hhead, hchildren]
          split
          · exact Nat.le_refl _
          · exact Nat.add_le_add_left (hinside _ fun _ hx => hx) _
        · rw [heq, hbreak]
          exact Nat.zero_le _

theorem total_block (stmts : List Stmt) : T.total (.block stmts) = T.totalIn stmts :=
  hT.total_plain rfl

theorem total_asBlock (s : Stmt) : T.total (asBlock s) = T.total s := by
  unfold asBlock
  split
  · rfl
  · exact hT.total_block [s]

theorem totalIn_reports (hooks : Hooks) (id : String) (writes : List Write) :
    T.totalIn (reports hooks id writes) = 0 := by
  refine T.totalIn_eq_zero fun s hs => ?_
  rcases List.mem_map.mp hs with ⟨write, _, rfl⟩
  exact (Stmt.every_leaf rfl).mpr (hT.plain rfl)

theorem totalIn_testInBody (hooks : Hooks) (id : String) (cond : Expr) (writes : List Write) :
    T.totalIn (testInBody hooks id cond writes) = 0 := by
  have hleave : T.total (.breakTo none) = 0 := hT.total_plain rfl
  have hreports := hT.totalIn_reports hooks id writes
  unfold testInBody
  rw [totalIn_cons, hreports, hT.total_plain rfl]
  simp [Stmt.children, hT.total_block, hreports, hleave]

theorem total_prepend {front : List Stmt} (hfront : T.totalIn front = 0) (body : Stmt) :
    T.total (prepend front body) = T.total body := by
  by_cases hne : front = []
  · rw [hne]
    rfl
  · rcases prepend_eq front body hne with ⟨inner, heq, rfl | rfl⟩ <;>
      rw [heq, hT.total_block, totalIn_append, hfront]
    · rw [hT.total_block, Nat.zero_add]
    · exact Nat.zero_add _

section

variable (hooks : Hooks) (id : String)

theorem total_placeIf (cond : Expr) (ifTrue : Stmt) (ifFalse : Option Stmt) :
    T.total (placeIf hooks id cond ifTrue ifFalse) = T.total (.ifElse cond ifTrue ifFalse) := by
  have hprepend := hT.total_prepend (hT.totalIn_reports hooks id (writesIn cond))
  unfold placeIf
  simp only
  split
  · rfl
  · rw [hT.total_plain rfl, hT.total_plain rfl]
    cases ifFalse <;> simp [Stmt.children, hprepend, hT.total_block]

theorem total_placeWhile (cond : Expr) (body : Stmt) :
    T.total (placeWhile hooks id cond body) = T.total (.whileLoop cond body) := by
  unfold placeWhile
  simp only
  split
  · rfl
  · rw [hT.total_plain rfl, hT.total_plain rfl]
    exact congrArg (· + 0) (hT.total_prepend (hT.totalIn_testInBody hooks id cond _) body)

theorem pays_placeDoWhile (body : Stmt) (cond : Expr) (label : Option String) (n : Nat) :
    T.Pays (T.total (.doWhile body cond)) n
      (T.total (placeDoWhile hooks id body cond label n).1)
      (placeDoWhile hooks id body cond label n).2 := by
  cases hw : (writesIn cond).isEmpty with
  | true =>
      rw [placeDoWhile_of_isEmpty hw]
      exact .refl _ n
  | false =>
      rw [placeDoWhile_of_writes hw]
      refine ⟨Nat.le_succ n, ?_⟩
      have hlabel := hT.iteration n
        (retarget label (reservedName "iteration" n) false (asBlock body))
      have hbody : T.total (.labeled (reservedName "iteration" n)
            (retarget label (reservedName "iteration" n) false (asBlock body))) ≤
          T.own (.labeled (reservedName "iteration" n)
            (retarget label (reservedName "iteration" n) false (asBlock body))) + T.total body := by
        rw [total_labeled]
        refine Nat.add_le_add_left ?_ _
        cases hc : T.covers (reservedName "iteration" n) with
        | true => exact Nat.zero_le _
        | false =>
            have hle : T.total (retarget label _ false (asBlock body)) ≤ _ :=
              hT.total_retarget (hT.next n hc) false (asBlock body)
            rwa [hT.total_asBlock] at hle
      have htest := hT.totalIn_testInBody hooks id cond (writesIn cond)
      have hloop : T.total (.doWhile body cond) = T.own (.doWhile body cond) + T.total body :=
        (total_of_not T rfl).trans rfl
      rw [hT.total_plain rfl, hloop]
      simp only [Stmt.children, totalIn_cons, totalIn_nil, hT.total_block, htest]
      omega

theorem total_forTest (cond : Option Expr) (body : Stmt) :
    T.total (forTest hooks id cond body).2 = T.total body := by
  unfold forTest
  split
  · split
    · rfl
    · exact hT.total_prepend (hT.totalIn_testInBody hooks id _ _) body
  · rfl

end

end Lawful

def ofPlaced (T : Tally) (placed : Placed) : Nat :=
  T.totalIn placed.before + T.total placed.stmt + T.totalIn placed.after

theorem ofPlaced_alone (s : Stmt) : T.ofPlaced (.alone s) = T.total s := by
  simp [ofPlaced, Placed.alone]

namespace Lawful

variable (hT : T.Lawful) (hooks : Hooks) (id : String)

include hT

theorem ofPlaced_followedBy (s : Stmt) (writes : List Write) :
    T.ofPlaced (.followedBy s (reports hooks id writes)) = T.total s := by
  simp [ofPlaced, Placed.followedBy, hT.totalIn_reports]

theorem totalIn_stmts (placed : Placed) : T.totalIn placed.stmts = T.ofPlaced placed := by
  unfold Placed.stmts ofPlaced
  split
  · rename_i hbefore
    simp [List.isEmpty_iff.mp hbefore]
  · simp [hT.total_block, Nat.add_assoc]

/-- Behind a label that covers its statement nothing is declared that counts. -/
theorem totalIn_around {label : String} (hl : T.covers label = true) (s : Stmt) (n : Nat) :
    T.totalIn (place hooks id s n).1.before = 0 ∧ T.totalIn (place hooks id s n).1.after = 0 := by
  induction s using Stmt.childInduction generalizing n with
  | step s ih =>
      have hreports := hT.totalIn_reports hooks id
      cases s with
      | forLoop init cond update body =>
          show T.totalIn (placeFor hooks id init cond update body).before = 0 ∧
            T.totalIn (placeFor hooks id init cond update body).after = 0
          rw [placeFor_eq]
          cases init with
          | exprs es => exact ⟨rfl, rfl⟩
          | decl type ident init =>
              refine ⟨?_, rfl⟩
              show T.total (.declare type ident init) + T.totalIn (reports hooks id _) = 0
              rw [total_declare, hT.covered hl, hreports]
      | labeled label body =>
          by_cases hdo : ∃ inner cond, body = .doWhile inner cond
          · rcases hdo with ⟨inner, cond, rfl⟩
            exact ⟨rfl, rfl⟩
          · rw [place_labeled fun inner cond hb => hdo ⟨inner, cond, hb⟩]
            exact ih body (List.mem_singleton_self body) n
      | decl type ident init =>
          cases init with
          | none => exact ⟨rfl, rfl⟩
          | some init => exact ⟨rfl, hreports _⟩
      | expr _ | forEach _ _ _ _ | switch _ _ => exact ⟨rfl, hreports _⟩
      | block _ | ifElse _ _ _ | whileLoop _ _ | doWhile _ _ | breakTo _ | continueTo _ | ret _
      | raise _ | tryCatch _ _ _ | sync _ _ | unmodelled _ => exact ⟨rfl, rfl⟩

theorem ofPlaced_placeFor (init : ForInit) (cond : Option Expr) (update : List Expr)
    (body : Stmt) :
    T.ofPlaced (placeFor hooks id init cond update body) ≤
      T.total (.forLoop init cond update body) := by
  have hbody := hT.total_forTest hooks id cond body
  rw [placeFor_eq]
  cases init with
  | exprs es =>
      refine Nat.le_of_eq ((ofPlaced_alone _).trans ?_)
      rw [hT.total_plain rfl, hT.total_plain rfl]
      exact congrArg (· + 0) hbody
  | decl type ident init =>
      have hstart : T.own (.declare type ident init) ≤ _ := hT.start cond update body
      have hloop : T.total (.forLoop (.decl type ident init) cond update body) =
          T.own (.forLoop (.decl type ident init) cond update body) + T.total body :=
        (total_of_not T rfl).trans rfl
      have hinner : ∀ cond' update', T.total (.forLoop (.exprs []) cond' update'
          (forTest hooks id cond body).2) = T.total body := by
        intro cond' update'
        rw [hT.total_plain rfl]
        exact hbody
      have hreports := hT.totalIn_reports hooks id (writesIn init ++ [Write.ofVariable ident])
      rw [hloop]
      simp only [ofPlaced, forStart, totalIn_cons, totalIn_nil, total_declare, hreports, hinner]
      omega

omit hooks id in
theorem pays_labeled {label : String} {body : Stmt} {placed : Placed} {n k : Nat}
    (h : T.Pays (T.total body) n (T.ofPlaced placed) k)
    (haround : T.covers label = true → T.totalIn placed.before = 0 ∧ T.totalIn placed.after = 0) :
    T.Pays (T.total (.labeled label body)) n
      (T.ofPlaced ⟨placed.before, .labeled label placed.stmt, placed.after⟩) k := by
  have hown : T.own (.labeled label placed.stmt) = T.own (.labeled label body) :=
    hT.own_of_head rfl
  have hbound := h.bound
  have hmono := hT.mono h.le
  refine ⟨h.le, ?_⟩
  unfold ofPlaced at hbound ⊢
  rw [total_labeled, total_labeled, hown]
  cases hc : T.covers label with
  | true =>
      rw [(haround hc).1, (haround hc).2]
      simp only [if_true]
      omega
  | false =>
      simp only [Bool.false_eq_true, if_false]
      omega

theorem pays_place (s : Stmt) (n : Nat) :
    T.Pays (T.total s) n (T.ofPlaced (place hooks id s n).1) (place hooks id s n).2 := by
  induction s using Stmt.childInduction generalizing n with
  | step s ih =>
      cases s with
      | expr e => exact .of_le (Nat.le_of_eq (hT.ofPlaced_followedBy hooks id _ _)) n
      | decl type ident init =>
          cases init with
          | none => exact .of_le (Nat.le_of_eq (ofPlaced_alone _)) n
          | some init => exact .of_le (Nat.le_of_eq (hT.ofPlaced_followedBy hooks id _ _)) n
      | ifElse cond ifTrue ifFalse =>
          have helse : T.Pays (T.totalIn ifFalse.toList) n
              (T.totalIn (placeElse hooks id ifFalse n).1.toList)
              (placeElse hooks id ifFalse n).2 := by
            cases ifFalse with
            | none => exact .refl 0 n
            | some s =>
                have hs := ih s (by simp [Stmt.children]) n
                rw [placeElse_some]
                split
                · refine ⟨hs.le, Nat.le_trans (Nat.add_le_add_right ?_ _) hs.bound⟩
                  simp only [ofPlaced, Option.toList_some, totalIn_cons, totalIn_nil]
                  omega
                · exact .refl _ n
          show T.Pays _ n (T.ofPlaced (.alone (placeIf hooks id cond ifTrue _))) _
          rw [ofPlaced_alone, hT.total_placeIf, hT.total_plain rfl, hT.total_plain rfl]
          exact helse.addLeft _
      | whileLoop cond body =>
          refine .of_le (Nat.le_of_eq ?_) n
          exact (ofPlaced_alone _).trans (hT.total_placeWhile hooks id cond body)
      | doWhile body cond =>
          show T.Pays _ n (T.ofPlaced (.alone (placeDoWhile hooks id body cond none n).1)) _
          rw [ofPlaced_alone]
          exact hT.pays_placeDoWhile hooks id body cond none n
      | forLoop init cond update body =>
          exact .of_le (hT.ofPlaced_placeFor hooks id init cond update body) n
      | forEach type ident items body =>
          have hfront := hT.totalIn_reports hooks id [Write.ofVariable ident]
          refine .of_le (Nat.le_of_eq ((hT.ofPlaced_followedBy hooks id _ _).trans ?_)) n
          have hown := hT.own_of_head (s := .forEach type ident items body)
            (t := .forEach type ident items
              (prepend (reports hooks id [Write.ofVariable ident]) body)) rfl
          rw [total_of_not T rfl, total_of_not T rfl, hown]
          simp [Stmt.children, hT.total_prepend hfront]
      | labeled label body =>
          by_cases hdo : ∃ inner cond, body = .doWhile inner cond
          · rcases hdo with ⟨inner, cond, rfl⟩
            have hloop : T.Pays (T.total (.doWhile inner cond)) n
                (T.ofPlaced (.alone (placeDoWhile hooks id inner cond (some label) n).1))
                (placeDoWhile hooks id inner cond (some label) n).2 := by
              rw [ofPlaced_alone]
              exact hT.pays_placeDoWhile hooks id inner cond (some label) n
            exact hT.pays_labeled hloop fun _ => ⟨rfl, rfl⟩
          · rw [place_labeled fun inner cond hb => hdo ⟨inner, cond, hb⟩]
            exact hT.pays_labeled (ih body (List.mem_singleton_self body) n) fun hc =>
              hT.totalIn_around hooks id hc body n
      | switch selector cases =>
          exact .of_le (Nat.le_of_eq (hT.ofPlaced_followedBy hooks id _ _)) n
      | sync lock body =>
          refine .of_le (Nat.le_of_eq ((ofPlaced_alone _).trans ?_)) n
          have hown := hT.own_of_head (s := .sync lock body)
            (t := .sync lock (reports hooks id (writesIn lock) ++ body)) rfl
          rw [total_of_not T rfl, total_of_not T rfl, hown]
          simp [Stmt.children, hT.totalIn_reports]
      | block _ | breakTo _ | continueTo _ | ret _ | raise _ | tryCatch _ _ _ | unmodelled _ =>
          exact .of_le (Nat.le_of_eq (ofPlaced_alone _)) n

theorem pays_reportChanges (stmts : List Stmt) (n : Nat) :
    T.Pays (T.totalIn stmts) n (T.totalIn (reportChanges hooks id stmts n).1)
      (reportChanges hooks id stmts n).2 := by
  refine hT.pays_transformLists (fun stmts n => ?_) stmts n
  refine pays_mapM stmts (fun s n => ?_) n
  rw [hT.totalIn_stmts]
  exact hT.pays_place hooks id s n

/-! ## Bodies -/

omit hooks id in
/-- What the passes add to a body is paid for by the numbers that they draw, from the first
one on. -/
theorem totalIn_reported (w : Weaver) (s : Session) (body : List Stmt) :
    ∃ k, T.Pays (T.totalIn (normalizeAll body)) 0 (T.totalIn (w.reported s body)) k := by
  apply Weaver.reported_induction (w := w) (s := s)
    (P := fun stmts n => T.Pays (T.totalIn (normalizeAll body)) 0 (T.totalIn stmts) n)
  · exact .refl _ 0
  · exact fun _ _ n h => h.trans (hT.pays_extracted _ s.decl _ n)
  · exact fun _ n h => h.trans (hT.pays_reportChanges w.hooks s.id _ n)
  · exact fun _ n h => h.trans (hT.pays_reportReturns w.hooks s.id _ n)

end Lawful

end Tally
end Weave
end TraceWeaving
