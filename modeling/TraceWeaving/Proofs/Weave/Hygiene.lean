import Mathlib.Algebra.BigOperators.Group.List.Basic
import TraceWeaving.Proofs.Weave.Canonical
import TraceWeaving.Proofs.Weave.Settling
import TraceWeaving.Proofs.Weave.Tallies

/-!
# Fresh names stay apart

Two rewritings draw numbers, in two passes, and all of them build new code around code that has
fresh names already.  Nevertheless every number is used for one name, a returned value is
declared once and used behind its declaration only, an iteration is one block that all jumps to
it stand in, and the variable of an error stays in the clause that binds it.
-/

namespace TraceWeaving

namespace Code

def collectIn {α : Type} (g : Stmt → List α) (stmts : List Stmt) : List α :=
  (stmts.flatMap Stmt.nodes).flatMap g

/-- The variables that are declared, in source order; catch clauses aside. -/
def localsIn (stmts : List Stmt) : List String :=
  collectIn Stmt.declared stmts

def clausesIn (stmts : List Stmt) : List CatchClause :=
  collectIn Stmt.clauses stmts

end Code

namespace Weave

open Code

def labelsIn (stmts : List Stmt) : List String :=
  collectIn (fun s => (labelOf? s).toList) stmts

def jumpsTo (label : String) (s : Stmt) : Bool :=
  jumpOf? s = some label

def jumpsIn (label : String) (stmts : List Stmt) : Nat :=
  (stmts.flatMap Stmt.nodes).countP (jumpsTo label)

structure Unreserved (m : MethodDecl) : Prop where
  params : ∀ p ∈ m.params, isReserved p.name = false
  body : ∀ body ∈ m.body, Stmt.EveryIn UnreservedHere body

/-- The reserved names of a body stay apart.  The class that receives the hook calls may have any
name; a call on it is no use of a variable. -/
structure Hygienic (cls : String) (body : List Stmt) : Prop where
  /-- Reserved variables are returned values and reserved labels are iterations, and no number
  is used twice. -/
  numbered : ∃ returns iterations : List Nat, (returns ++ iterations).Nodup ∧
    (localsIn body).filter isReserved = returns.map (reservedName "return") ∧
    (labelsIn body).filter isReserved = iterations.map (reservedName "iteration")
  /-- The statements that use a returned value stand in the list that declares it, behind the
  declaration. -/
  results : ∀ x ∈ localsIn body, isReserved x = true →
    ∃ list ∈ listsOf body, UsedBehind cls x (usesIn cls x body) list.2
  /-- An iteration is a block, and all jumps to it stand inside. -/
  iterations : ∀ label inner, .labeled label inner ∈ body.flatMap Stmt.nodes →
    isReserved label = true → inner.isBlock = true ∧ jumpsIn label body = jumpsIn label [inner]
  /-- No other reserved label is jumped to. -/
  targets : ∀ label, isReserved label = true → jumpsIn label body ≠ 0 → label ∈ labelsIn body
  /-- One clause at most binds a reserved variable; it binds the error, which is used in no
  other place. -/
  errors : ∃ clause : Option CatchClause,
    (clausesIn body).filter (fun c => isReserved c.ident) = clause.toList ∧
    (∀ c ∈ clause, c.ident = Hooks.errorVariable) ∧
    usesIn cls Hooks.errorVariable body =
      usesIn cls Hooks.errorVariable ((clause.map CatchClause.body).getD [])
  /-- No other reserved variable is used. -/
  bound : ∀ x, isReserved x = true → usesIn cls x body ≠ 0 →
    x = Hooks.errorVariable ∨ x ∈ localsIn body

/-! ## Names -/

theorem isReserved_errorVariable : isReserved Hooks.errorVariable = true := by
  unfold isReserved Hooks.errorVariable
  rw [List.isPrefixOf_iff_prefix, String.toList_append]
  exact List.prefix_append _ _

theorem reservedName_return_ne (n : Nat) : reservedName "return" n ≠ Hooks.errorVariable := by
  intro h
  have hlist := congrArg String.toList h
  unfold reservedName Hooks.errorVariable at hlist
  simp only [String.toList_append, List.append_assoc] at hlist
  have hrest := List.append_cancel_left hlist
  have hfirst := congrArg List.head? hrest
  exact absurd hfirst (by simp)

theorem reservedName_injective (purpose : String) : Function.Injective (reservedName purpose) :=
  fun _ _ h => reservedName_inj h

theorem exists_numbers {purpose : String} {xs : List String}
    (h : ∀ x ∈ xs, isReserved x = true → ∃ n, x = reservedName purpose n) :
    ∃ numbers : List Nat, xs.filter isReserved = numbers.map (reservedName purpose) := by
  induction xs with
  | nil => exact ⟨[], rfl⟩
  | cons x xs ih =>
      rcases ih fun y hy => h y (List.mem_cons_of_mem x hy) with ⟨numbers, hnumbers⟩
      cases hx : isReserved x with
      | true =>
          rcases h x List.mem_cons_self hx with ⟨n, rfl⟩
          exact ⟨n :: numbers, by rw [List.filter_cons_of_pos hx, hnumbers, List.map_cons]⟩
      | false => exact ⟨numbers, by rw [List.filter_cons_of_neg (by simp [hx]), hnumbers]⟩

theorem count_numbers {purpose : String} {xs : List String} {numbers : List Nat}
    (h : xs.filter isReserved = numbers.map (reservedName purpose)) (n : Nat) :
    numbers.count n = xs.count (reservedName purpose n) := by
  rw [← List.count_filter (isReserved_reservedName purpose n), h,
    List.count_map_of_injective _ _ (reservedName_injective purpose)]

/-! ## Numbers -/

def numberTally (n : Nat) : Tally where
  own s := s.declared.count (reservedName "return" n) +
    (labelOf? s).toList.count (reservedName "iteration" n)
  covers _ := false
  fresh k := if n < k then 1 else 0

theorem count_reservedName (purpose : String) (n k : Nat) :
    [reservedName purpose k].count (reservedName purpose n) = if k = n then 1 else 0 := by
  rw [List.count_singleton]
  simp only [beq_iff_eq, (reservedName_injective purpose).eq_iff]

theorem lawful_numberTally (n : Nat) : (numberTally n).Lawful where
  mono hle := by
    simp only [numberTally]
    split <;> split <;> omega
  head s := by
    simp only [numberTally, Stmt.declared_head, labelOf?_head]
  plain {s} hs := by
    cases s with
    | forLoop init _ _ _ => cases init <;> first | rfl | cases hs
    | block _ | expr _ | ret _ | ifElse _ _ _ | whileLoop _ _ | breakTo _ => rfl
    | decl _ _ _ | doWhile _ _ | forEach _ _ _ _ | labeled _ _ | switch _ _ | continueTo _
    | raise _ | tryCatch _ _ _ | sync _ _ | unmodelled _ => cases hs
  start _ _ _ := Nat.le_refl _
  covered hl := absurd hl Bool.false_ne_true
  result type value k := by
    show [reservedName "return" k].count (reservedName "return" n) + 0 +
      (if n < k then 1 else 0) ≤ if n < k + 1 then 1 else 0
    rw [count_reservedName]
    split <;> split <;> split <;> omega
  iteration k body := by
    show 0 + [reservedName "iteration" k].count (reservedName "iteration" n) +
      (if n < k then 1 else 0) ≤ if n < k + 1 then 1 else 0
    rw [count_reservedName]
    split <;> split <;> split <;> omega
  next _ _ := rfl

theorem own_numberTally (n : Nat) {s : Stmt} (h : UnreservedHere s) :
    (numberTally n).own s = 0 := by
  have hdeclared : reservedName "return" n ∉ s.declared := fun hmem =>
    ne_of_isReserved (h.declared _ hmem) (isReserved_reservedName "return" n) rfl
  have hlabel : reservedName "iteration" n ∉ (labelOf? s).toList := fun hmem =>
    ne_of_isReserved (h.label _ (Option.mem_toList.mp hmem))
      (isReserved_reservedName "iteration" n) rfl
  simp only [numberTally, List.count_eq_zero.mpr hdeclared, List.count_eq_zero.mpr hlabel]

theorem sum_map_count {α β : Type} [BEq β] (g : α → List β) (b : β) (xs : List α) :
    (xs.map fun x => (g x).count b).sum = (xs.flatMap g).count b := by
  rw [List.count_flatMap]
  rfl

theorem totalIn_numberTally (n : Nat) (stmts : List Stmt) :
    (numberTally n).totalIn stmts = (localsIn stmts).count (reservedName "return" n) +
      (labelsIn stmts).count (reservedName "iteration" n) := by
  rw [Tally.totalIn_eq_sum _ fun _ => rfl]
  unfold localsIn labelsIn collectIn
  rw [← sum_map_count, ← sum_map_count]
  exact List.sum_map_add

/-! ## Jumps -/

/-- How many statements jump to a label outside the statements that have it. -/
def jumpTally (label : String) : Tally where
  own s := if jumpsTo label s then 1 else 0
  covers l := l = label
  fresh _ := 0

theorem lawful_jumpTally (label : String) : (jumpTally label).Lawful where
  mono _ := Nat.le_refl 0
  head s := by
    have hsame : jumpsTo label s.head = jumpsTo label s := by rw [jumpsTo, jumpOf?_head, ← jumpsTo]
    simp only [jumpTally, hsame]
  plain {s} hs := by
    cases s with
    | breakTo l => cases l <;> first | rfl | cases hs
    | block _ | expr _ | ret _ | ifElse _ _ _ | whileLoop _ _ | forLoop _ _ _ _ => rfl
    | decl _ _ _ | doWhile _ _ | forEach _ _ _ _ | labeled _ _ | switch _ _ | continueTo _
    | raise _ | tryCatch _ _ _ | sync _ _ | unmodelled _ => cases hs
  start _ _ _ := Nat.le_refl 0
  covered _ _ _ _ := rfl
  result _ _ _ := Nat.le_refl 0
  iteration _ _ := Nat.le_refl 0
  next n hn := by
    have hother : reservedName "iteration" n ≠ label := of_decide_eq_false hn
    simp [jumpTally, jumpsTo, jumpOf?, hother]

theorem own_jumpTally {label : String} (hr : isReserved label = true) {s : Stmt}
    (h : UnreservedHere s) : (jumpTally label).own s = 0 := by
  have hjump : jumpsTo label s = false := decide_eq_false fun heq =>
    ne_of_isReserved (h.jump label heq) hr rfl
  simp only [jumpTally, hjump]
  rfl

section

variable {label : String}

def hasLabel (label : String) (s : Stmt) : Bool :=
  labelOf? s = some label

theorem hasLabel_labeled (label : String) (inner : Stmt) :
    hasLabel label (.labeled label inner) = true :=
  decide_eq_true rfl

theorem jumpTally_of_unlabeled {s : Stmt} (hs : hasLabel label s = false) :
    (jumpTally label).total s =
      (if jumpsTo label s then 1 else 0) + (jumpTally label).totalIn s.children := by
  refine Tally.total_of_not _ ?_
  unfold Tally.covered
  cases hl : labelOf? s with
  | none => rfl
  | some l =>
      have hother : l ≠ label := by
        rintro rfl
        exact absurd (decide_eq_true hl) (by rw [hasLabel] at hs; simp [hs])
      exact decide_eq_false hother

theorem unjumped_of_unlabeled {s : Stmt} (hzero : (jumpTally label).total s = 0)
    (hnone : s.nodes.countP (hasLabel label) = 0) : s.nodes.countP (jumpsTo label) = 0 := by
  induction s using Stmt.childInduction with
  | step s ih =>
      rw [Stmt.nodes, Stmt.inner_eq, List.countP_cons] at hnone ⊢
      have hself : hasLabel label s = false := by
        cases hs : hasLabel label s with
        | false => rfl
        | true => simp [hs] at hnone
      rw [jumpTally_of_unlabeled hself] at hzero
      have hchildren : ∀ t ∈ s.children, (jumpTally label).total t = 0 :=
        Tally.total_eq_zero_of_mem _ (by omega)
      rw [countP_flatMap_eq_zero (fun t ht hnone => ih t ht (hchildren t ht) hnone) (by omega)]
      omega

theorem jumps_of_labeled {s inner : Stmt} (hzero : (jumpTally label).total s = 0)
    (hone : s.nodes.countP (hasLabel label) = 1) (hmem : .labeled label inner ∈ s.nodes) :
    s.nodes.countP (jumpsTo label) = inner.nodes.countP (jumpsTo label) := by
  induction s using Stmt.childInduction with
  | step s ih =>
      have hnodes : s.nodes = s :: s.children.flatMap Stmt.nodes := by
        rw [Stmt.nodes, Stmt.inner_eq]
      rw [hnodes, List.countP_cons] at hone
      cases hself : hasLabel label s with
      | true =>
          rw [hself] at hone
          have hnone : (s.children.flatMap Stmt.nodes).countP (hasLabel label) = 0 := by
            simpa using hone
          have hinner : .labeled label inner = s := by
            rw [hnodes] at hmem
            rcases List.mem_cons.mp hmem with heq | hmem
            · exact heq
            · exact absurd (hasLabel_labeled label inner) (List.countP_eq_zero.mp hnone _ hmem)
          subst hinner
          exact List.countP_cons_of_neg Bool.false_ne_true
      | false =>
          rw [hself] at hone
          rw [jumpTally_of_unlabeled hself] at hzero
          have hchildren : ∀ t ∈ s.children, (jumpTally label).total t = 0 :=
            Tally.total_eq_zero_of_mem _ (by omega)
          rcases exists_countP_flatMap_eq
            (fun t ht hnone => unjumped_of_unlabeled (hchildren t ht) hnone)
            (by simpa using hone) with ⟨t, ht, hin, hjumps, hplace⟩
          rw [hnodes] at hmem ⊢
          have hinside : .labeled label inner ∈ s.children.flatMap Stmt.nodes := by
            rcases List.mem_cons.mp hmem with rfl | hmem
            · exact absurd (hself.symm.trans (hasLabel_labeled label inner)) Bool.false_ne_true
            · exact hmem
          have hown : jumpsTo label s = false := by
            cases hj : jumpsTo label s with
            | false => rfl
            | true => simp [hj] at hzero
          rw [List.countP_cons_of_neg (by simp [hown]), hjumps]
          exact ih t ht (hchildren t ht) hin (hplace _ hinside (hasLabel_labeled label inner))

theorem jumpsIn_of_unlabeled {stmts : List Stmt} (hzero : (jumpTally label).totalIn stmts = 0)
    (hnone : (stmts.flatMap Stmt.nodes).countP (hasLabel label) = 0) : jumpsIn label stmts = 0 :=
  have hparts := Tally.total_eq_zero_of_mem _ hzero
  countP_flatMap_eq_zero (fun t ht hnone => unjumped_of_unlabeled (hparts t ht) hnone) hnone

theorem jumpsIn_of_labeled {stmts : List Stmt} {inner : Stmt}
    (hzero : (jumpTally label).totalIn stmts = 0)
    (hone : (stmts.flatMap Stmt.nodes).countP (hasLabel label) = 1)
    (hmem : .labeled label inner ∈ stmts.flatMap Stmt.nodes) :
    jumpsIn label stmts = jumpsIn label [inner] := by
  have hparts := Tally.total_eq_zero_of_mem _ hzero
  rcases exists_countP_flatMap_eq
    (fun t ht hnone => unjumped_of_unlabeled (hparts t ht) hnone) hone with
    ⟨t, ht, hin, hjumps, hplace⟩
  have hinside := jumps_of_labeled (hparts t ht) hin (hplace _ hmem (hasLabel_labeled label inner))
  unfold jumpsIn
  rw [hjumps, hinside, List.flatMap_singleton]

end

/-! ## Settled bodies -/

theorem count_flatMap_eq_countP {g : Stmt → List String} {p : Stmt → Bool} {x : String}
    {stmts : List Stmt} (h : ∀ s ∈ stmts, (g s).count x = if p s then 1 else 0) :
    (stmts.flatMap g).count x = stmts.countP p := by
  induction stmts with
  | nil => rfl
  | cons s rest ih =>
      rw [List.flatMap_cons, List.count_append, List.countP_cons, h s List.mem_cons_self,
        ih fun t ht => h t (List.mem_cons_of_mem s ht), Nat.add_comm]

theorem count_labelsIn (label : String) (stmts : List Stmt) :
    (labelsIn stmts).count label = (stmts.flatMap Stmt.nodes).countP (hasLabel label) := by
  refine count_flatMap_eq_countP fun s _ => ?_
  unfold hasLabel
  cases labelOf? s with
  | none => rfl
  | some l =>
      rw [Option.toList_some, List.count_singleton]
      by_cases hl : l = label <;> simp [hl]

section

variable {cls x : String} {stmts : List Stmt}

theorem count_localsIn (hx : isReserved x = true)
    (h : ∀ s ∈ stmts.flatMap Stmt.nodes, NeatHere cls x s) :
    (localsIn stmts).count x = (stmts.flatMap Stmt.nodes).countP (Stmt.declares x) := by
  refine count_flatMap_eq_countP fun s hs => ?_
  cases hd : s.declares x with
  | true =>
      cases s with
      | decl _ y _ =>
          obtain rfl : y = x := of_decide_eq_true hd
          exact List.count_singleton_self
      | block _ | expr _ | ifElse _ _ _ | whileLoop _ _ | doWhile _ _ | forLoop _ _ _ _
      | forEach _ _ _ _ | labeled _ _ | switch _ _ | breakTo _ | continueTo _ | ret _ | raise _
      | tryCatch _ _ _ | sync _ _ | unmodelled _ => cases hd
  | false =>
      refine List.count_eq_zero.mpr fun hmem => ?_
      rcases (h s hs).declared x hmem hx with ⟨n, type, value, rfl⟩
      obtain rfl := List.mem_singleton.mp hmem
      exact absurd hd (by simp [Stmt.declares, Stmt.declare])

theorem undeclared_of_not_mem (hx : x ∉ localsIn stmts) :
    Stmt.EveryIn (fun s => s.declares x = false) stmts := by
  intro s hs t ht
  rw [Bool.eq_false_iff]
  intro hd
  have hdeclared : x ∈ t.declared := by
    cases t with
    | decl _ y _ =>
        obtain rfl : y = x := of_decide_eq_true hd
        exact List.mem_cons_self
    | block _ | expr _ | ifElse _ _ _ | whileLoop _ _ | doWhile _ _ | forLoop _ _ _ _
    | forEach _ _ _ _ | labeled _ _ | switch _ _ | breakTo _ | continueTo _ | ret _ | raise _
    | tryCatch _ _ _ | sync _ _ | unmodelled _ => cases hd
  exact hx (List.mem_flatMap.mpr ⟨t, List.mem_flatMap.mpr ⟨s, hs, ht⟩, hdeclared⟩)

theorem NeatIn.here (h : NeatIn cls x stmts) : ∀ s ∈ stmts.flatMap Stmt.nodes, NeatHere cls x s :=
  fun s hs =>
    have ⟨t, ht, hst⟩ := List.mem_flatMap.mp hs
    h.every t ht s hst

theorem NeatIn.settles (h : NeatIn cls x stmts) :
    Stmt.EveryIn (Stmt.SettlesHere cls x) stmts :=
  fun s hs t ht => (h.every s hs t ht).toSettlesHere

theorem NeatIn.returned (h : NeatIn cls x stmts) :
    ∀ y ∈ localsIn stmts, isReserved y = true → ∃ n, y = reservedName "return" n := by
  intro y hy hr
  rcases List.mem_flatMap.mp hy with ⟨s, hs, hy⟩
  rcases (h.here s hs).declared y hy hr with ⟨n, type, value, rfl⟩
  exact ⟨n, List.mem_singleton.mp hy⟩

theorem NeatIn.iterated (h : NeatIn cls x stmts) :
    ∀ label ∈ labelsIn stmts, isReserved label = true →
      ∃ n, label = reservedName "iteration" n := by
  intro label hl hr
  rcases List.mem_flatMap.mp hl with ⟨s, hs, hl⟩
  cases s with
  | labeled l inner =>
      obtain rfl := List.mem_singleton.mp hl
      exact ((h.here _ hs).label label inner rfl hr).2
  | block _ | decl _ _ _ | expr _ | ifElse _ _ _ | whileLoop _ _ | doWhile _ _
  | forLoop _ _ _ _ | forEach _ _ _ _ | switch _ _ | breakTo _ | continueTo _ | ret _
  | raise _ | tryCatch _ _ _ | sync _ _ | unmodelled _ => cases hl

theorem NeatIn.clauses (h : NeatIn cls x stmts) :
    (clausesIn stmts).filter (fun c => isReserved c.ident) = [] := by
  refine List.filter_eq_nil_iff.mpr fun c hc => ?_
  rcases List.mem_flatMap.mp hc with ⟨s, hs, hc⟩
  simp [(h.here s hs).clauses c hc]

theorem NeatIn.error_not_local (h : NeatIn cls x stmts) : Hooks.errorVariable ∉ localsIn stmts := by
  intro hmem
  rcases h.returned _ hmem isReserved_errorVariable with ⟨n, hn⟩
  exact reservedName_return_ne n hn.symm

theorem NeatIn.usesIn_eq_zero (h : NeatIn cls x stmts) (hx : x ∉ localsIn stmts) :
    usesIn cls x stmts = 0 :=
  have hnone := undeclared_of_not_mem hx
  usesIn_of_undeclared h.settles (h.settled.unused fun d hd => (hnone d hd).here) hnone

end

/-- Code that settles its reserved variables and counts each number once at most is hygienic, and
no clause in it binds a reserved variable. -/
theorem hygienic_of_neatIn {cls : String} {stmts : List Stmt}
    (hneat : ∀ x, isReserved x = true → NeatIn cls x stmts)
    (hnumbers : ∀ n, (numberTally n).totalIn stmts ≤ 1)
    (hjumps : ∀ label, isReserved label = true → (jumpTally label).totalIn stmts = 0) :
    Hygienic cls stmts ∧ (clausesIn stmts).filter (fun c => isReserved c.ident) = [] := by
  have herror := hneat _ isReserved_errorVariable
  have hcount : ∀ n, (localsIn stmts).count (reservedName "return" n) +
      (labelsIn stmts).count (reservedName "iteration" n) ≤ 1 := by
    intro n
    rw [← totalIn_numberTally]
    exact hnumbers n
  refine ⟨?_, herror.clauses⟩
  constructor
  · rcases exists_numbers herror.returned with ⟨returns, hreturns⟩
    rcases exists_numbers herror.iterated with ⟨iterations, hiterations⟩
    refine ⟨returns, iterations, List.nodup_iff_count_le_one.mpr fun n => ?_, hreturns, hiterations⟩
    rw [List.count_append, count_numbers hreturns, count_numbers hiterations]
    exact hcount n
  · intro x hx hr
    have hsettled := hneat x hr
    refine hsettled.settled.exists_follows hsettled.settles ?_
    rw [← count_localsIn hr hsettled.here]
    have hpos := List.count_pos_iff.mpr hx
    rcases hsettled.returned x hx hr with ⟨n, rfl⟩
    have hle := hcount n
    omega
  · intro label inner hmem hr
    have hhere := (herror.here _ hmem).label label inner rfl hr
    refine ⟨hhere.1, jumpsIn_of_labeled (hjumps label hr) ?_ hmem⟩
    have hpos : 0 < (stmts.flatMap Stmt.nodes).countP (hasLabel label) :=
      List.countP_pos_iff.mpr ⟨_, hmem, hasLabel_labeled label inner⟩
    rw [← count_labelsIn] at hpos ⊢
    rcases hhere.2 with ⟨n, rfl⟩
    have hle := hcount n
    omega
  · intro label hr hjump
    by_contra hnone
    refine hjump (jumpsIn_of_unlabeled (hjumps label hr) ?_)
    rw [← count_labelsIn]
    exact List.count_eq_zero.mpr hnone
  · exact ⟨none, herror.clauses, fun _ hc => (by cases hc),
      herror.usesIn_eq_zero herror.error_not_local⟩
  · intro x hr huses
    by_cases hx : x ∈ localsIn stmts
    · exact .inr hx
    · exact absurd ((hneat x hr).usesIn_eq_zero hx) huses

/-! ## Woven bodies -/

section

variable {cls x : String} {stmts : List Stmt}

theorem settled_eraseP (h : Settled cls x stmts) :
    Settled cls x (stmts.eraseP Stmt.isDelegation) := by
  induction stmts with
  | nil => trivial
  | cons s rest ih =>
      cases hs : s.isDelegation with
      | true =>
          rw [List.eraseP_cons_of_pos hs]
          rcases isExpr_of_isDelegation hs with ⟨e, rfl, _⟩
          exact h.2.resolve_left Bool.false_ne_true
      | false =>
          rw [List.eraseP_cons_of_neg (by simp [hs])]
          exact ⟨h.1, h.2.imp_right ih⟩

theorem totalIn_eraseP (T : Tally) (q : Stmt → Bool) (stmts : List Stmt) :
    T.totalIn (stmts.eraseP q) ≤ T.totalIn stmts := by
  induction stmts with
  | nil => exact Nat.le_refl 0
  | cons s rest ih =>
      cases hs : q s with
      | true =>
          rw [List.eraseP_cons_of_pos hs]
          exact Nat.le_add_left _ _
      | false =>
          rw [List.eraseP_cons_of_neg (by simp [hs])]
          exact Nat.add_le_add_left ih _

end

section

variable (w : Weaver) (s : Session) {body : List Stmt}

theorem totalIn_rest {T : Tally} (hT : T.Lawful) (body : List Stmt) :
    T.totalIn (w.rest s body) ≤ T.totalIn (w.reported s body) := by
  have hdeadline : T.totalIn (w.deadline s) = 0 := by
    unfold Weaver.deadline
    cases s.markers.timeout with
    | none => rfl
    | some millis => exact (Nat.add_zero _).trans (hT.total_plain rfl)
  rw [rest_eq, Tally.totalIn_append, hdeadline, Nat.zero_add]
  split
  · exact totalIn_eraseP T _ _
  · exact Nat.le_refl _

theorem totalIn_normalizeAll (T : Tally) (h : Stmt.EveryIn UnreservedHere body)
    (hown : ∀ s, UnreservedHere s → T.own s = 0) : T.totalIn (normalizeAll body) = 0 :=
  T.totalIn_eq_zero (normalizeAll_every (fun stmts => hown _ (unreservedHere_block stmts))
    (fun _ hs => hown _ (unreservedHere_normalize hs)) h)

theorem neatIn_rest {x : String} (hr : isReserved x = true)
    (h : Stmt.EveryIn UnreservedHere body) : NeatIn w.hooks.runtimeClass x (w.rest s body) := by
  have hreported := neatIn_reported hr w s h
  have hkept : NeatIn w.hooks.runtimeClass x
      (if s.decl.isConstructor then (w.reported s body).eraseP Stmt.isDelegation
        else w.reported s body) := by
    split
    · exact ⟨fun t ht => hreported.every t (List.mem_of_mem_eraseP ht),
        settled_eraseP hreported.settled⟩
    · exact hreported
  rw [rest_eq]
  have hdeadline : ∀ t ∈ w.deadline s, ∃ millis, t = w.hooks.timeout s.id millis := by
    intro t ht
    unfold Weaver.deadline at ht
    rcases Option.map_eq_some_iff.mp (Option.mem_toList.mp ht) with ⟨millis, _, rfl⟩
    exact ⟨millis, rfl⟩
  refine hkept.behind (fun t ht => ?_) (fun t ht => ?_) <;>
    rcases hdeadline t ht with ⟨millis, rfl⟩
  · exact every_neat_expr _
  · exact (uses_report w.hooks "timeout" _).trans rfl

theorem hygienic_rest (h : Stmt.EveryIn UnreservedHere body) :
    Hygienic w.hooks.runtimeClass (w.rest s body) ∧
      (clausesIn (w.rest s body)).filter (fun c => isReserved c.ident) = [] := by
  refine hygienic_of_neatIn (fun x hr => neatIn_rest w s hr h) (fun n => ?_) (fun label hr => ?_)
  · have hstart := totalIn_normalizeAll _ h fun _ ht => own_numberTally n ht
    rcases (lawful_numberTally n).totalIn_reported w s body with ⟨k, hpays⟩
    have hbound := hpays.bound
    have hle := totalIn_rest w s (lawful_numberTally n) body
    have hfresh : (numberTally n).fresh k ≤ 1 := by
      simp only [numberTally]
      split <;> omega
    omega
  · have hstart := totalIn_normalizeAll _ h fun _ ht => own_jumpTally hr ht
    rcases (lawful_jumpTally label).totalIn_reported w s body with ⟨k, hpays⟩
    have hbound := hpays.bound
    have hle := totalIn_rest w s (lawful_jumpTally label) body
    have hfresh : (jumpTally label).fresh k = 0 := rfl
    omega

end

/-! ### The wrapper -/

def around (calls : List Expr) (stmts : List Stmt) (clause : Option CatchClause) (exit : Expr) :
    List Stmt :=
  calls.map .expr ++ [.tryCatch stmts clause.toList (some [.expr exit])]

section

variable {calls : List Expr} {stmts : List Stmt} {clause : Option CatchClause} {exit : Expr}

theorem nodes_around (calls : List Expr) (stmts : List Stmt) (clause : Option CatchClause)
    (exit : Expr) :
    (around calls stmts clause exit).flatMap Stmt.nodes =
      calls.map .expr ++ .tryCatch stmts clause.toList (some [.expr exit]) ::
        (stmts.flatMap Stmt.nodes ++
          ((clause.map CatchClause.body).getD []).flatMap Stmt.nodes ++ [.expr exit]) := by
  have hcalls : (calls.map Stmt.expr).flatMap Stmt.nodes = calls.map .expr := by
    induction calls with
    | nil => rfl
    | cons e rest ih =>
        rw [List.map_cons, List.flatMap_cons, ih]
        rfl
  have hclause : clause.toList.flatMap CatchClause.body =
      (clause.map CatchClause.body).getD [] := by
    cases clause <;> simp
  have hexit : [Stmt.expr exit].flatMap Stmt.nodes = [.expr exit] := rfl
  unfold around
  rw [List.flatMap_append, hcalls, List.flatMap_singleton, Stmt.nodes, Stmt.inner_eq]
  simp only [Stmt.children, Option.getD_some, List.flatMap_append, hclause, hexit]

theorem collectIn_around {α : Type} {g : Stmt → List α} (hg : ∀ e, g (.expr e) = []) :
    collectIn g (around calls stmts clause exit) =
      g (.tryCatch stmts clause.toList (some [.expr exit])) ++ (collectIn g stmts ++
        collectIn g ((clause.map CatchClause.body).getD [])) := by
  have hcalls : (calls.map Stmt.expr).flatMap g = [] :=
    List.flatMap_eq_nil_iff.mpr fun t ht => by
      rcases List.mem_map.mp ht with ⟨e, _, rfl⟩
      exact hg e
  unfold collectIn
  rw [nodes_around, List.flatMap_append, hcalls, List.nil_append, List.flatMap_cons,
    List.flatMap_append, List.flatMap_append, List.flatMap_singleton, hg, List.append_nil]

theorem countP_around {p : Stmt → Bool} (hcalls : ∀ e ∈ exit :: calls, p (.expr e) = false)
    (htry : p (.tryCatch stmts clause.toList (some [.expr exit])) = false) :
    ((around calls stmts clause exit).flatMap Stmt.nodes).countP p =
      (stmts.flatMap Stmt.nodes).countP p +
        (((clause.map CatchClause.body).getD []).flatMap Stmt.nodes).countP p := by
  have hfront : (calls.map Stmt.expr).countP p = 0 :=
    List.countP_eq_zero.mpr fun t ht => by
      rcases List.mem_map.mp ht with ⟨e, he, rfl⟩
      simp [hcalls e (List.mem_cons_of_mem exit he)]
  have hexit : [Stmt.expr exit].countP p = 0 := by
    simp [hcalls exit List.mem_cons_self]
  rw [nodes_around, List.countP_append, hfront, List.countP_cons_of_neg (by simp [htry]),
    List.countP_append, List.countP_append, hexit, Nat.zero_add, Nat.add_zero]

theorem listsOf_subset_around (calls : List Expr) (stmts : List Stmt)
    (clause : Option CatchClause) (exit : Expr) :
    listsOf stmts ⊆ listsOf (around calls stmts clause exit) := by
  intro list hlist
  refine List.mem_cons_of_mem _ (Stmt.nestedLists_subset_all
    (List.mem_append_right _ List.mem_cons_self) ?_)
  exact List.mem_append_left _ (List.mem_append_left _ hlist)

end

theorem Hygienic.ne_errorVariable {cls x : String} {stmts : List Stmt} (h : Hygienic cls stmts)
    (hx : x ∈ localsIn stmts) (hr : isReserved x = true) : x ≠ Hooks.errorVariable := by
  rcases h.numbered with ⟨returns, _, _, hreturns, _⟩
  have hmem := List.mem_filter.mpr ⟨hx, hr⟩
  rw [hreturns] at hmem
  rcases List.mem_map.mp hmem with ⟨n, _, rfl⟩
  exact reservedName_return_ne n

section

variable {hooks : Hooks} {id : String} {calls : List Expr} {stmts : List Stmt}
  {clause : Option CatchClause} {exit : Expr}

theorem usesIn_onErrorClause (hooks : Hooks) (id : String) {x : String}
    (hx : x ≠ Hooks.errorVariable) :
    usesIn hooks.runtimeClass x (hooks.onErrorClause id).body = 0 := by
  have hname : (Expr.name Hooks.errorVariable).uses hooks.runtimeClass x = false := by
    rw [Expr.uses_name]
    exact decide_eq_false hx.symm
  have hreport : (hooks.report "onError" [.text id, .name Hooks.errorVariable]).uses
      hooks.runtimeClass x = false := by
    rw [uses_report]
    simp [uses_text, hname]
  have hraise : (Stmt.raise (.name Hooks.errorVariable)).uses hooks.runtimeClass x = false := by
    simp [Stmt.uses, Stmt.ownExprs, hname]
  exact usesIn_eq_zero.mpr (Stmt.everyIn_cons.mpr
    ⟨(Stmt.every_leaf rfl).mpr hreport, Stmt.everyIn_singleton.mpr
      ((Stmt.every_leaf rfl).mpr hraise)⟩)

theorem collectIn_wrapper (hclause : ∀ c ∈ clause, c = hooks.onErrorClause id) {α : Type}
    {g : Stmt → List α} (hexpr : ∀ e, g (.expr e) = []) (hraise : ∀ e, g (.raise e) = []) :
    collectIn g (around calls stmts clause exit) =
      g (.tryCatch stmts clause.toList (some [.expr exit])) ++ collectIn g stmts := by
  have hbody : collectIn g ((clause.map CatchClause.body).getD []) = [] := by
    cases clause with
    | none => rfl
    | some c =>
        obtain rfl := hclause c rfl
        show g (.expr _) ++ (g (.raise _) ++ []) = []
        rw [hexpr, hraise]
        rfl
  rw [collectIn_around hexpr, hbody, List.append_nil]

theorem labeled_mem_wrapper (hclause : ∀ c ∈ clause, c = hooks.onErrorClause id)
    {label : String} {inner : Stmt}
    (h : .labeled label inner ∈ (around calls stmts clause exit).flatMap Stmt.nodes) :
    .labeled label inner ∈ stmts.flatMap Stmt.nodes := by
  let g : Stmt → List Stmt := fun s => if hasLabel label s then [s] else []
  have hin : .labeled label inner ∈ collectIn g (around calls stmts clause exit) := by
    refine List.mem_flatMap.mpr ⟨_, h, ?_⟩
    show _ ∈ if hasLabel label (.labeled label inner) then _ else _
    rw [hasLabel_labeled]
    exact List.mem_cons_self
  rw [collectIn_wrapper hclause (fun _ => rfl) fun _ => rfl] at hin
  rcases List.mem_flatMap.mp (show _ ∈ collectIn g stmts from hin) with ⟨s, hs, hin⟩
  unfold g at hin
  split at hin
  · rwa [List.mem_singleton.mp hin]
  · exact absurd hin List.not_mem_nil

theorem jumpsIn_wrapper (hclause : ∀ c ∈ clause, c = hooks.onErrorClause id) (label : String) :
    jumpsIn label (around calls stmts clause exit) = jumpsIn label stmts := by
  refine (countP_around (fun _ _ => rfl) rfl).trans ?_
  cases clause with
  | none => rfl
  | some c =>
      obtain rfl := hclause c rfl
      rfl

section

variable {x : String} (hcalls : ∀ e ∈ exit :: calls, e.uses hooks.runtimeClass x = false)

include hcalls

theorem usesIn_around :
    usesIn hooks.runtimeClass x (around calls stmts clause exit) =
      usesIn hooks.runtimeClass x stmts +
        usesIn hooks.runtimeClass x ((clause.map CatchClause.body).getD []) :=
  countP_around (fun e he => by simp [Stmt.uses, Stmt.ownExprs, hcalls e he]) rfl

theorem usesIn_wrapper (hclause : ∀ c ∈ clause, c = hooks.onErrorClause id)
    (hx : x ≠ Hooks.errorVariable) :
    usesIn hooks.runtimeClass x (around calls stmts clause exit) =
      usesIn hooks.runtimeClass x stmts := by
  rw [usesIn_around hcalls]
  cases clause with
  | none => rfl
  | some c =>
      obtain rfl := hclause c rfl
      rw [Option.map_some, Option.getD_some, usesIn_onErrorClause hooks id hx, Nat.add_zero]

end

/-- Hygienic code in a wrapper stays hygienic: the clause of the wrapper is the only one that
binds a reserved variable. -/
theorem Hygienic.wrapper (h : Hygienic hooks.runtimeClass stmts)
    (hclauses : (clausesIn stmts).filter (fun c => isReserved c.ident) = [])
    (hclause : ∀ c ∈ clause, c = hooks.onErrorClause id)
    (hcalls : ∀ x, isReserved x = true →
      ∀ e ∈ exit :: calls, e.uses hooks.runtimeClass x = false) :
    Hygienic hooks.runtimeClass (around calls stmts clause exit) := by
  have hlocals : localsIn (around calls stmts clause exit) = localsIn stmts :=
    collectIn_wrapper hclause (fun _ => rfl) fun _ => rfl
  have hlabels : labelsIn (around calls stmts clause exit) = labelsIn stmts :=
    collectIn_wrapper hclause (fun _ => rfl) fun _ => rfl
  have hcaught : clausesIn (around calls stmts clause exit) =
      clause.toList ++ clausesIn stmts :=
    collectIn_wrapper hclause (fun _ => rfl) fun _ => rfl
  rcases h.errors with ⟨inside, hinside, _, hunused⟩
  obtain rfl : inside = none := by
    rw [hclauses] at hinside
    exact Option.toList_eq_nil_iff.mp hinside.symm
  constructor
  · rw [hlocals, hlabels]
    exact h.numbered
  · rw [hlocals]
    intro x hx hr
    rw [usesIn_wrapper (hcalls x hr) hclause (h.ne_errorVariable hx hr)]
    rcases h.results x hx hr with ⟨list, hlist, hbehind⟩
    exact ⟨list, listsOf_subset_around calls stmts clause exit hlist, hbehind⟩
  · intro label inner hmem hr
    rw [jumpsIn_wrapper hclause]
    exact h.iterations label inner (labeled_mem_wrapper hclause hmem) hr
  · intro label
    rw [hlabels, jumpsIn_wrapper hclause]
    exact h.targets label
  · refine ⟨clause, ?_, fun c hc => ?_, ?_⟩
    · rw [hcaught, List.filter_append, hclauses, List.append_nil, List.filter_eq_self]
      intro c hc
      rw [hclause c (Option.mem_toList.mp hc)]
      exact isReserved_errorVariable
    · rw [hclause c hc]
      rfl
    · rw [usesIn_around (hcalls _ isReserved_errorVariable), hunused]
      exact Nat.zero_add _
  · intro x hr hused
    rw [hlocals]
    by_cases hx : x = Hooks.errorVariable
    · exact .inl hx
    · rw [usesIn_wrapper (hcalls x hr) hclause hx] at hused
      exact h.bound x hr hused

end

section

variable (w : Weaver) (s : Session) {body : List Stmt}

theorem bodyOf_eq_around (body : List Stmt) :
    w.bodyOf s body = around
      ((w.front s body).toList ++ [w.hooks.call "entering"
        [.text s.id, .newArray "String" (s.decl.params.map fun p => .text p.name),
          .newArray "Object" (s.decl.params.map fun p => .name p.name)]])
      (w.rest s body) (if w.settings.traceErrors then some (w.hooks.onErrorClause s.id) else none)
      (w.hooks.call "exiting" [.text s.id]) := by
  have hclause : (if w.settings.traceErrors then some (w.hooks.onErrorClause s.id)
      else none).toList =
        if w.settings.traceErrors then [w.hooks.onErrorClause s.id] else [] := by
    split <;> rfl
  rw [Weaver.bodyOf_eq]
  unfold around wrapped
  rw [hclause, List.map_append, List.append_assoc]
  rfl

theorem uses_newArray {cls x : String} {type : TypeName} {elements : List Expr}
    (h : ∀ e ∈ elements, e.uses cls x = false) :
    (Expr.newArray type elements).uses cls x = false := by
  rw [Bool.eq_false_iff]
  intro huses
  rcases Expr.uses_iff.mp huses with hvariable | ⟨e, he, huses⟩
  · exact Bool.false_ne_true hvariable
  · exact Bool.false_ne_true ((h e he).symm.trans huses)

theorem uses_entering (hooks : Hooks) (id : String) {params : List Param} {x : String}
    (hr : isReserved x = true) (hparams : ∀ p ∈ params, isReserved p.name = false) :
    (hooks.call "entering"
      [.text id, .newArray "String" (params.map fun p => .text p.name),
        .newArray "Object" (params.map fun p => .name p.name)]).uses hooks.runtimeClass x =
      false := by
  have hnames : (Expr.newArray "String" (params.map fun p => .text p.name)).uses
      hooks.runtimeClass x = false := by
    refine uses_newArray fun e he => ?_
    rcases List.mem_map.mp he with ⟨p, _, rfl⟩
    exact uses_text hooks p.name
  have hvalues : (Expr.newArray "Object" (params.map fun p => .name p.name)).uses
      hooks.runtimeClass x = false := by
    refine uses_newArray fun e he => ?_
    rcases List.mem_map.mp he with ⟨p, hp, rfl⟩
    rw [Expr.uses_name]
    exact decide_eq_false (ne_of_isReserved (hparams p hp) hr)
  rw [uses_call]
  simp [uses_text, hnames, hvalues]

theorem uses_front {x : String} (hr : isReserved x = true)
    (h : Stmt.EveryIn UnreservedHere body) {e : Expr} (he : e ∈ (w.front s body).toList) :
    e.uses w.hooks.runtimeClass x = false := by
  have hfront := List.mem_map_of_mem (f := Stmt.expr) he
  rw [front_eq, Option.mem_toList] at hfront
  have hmem : .expr e ∈ body := by
    split at hfront
    · exact List.mem_of_find?_eq_some hfront
    · cases hfront
  exact uses_of_unreserved hr ((h _ hmem).here.exprs e List.mem_cons_self)

theorem hygienic_bodyOf (hparams : ∀ p ∈ s.decl.params, isReserved p.name = false)
    (h : Stmt.EveryIn UnreservedHere body) :
    Hygienic w.hooks.runtimeClass (w.bodyOf s body) := by
  have hrest := hygienic_rest w s h
  have hclause : ∀ c ∈ if w.settings.traceErrors then some (w.hooks.onErrorClause s.id) else none,
      c = w.hooks.onErrorClause s.id := by
    intro c hc
    split at hc
    · exact (Option.some.inj hc).symm
    · cases hc
  have hexit : ∀ x, (w.hooks.call "exiting" [.text s.id]).uses w.hooks.runtimeClass x = false := by
    intro x
    rw [uses_call]
    rfl
  rw [bodyOf_eq_around]
  refine hrest.1.wrapper hrest.2 hclause fun x hr e he => ?_
  rcases List.mem_cons.mp he with rfl | he
  · exact hexit x
  · rcases List.mem_append.mp he with he | he
    · exact uses_front w s hr h he
    · obtain rfl := List.mem_singleton.mp he
      exact uses_entering w.hooks s.id hr hparams

end

theorem hygienic_of_unreserved {body : List Stmt} (cls : String)
    (h : Stmt.EveryIn UnreservedHere body) : Hygienic cls body := by
  have hhere : ∀ s ∈ body.flatMap Stmt.nodes, UnreservedHere s := fun s hs =>
    have ⟨t, ht, hst⟩ := List.mem_flatMap.mp hs
    h t ht s hst
  have hlocals : ∀ x ∈ localsIn body, isReserved x = false := fun x hx =>
    have ⟨s, hs, hx⟩ := List.mem_flatMap.mp hx
    (hhere s hs).declared x hx
  have hlabels : ∀ label ∈ labelsIn body, isReserved label = false := fun label hl =>
    have ⟨s, hs, hl⟩ := List.mem_flatMap.mp hl
    (hhere s hs).label label (Option.mem_toList.mp hl)
  have huses : ∀ x, isReserved x = true → usesIn cls x body = 0 := by
    intro x hr
    exact List.countP_eq_zero.mpr fun s hs => by simp [(hhere s hs).unused hr]
  have hfilter : ∀ {xs : List String}, (∀ x ∈ xs, isReserved x = false) →
      xs.filter isReserved = [] := fun hxs =>
    List.filter_eq_nil_iff.mpr fun x hx => by simp [hxs x hx]
  constructor
  · exact ⟨[], [], List.nodup_nil, hfilter hlocals, hfilter hlabels⟩
  · exact fun x hx hr => absurd hr (by simp [hlocals x hx])
  · intro label inner hmem hr
    exact absurd hr (by simp [(hhere _ hmem).label label rfl])
  · intro label hr hjump
    refine absurd (List.countP_eq_zero.mpr fun s hs hto => ?_) hjump
    exact absurd hr (by simp [(hhere s hs).jump label (of_decide_eq_true hto)])
  · refine ⟨none, List.filter_eq_nil_iff.mpr fun c hc => ?_, fun _ hc => (by cases hc),
      huses _ isReserved_errorVariable⟩
    rcases List.mem_flatMap.mp hc with ⟨s, hs, hc⟩
    simp [(hhere s hs).clauses c hc]
  · exact fun x hr hused => absurd (huses x hr) hused

/-- Whatever is traced, the names that weaving adds to a method without reserved names stay
apart. -/
theorem woven_names_hygienic (w : Weaver) {className : String} {classMarkers markers : MarkerSet}
    {m d : MethodDecl} {report : MethodReport} (hm : Unreserved m)
    (h : w.weaveMethod (.start className classMarkers markers m) = .ok (d, report)) :
    ∀ body ∈ d.body, Hygienic w.hooks.runtimeClass body := by
  let s := Session.start className classMarkers markers m
  rcases weaveMethod_cases h with ⟨reason, -, rfl, -⟩ | ⟨-, body, after, hbody, hrun, rfl, -⟩
  · exact fun body hbody => hygienic_of_unreserved _ (hm.body body hbody)
  · rw [(runPasses_passesFor hbody rfl hrun).2]
    intro body' hbody'
    obtain rfl : w.bodyOf s body = body' := Option.some.inj hbody'
    exact hygienic_bodyOf w s hm.params (hm.body body hbody)

/-- A loop whose condition writes what the body reads, a `continue` in it, and two returned
values. -/
def refillMethod : MethodDecl where
  name := "refill"
  kind := .method
  annotations := []
  isStatic := false
  params := [⟨"level", "int"⟩]
  returnType := some "int"
  body := some
    [.doWhile
      (.block
        [.ifElse (.binary .lt (.name "level") (.int 2)) (.continueTo none) none,
         .ifElse (.binary .lt (.int 9) (.name "level")) (.ret (some (.call none "drain" []))) none])
      (.binary .lt (.unary .preInc (.name "level")) (.int 5)),
     .ret (some (.binary .add (.name "level") (.int 1)))]

theorem woven_names_hygienic_refill :
    Unreserved refillMethod ∧ ∃ d report body,
      (Weaver.ofSettings .standard).weaveMethod (.start "Pump" .none .none refillMethod) =
        .ok (d, report) ∧
      d.body = some body ∧ Hygienic (Weaver.ofSettings .standard).hooks.runtimeClass body ∧
      (localsIn body).filter isReserved = [0, 1].map (reservedName "return") ∧
      (labelsIn body).filter isReserved = [2].map (reservedName "iteration") := by
  have hplain : Unreserved refillMethod := by
    constructor
    · decide
    · decide
  have hwoven : (Weaver.ofSettings .standard).weaveMethod
      (.start "Pump" .none .none refillMethod) = .ok (_, _) := rfl
  exact ⟨hplain, _, _, _, hwoven, rfl,
    woven_names_hygienic (Weaver.ofSettings .standard) hplain hwoven _ rfl, by decide, by decide⟩

end Weave
end TraceWeaving
