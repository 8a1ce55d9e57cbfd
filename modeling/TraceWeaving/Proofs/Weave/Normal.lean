import TraceWeaving.Proofs.Weave.Conditions
import TraceWeaving.Proofs.Weave.Retarget

/-!
# Normal code

The code that reports are placed in: its controlled statements are blocks, and its labels
are neither reserved nor used again inside the statements that have them.  Normalizing
establishes the first, and moving returned values keeps both.
-/

namespace TraceWeaving
namespace Weave

open Code

/-! ## Reserved names -/

def isReserved (name : String) : Bool :=
  Hooks.reservedStart.toList.isPrefixOf name.toList

theorem isReserved_reservedName (purpose : String) (n : Nat) :
    isReserved (reservedName purpose n) = true := by
  unfold isReserved reservedName
  rw [List.isPrefixOf_iff_prefix]
  simp only [String.toList_append, List.append_assoc]
  exact List.prefix_append _ _

theorem reservedName_inj {purpose : String} {n k : Nat}
    (h : reservedName purpose n = reservedName purpose k) : n = k := by
  have hlist := congrArg String.toList h
  unfold reservedName Text.natText at hlist
  simp only [String.toList_append, String.toList_ofList] at hlist
  have hdigits := congrArg (Nat.ofDigitChars 10 · 0) (List.append_cancel_left hlist)
  simpa only [Nat.ofDigitChars_ten_toDigits] using hdigits

theorem ne_of_isReserved {label name : String} (hl : isReserved label = false)
    (hn : isReserved name = true) : label ≠ name := by
  rintro rfl
  exact absurd hn (by simp [hl])

/-! ## Controlled statements -/

/-- The statements that a statement controls are blocks, except in chains. -/
def NormalHere : Stmt → Prop
  | .ifElse _ ifTrue ifFalse =>
      ifTrue.isBlock = true ∧ ∀ s ∈ ifFalse, chainsElse s = true ∨ s.isBlock = true
  | .whileLoop _ body | .doWhile body _ | .forLoop _ _ _ body | .forEach _ _ _ body =>
      body.isBlock = true
  | .labeled _ body => keepsLabel body = true ∨ body.isBlock = true
  | _ => True

theorem isBlock_head (s : Stmt) : s.head.isBlock = s.isBlock := by
  cases s <;> rfl

theorem chainsElse_head (s : Stmt) : chainsElse s.head = chainsElse s := by
  cases s <;> rfl

theorem keepsLabel_head (s : Stmt) : keepsLabel s.head = keepsLabel s := by
  cases s <;> rfl

theorem isLoop_head (s : Stmt) : s.head.isLoop = s.isLoop := by
  cases s <;> rfl

theorem isBlock_asBlock (s : Stmt) : (asBlock s).isBlock = true := by
  unfold asBlock
  split
  · assumption
  · rfl

theorem normalHere_normalize (s : Stmt) : NormalHere (normalize s) := by
  cases s with
  | ifElse cond ifTrue ifFalse =>
      refine ⟨isBlock_asBlock _, fun s hs => ?_⟩
      cases ifFalse with
      | none => exact absurd hs (by simp [normalizeElse])
      | some t =>
          obtain rfl := Option.some.inj hs
          split
          · rename_i hchain
            left
            rw [← chainsElse_head, head_normalize, chainsElse_head]
            exact hchain
          · exact .inr (isBlock_asBlock _)
  | whileLoop _ _ | doWhile _ _ | forLoop _ _ _ _ | forEach _ _ _ _ => exact isBlock_asBlock _
  | labeled label body =>
      show keepsLabel (if keepsLabel body then normalize body else asBlock (normalize body)) = true ∨
        (if keepsLabel body then normalize body else asBlock (normalize body)).isBlock = true
      split
      · rename_i hkeeps
        left
        rw [← keepsLabel_head, head_normalize, keepsLabel_head]
        exact hkeeps
      · exact .inr (isBlock_asBlock _)
  | block _ | decl _ _ _ | expr _ | switch _ _ | breakTo _ | continueTo _ | ret _ | raise _
  | tryCatch _ _ _ | sync _ _ | unmodelled _ => trivial

theorem normalHere_transformNested (f : List Stmt → Naming (List Stmt)) (s : Stmt) (n : Nat)
    (h : NormalHere s) : NormalHere (Stmt.transformNested f s n).1 := by
  have hblock : ∀ (s : Stmt) (n : Nat),
      (Stmt.transformNested f s n).1.isBlock = s.isBlock := by
    intro s n
    rw [← isBlock_head, head_transformNested, isBlock_head]
  cases s with
  | ifElse cond ifTrue ifFalse =>
      refine ⟨(hblock ifTrue n).trans h.1, fun s hs => ?_⟩
      cases ifFalse with
      | none => exact absurd hs (by intro h; cases h)
      | some t =>
          obtain rfl := Option.some.inj hs
          rw [hblock, ← chainsElse_head, head_transformNested, chainsElse_head]
          exact h.2 t rfl
  | whileLoop _ body | doWhile body _ | forLoop _ _ _ body | forEach _ _ _ body =>
      exact (hblock body n).trans h
  | labeled label body =>
      show keepsLabel (Stmt.transformNested f body n).1 = true ∨
        (Stmt.transformNested f body n).1.isBlock = true
      rw [hblock, ← keepsLabel_head, head_transformNested, keepsLabel_head]
      exact h
  | block _ | decl _ _ _ | expr _ | switch _ _ | breakTo _ | continueTo _ | ret _ | raise _
  | tryCatch _ _ _ | sync _ _ | unmodelled _ => trivial

/-! ## Labels -/

def labelOf? : Stmt → Option String
  | .labeled label _ => some label
  | _ => none

theorem labelOf?_head (s : Stmt) : labelOf? s.head = labelOf? s := by
  cases s <;> rfl

def Unlabeled (label : String) (s : Stmt) : Prop :=
  s.Every fun t => labelOf? t ≠ some label

/-- Labels are not reserved, and a label is not used again inside its statement. -/
def LabelsHere : Stmt → Prop
  | .labeled label body => isReserved label = false ∧ Unlabeled label body
  | .breakTo (some label) => isReserved label = false
  | _ => True

instance : DecidablePred LabelsHere
  | .labeled label body => inferInstanceAs
      (Decidable (isReserved label = false ∧ body.Every fun t => labelOf? t ≠ some label))
  | .breakTo (some label) => inferInstanceAs (Decidable (isReserved label = false))
  | .breakTo none | .block _ | .decl _ _ _ | .expr _ | .ifElse _ _ _ | .whileLoop _ _
  | .doWhile _ _ | .forLoop _ _ _ _ | .forEach _ _ _ _ | .switch _ _ | .continueTo _ | .ret _
  | .raise _ | .tryCatch _ _ _ | .sync _ _ | .unmodelled _ => isTrue trivial

theorem unlabeled_normalize {label : String} {s : Stmt} (h : Unlabeled label s) :
    Unlabeled label (normalize s) := by
  refine normalize_every (fun _ => by simp [labelOf?]) (fun s hs => ?_) h
  rw [← labelOf?_head, head_normalize, labelOf?_head]
  exact hs

theorem labelsHere_normalize {s : Stmt} (h : LabelsHere s) : LabelsHere (normalize s) := by
  cases s with
  | labeled label body =>
      refine ⟨h.1, ?_⟩
      split
      · exact unlabeled_normalize h.2
      · exact asBlock_every (fun _ => by simp [labelOf?]) (unlabeled_normalize h.2)
  | breakTo label => exact h
  | block _ | decl _ _ _ | expr _ | ifElse _ _ _ | whileLoop _ _ | doWhile _ _
  | forLoop _ _ _ _ | forEach _ _ _ _ | switch _ _ | continueTo _ | ret _ | raise _
  | tryCatch _ _ _ | sync _ _ | unmodelled _ => trivial

def Tidy (s : Stmt) : Prop :=
  NormalHere s ∧ LabelsHere s

theorem normalizeAll_tidy {body : List Stmt} (h : Stmt.EveryIn LabelsHere body) :
    Stmt.EveryIn Tidy (normalizeAll body) :=
  normalizeAll_every (fun _ => ⟨trivial, trivial⟩)
    (fun s hs => ⟨normalHere_normalize s, labelsHere_normalize hs⟩) h

theorem extractable_unlabeled (keep : Expr → Bool) (label : String) :
    Extractable keep fun s => labelOf? s ≠ some label where
  nested type s n h := by
    rw [← labelOf?_head, head_transformNested, labelOf?_head]
    exact h
  declare _ _ _ := by simp [labelOf?, Stmt.declare]
  name _ := by simp [labelOf?, Stmt.retValue]

theorem extractable_tidy (keep : Expr → Bool) : Extractable keep Tidy where
  nested type s n h := by
    refine ⟨normalHere_transformNested _ s n h.1, ?_⟩
    have hlabels := h.2
    cases s with
    | labeled label body =>
        exact ⟨hlabels.1, extractNested_every (extractable_unlabeled keep label) hlabels.2 n⟩
    | breakTo label => exact hlabels
    | block _ | decl _ _ _ | expr _ | ifElse _ _ _ | whileLoop _ _ | doWhile _ _
    | forLoop _ _ _ _ | forEach _ _ _ _ | switch _ _ | continueTo _ | ret _ | raise _
    | tryCatch _ _ _ | sync _ _ | unmodelled _ => trivial
  declare _ _ _ := ⟨trivial, trivial⟩
  name _ := ⟨trivial, trivial⟩

/-! ## Fresh labels -/

section

variable (hooks : Hooks) (id : String) {label : Option String}

theorem clearOf_head {target : String} (s : Stmt) :
    Eval.ClearOf label target s.head = Eval.ClearOf label target s := by
  cases s <;> rfl

theorem placeable_clearOf (k : Nat) (hl : ∀ l ∈ label, isReserved l = false) :
    Placeable hooks id k (Eval.ClearOf label (reservedName "iteration" k)) where
  alike hhead _ h := by
    rw [← clearOf_head, hhead, clearOf_head]
    exact h
  block _ := trivial
  changed _ _ _ := trivial
  test _ _ _ := trivial
  forever _ := trivial
  leave := by simp [Eval.ClearOf]
  iteration n hn _ := by
    refine ⟨fun h => absurd (reservedName_inj h) (Nat.ne_of_lt hn), ?_⟩
    rintro rfl
    exact absurd (isReserved_reservedName "iteration" n) (by simp [hl _ rfl])
  next n hn h := absurd (reservedName_inj (Option.some.inj h)) (Nat.ne_of_lt hn)
  start _ := trivial
  forLoop _ _ _ := trivial

theorem clearOf_of_labelsHere {s : Stmt} (k : Nat) (h : LabelsHere s)
    (hl : ∀ l ∈ label, labelOf? s ≠ some l) :
    Eval.ClearOf label (reservedName "iteration" k) s := by
  have hk := isReserved_reservedName "iteration" k
  cases s with
  | labeled l body =>
      refine ⟨ne_of_isReserved h.1 hk, ?_⟩
      rintro rfl
      exact hl l rfl rfl
  | breakTo l =>
      rintro rfl
      exact ne_of_isReserved h hk rfl
  | block _ | decl _ _ _ | expr _ | ifElse _ _ _ | whileLoop _ _ | doWhile _ _
  | forLoop _ _ _ _ | forEach _ _ _ _ | switch _ _ | continueTo _ | ret _ | raise _
  | tryCatch _ _ _ | sync _ _ | unmodelled _ => trivial

theorem placeNested_clearOf {s : Stmt} (h : s.Every Tidy)
    (hl : ∀ l ∈ label, isReserved l = false ∧ Unlabeled l s) {n k : Nat}
    (hk : (Stmt.transformNested (placeInList hooks id) s n).2 ≤ k) :
    (Stmt.transformNested (placeInList hooks id) s n).1.Every
      (Eval.ClearOf label (reservedName "iteration" k)) := by
  refine placeNested_every (placeable_clearOf hooks id k fun l hm => (hl l hm).1) ?_ n hk
  intro t ht
  exact clearOf_of_labelsHere k (h t ht).2 fun l hm => (hl l hm).2 t ht

end

end Weave
end TraceWeaving
