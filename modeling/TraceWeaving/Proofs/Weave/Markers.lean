import Mathlib.Data.List.Induction
import Mathlib.Data.List.TakeWhile
import Mathlib.Data.Nat.Digits.Defs
import TraceWeaving.Marker

/-!
# Markers of a declaration

A declaration is excluded or included where one of its annotations has that simple name.
Its duration is the one of its last duration marker.  A malformed marker has none, so where
it comes last it takes back the duration of the markers before it; leaving it out of the
annotations changes nothing if another duration marker follows, or if the markers before it
give no duration either.
-/

namespace TraceWeaving

/-! ## Numerals between blanks -/

namespace Text

def decimal (digits : List Char) : Nat :=
  Nat.ofDigits 10 (digits.reverse.map digitValue)

/-- A nonempty row of digits, perhaps behind a plus sign. -/
def IsNumeral (cs : List Char) (n : Nat) : Prop :=
  ∃ digits, (cs = digits ∨ cs = '+' :: digits) ∧ digits ≠ [] ∧
    (∀ c ∈ digits, isDigit c = true) ∧ decimal digits = n

def Spells (s : String) (n : Nat) : Prop :=
  ∃ before cs after, s.toList = before ++ cs ++ after ∧
    (∀ c ∈ before ++ after, isBlank c = true) ∧ IsNumeral cs n

theorem digitsValue_eq_decimal (cs : List Char) : digitsValue cs = decimal cs := by
  induction cs using List.reverseRecOn with
  | nil => rfl
  | append_singleton cs c ih =>
      have hlast : digitsValue (cs ++ [c]) = digitsValue cs * 10 + digitValue c := by
        simp [digitsValue]
      have hfirst : decimal (cs ++ [c]) = digitValue c + 10 * decimal cs := by
        simp [decimal, Nat.ofDigits_cons]
      rw [hlast, hfirst, ih]
      omega

theorem readDigits?_eq_some_iff {cs : List Char} {n : Nat} :
    readDigits? cs = some n ↔
      cs ≠ [] ∧ (∀ c ∈ cs, isDigit c = true) ∧ decimal cs = n := by
  rw [readDigits?, digitsValue_eq_decimal, ← List.all_eq_true]
  cases cs with
  | nil => simp
  | cons c cs => cases (c :: cs).all isDigit <;> simp

theorem uint64OfNat?_eq_some_iff {n : Nat} {d : UInt64} :
    uint64OfNat? n = some d ↔ n = d.toNat := by
  rw [uint64OfNat?]
  constructor
  · intro h
    split at h
    · cases h
      rename_i hn
      exact (UInt64.toNat_ofNat_of_lt' hn).symm
    · cases h
  · intro h
    rw [h, if_pos d.toNat_lt, UInt64.ofNat_toNat]

theorem readDigits?_bind_eq_some_iff {cs : List Char} {d : UInt64} :
    (readDigits? cs).bind uint64OfNat? = some d ↔
      cs ≠ [] ∧ (∀ c ∈ cs, isDigit c = true) ∧ decimal cs = d.toNat := by
  rw [← readDigits?_eq_some_iff, Option.bind_eq_some_iff]
  constructor
  · intro ⟨n, hn, hd⟩
    rw [hn, uint64OfNat?_eq_some_iff.mp hd]
  · intro h
    exact ⟨d.toNat, h, uint64OfNat?_eq_some_iff.mpr rfl⟩

theorem readUInt64?_eq_some_iff {s : String} {d : UInt64} :
    readUInt64? s = some d ↔ IsNumeral s.toList d.toNat := by
  rw [readUInt64?]
  split
  case h_1 digits hs =>
    rw [hs, readDigits?_bind_eq_some_iff]
    constructor
    · intro h
      exact ⟨digits, .inr rfl, h⟩
    · intro ⟨_, hcs, hdigits⟩
      cases hcs with
      | inl hcs =>
          subst hcs
          exact absurd (hdigits.2.1 '+' List.mem_cons_self) (by decide)
      | inr hcs =>
          cases hcs
          exact hdigits
  case h_2 hplus =>
    rw [readDigits?_bind_eq_some_iff]
    constructor
    · intro h
      exact ⟨s.toList, .inl rfl, h⟩
    · intro ⟨digits, hcs, hdigits⟩
      cases hcs with
      | inl hcs =>
          rw [hcs]
          exact hdigits
      | inr hcs => exact absurd hcs (hplus digits)

/-! ### What trimming leaves -/

theorem isBlank_of_isDigit {c : Char} (h : isDigit c = true) : isBlank c = false := by
  simp only [isDigit, Bool.and_eq_true, decide_eq_true_eq, Char.le_def] at h
  have hlow : 48 ≤ c.toNat := h.1
  have hhigh : c.toNat ≤ 57 := h.2
  simp only [isBlank, blankRanges, List.any_cons, List.any_nil, Bool.or_false,
    Bool.or_eq_false_iff, Bool.and_eq_false_iff, decide_eq_false_iff_not]
  omega

theorem IsNumeral.not_blank {cs : List Char} {n : Nat} (h : IsNumeral cs n) :
    ∀ c ∈ cs, isBlank c = false := by
  rcases h with ⟨digits, hcs, -, hdigits, -⟩
  intro c hc
  cases hcs with
  | inl hcs =>
      subst hcs
      exact isBlank_of_isDigit (hdigits c hc)
  | inr hcs =>
      subst hcs
      cases List.mem_cons.mp hc with
      | inl hplus =>
          subst hplus
          decide
      | inr hc => exact isBlank_of_isDigit (hdigits c hc)

theorem IsNumeral.ne_nil {cs : List Char} {n : Nat} (h : IsNumeral cs n) : cs ≠ [] := by
  rcases h with ⟨digits, rfl | rfl, hne, -⟩
  · exact hne
  · exact List.cons_ne_nil _ _

theorem dropWhile_append_of_all {α : Type} {p : α → Bool} {xs ys : List α}
    (hxs : ∀ x ∈ xs, p x = true) (hys : ys ≠ []) (hfree : ∀ y ∈ ys, p y = false)
    (zs : List α) : (xs ++ (ys ++ zs)).dropWhile p = ys ++ zs := by
  rw [List.dropWhile_append_of_pos hxs]
  cases ys with
  | nil => exact absurd rfl hys
  | cons y ys => simp [hfree y List.mem_cons_self]

theorem trim_of_parts {s : String} {before cs after : List Char}
    (hs : s.toList = before ++ cs ++ after)
    (hblank : ∀ c ∈ before ++ after, isBlank c = true) (hne : cs ≠ [])
    (hcs : ∀ c ∈ cs, isBlank c = false) : (trim s).toList = cs := by
  have hbefore : ∀ c ∈ before, isBlank c = true := fun c hc =>
    hblank c (List.mem_append_left _ hc)
  have hafter : ∀ c ∈ after.reverse, isBlank c = true := fun c hc =>
    hblank c (List.mem_append_right _ (List.mem_reverse.mp hc))
  have hstart : s.toList.dropWhile isBlank = cs ++ after := by
    rw [hs, List.append_assoc]
    exact dropWhile_append_of_all hbefore hne hcs after
  have hend : (cs ++ after).reverse.dropWhile isBlank = cs.reverse := by
    have hparts : (cs ++ after).reverse = after.reverse ++ (cs.reverse ++ []) := by simp
    rw [hparts, dropWhile_append_of_all hafter (by simpa using hne)
      (fun c hc => hcs c (List.mem_reverse.mp hc)), List.append_nil]
  rw [trim, String.toList_ofList, hstart, dropWhileEnd, hend, List.reverse_reverse]

theorem exists_trim_parts (s : String) : ∃ before after,
    s.toList = before ++ (trim s).toList ++ after ∧
      ∀ c ∈ before ++ after, isBlank c = true := by
  let rest := s.toList.dropWhile isBlank
  have hstart : s.toList = s.toList.takeWhile isBlank ++ rest :=
    List.takeWhile_append_dropWhile.symm
  have hend : rest = dropWhileEnd isBlank rest ++ (rest.reverse.takeWhile isBlank).reverse := by
    rw [dropWhileEnd, ← List.reverse_append, List.takeWhile_append_dropWhile,
      List.reverse_reverse]
  refine ⟨s.toList.takeWhile isBlank, (rest.reverse.takeWhile isBlank).reverse, ?_, ?_⟩
  · rw [trim, String.toList_ofList, List.append_assoc, ← hend]
    exact hstart
  · intro c hc
    cases List.mem_append.mp hc with
    | inl hc => exact List.mem_takeWhile_imp hc
    | inr hc => exact List.mem_takeWhile_imp (List.mem_reverse.mp hc)

theorem spells_iff {s : String} {n : Nat} : Spells s n ↔ IsNumeral (trim s).toList n := by
  constructor
  · intro ⟨before, cs, after, hs, hblank, hcs⟩
    rw [trim_of_parts hs hblank hcs.ne_nil hcs.not_blank]
    exact hcs
  · intro h
    rcases exists_trim_parts s with ⟨before, after, hs, hblank⟩
    exact ⟨before, _, after, hs, hblank, h⟩

end Text

/-! ## The duration of a marker -/

open Code

/-- The annotation gives a duration: a number that is not negative, or the numeral of one
that fits in 64 bits. -/
def Code.Annot.Lasts (a : Annot) (ms : Nat) : Prop :=
  match a.arg? "value" with
  | some (.int n) | some (.long n) => n.toInt = ms
  | some (.str raw) => Text.Spells raw ms ∧ ms < 2 ^ 64
  | _ => False

theorem toNat_toUInt64 {n : Int64} (hn : 0 ≤ n) : (n.toUInt64.toNat : Int) = n.toInt := by
  have hint : 0 ≤ n.toBitVec.toInt := Int64.le_iff_toInt_le.mp hn
  have hbits : (n.toBitVec.toNat : Int) = n.toBitVec.toInt := by
    rw [BitVec.toInt_eq_toNat_cond] at hint ⊢
    have hlt := n.toBitVec.isLt
    split at hint
    · rw [if_pos (by assumption)]
    · omega
  exact hbits

theorem ok_toUInt64_iff {n : Int64} {d : UInt64} {defect : TimeoutDefect} :
    (if 0 ≤ n then .ok n.toUInt64 else .error defect) = Except.ok d ↔ n.toInt = d.toNat := by
  constructor
  · intro h
    split at h
    case isTrue hn =>
      cases h
      exact (toNat_toUInt64 hn).symm
    case isFalse => cases h
  · intro h
    have hn : 0 ≤ n := by
      apply Int64.le_iff_toInt_le.mpr
      rw [h]
      exact Int.natCast_nonneg d.toNat
    have hd : n.toUInt64 = d := by
      apply UInt64.toNat_inj.mp
      have hnat := toNat_toUInt64 hn
      omega
    rw [if_pos hn, hd]

theorem timeoutOf_eq_ok_iff {a : Annot} {d : UInt64} :
    timeoutOf a = .ok d ↔ a.Lasts d.toNat := by
  rw [timeoutOf, Annot.Lasts]
  generalize a.arg? "value" = value
  match value with
  | some (.int _) | some (.long _) => exact ok_toUInt64_iff
  | some (.str raw) =>
      have hfits : d.toNat < 2 ^ 64 := d.toNat_lt
      have hread : Text.readUInt64? (Text.trim raw) = some d ↔
          Text.Spells raw d.toNat ∧ d.toNat < 2 ^ 64 := by
        rw [Text.readUInt64?_eq_some_iff, Text.spells_iff]
        exact (and_iff_left hfits).symm
      dsimp only
      rw [← hread]
      cases Text.readUInt64? (Text.trim raw) <;> simp
  | some (.bool _) | some .null | none => simp

theorem Code.Annot.Lasts.lt {a : Annot} {ms : Nat} (h : a.Lasts ms) : ms < 2 ^ 64 := by
  rw [Annot.Lasts] at h
  split at h
  case h_1 n _ | h_2 n _ =>
    have := n.toInt_lt
    omega
  case h_3 => exact h.2
  case h_4 => cases h

theorem timeoutOf_toOption_eq_none_iff {a : Annot} :
    (timeoutOf a).toOption = none ↔ ∀ ms, ¬ a.Lasts ms := by
  constructor
  · intro h ms hms
    have hok : timeoutOf a = .ok (UInt64.ofNat ms) := by
      rw [timeoutOf_eq_ok_iff, UInt64.toNat_ofNat_of_lt' hms.lt]
      exact hms
    rw [hok] at h
    cases h
  · intro h
    cases ha : timeoutOf a with
    | ok d => exact absurd (timeoutOf_eq_ok_iff.mp ha) (h d.toNat)
    | error _ => rfl

/-! ## What the annotations add up to -/

namespace MarkerNames

structure Distinct (names : MarkerNames) : Prop where
  exclusion_inclusion : names.exclusion ≠ names.inclusion
  exclusion_timeout : names.exclusion ≠ names.timeout
  inclusion_timeout : names.inclusion ≠ names.timeout

end MarkerNames

namespace MarkerSet

variable {names : MarkerNames}

theorem mark_eq (hdistinct : names.Distinct) (markers : MarkerSet) (a : Annot) :
    mark names markers a =
      ⟨markers.excluded || a.simpleName = names.exclusion,
        markers.included || a.simpleName = names.inclusion,
        if a.simpleName = names.timeout then (timeoutOf a).toOption else markers.timeout⟩ := by
  rcases hdistinct with ⟨hei, het, hit⟩
  rw [mark]
  split
  case isTrue h => simp [h, hei, het]
  case isFalse he =>
    split
    case isTrue h => simp [h, hit, hei.symm]
    case isFalse hi =>
      by_cases h : a.simpleName = names.timeout
      · simp [h, het.symm, hit.symm]
      · simp [h, he, hi]

/-- Annotations add their markers to those found before them; their last duration marker
replaces the duration found before. -/
theorem foldl_mark (hdistinct : names.Distinct) (markers : MarkerSet)
    (annotations : List Annot) :
    annotations.foldl (mark names) markers =
      ⟨markers.excluded || annotations.any (·.simpleName = names.exclusion),
        markers.included || annotations.any (·.simpleName = names.inclusion),
        if annotations.any (·.simpleName = names.timeout) then
          (ofAnnots names annotations).timeout else markers.timeout⟩ := by
  induction annotations using List.reverseRecOn with
  | nil => simp
  | append_singleton annotations a ih =>
      have hlast : ofAnnots names (annotations ++ [a]) =
          mark names (ofAnnots names annotations) a := by
        simp [ofAnnots]
      rw [List.foldl_append, List.foldl_cons, List.foldl_nil, ih, hlast, mark_eq hdistinct,
        mark_eq hdistinct]
      by_cases ha : a.simpleName = names.timeout <;> simp [ha, Bool.or_assoc]

theorem ofAnnots_append (before after : List Annot) :
    ofAnnots names (before ++ after) = after.foldl (mark names) (ofAnnots names before) := by
  rw [ofAnnots, List.foldl_append, ofAnnots]

theorem timeout_ofAnnots_last (hdistinct : names.Distinct) {before after : List Annot} {a : Annot}
    (ha : a.simpleName = names.timeout) (hafter : ∀ b ∈ after, b.simpleName ≠ names.timeout) :
    (ofAnnots names (before ++ a :: after)).timeout = (timeoutOf a).toOption := by
  have hnone : after.any (·.simpleName = names.timeout) = false := by
    simpa using hafter
  rw [ofAnnots_append, List.foldl_cons, foldl_mark hdistinct, hnone, mark_eq hdistinct]
  simp [ha]

theorem exists_last {annotations : List Annot} {name : String}
    (h : ∃ a ∈ annotations, a.simpleName = name) :
    ∃ before a after, annotations = before ++ a :: after ∧ a.simpleName = name ∧
      ∀ b ∈ after, b.simpleName ≠ name := by
  rcases h with ⟨a, ha, hname⟩
  have hfound : (annotations.reverse.find? (·.simpleName = name)).isSome := by
    rw [List.find?_isSome]
    exact ⟨a, List.mem_reverse.mpr ha, decide_eq_true hname⟩
  rcases Option.isSome_iff_exists.mp hfound with ⟨last, hlast⟩
  rcases List.find?_eq_some_iff_append.mp hlast with ⟨hname, after, before, hparts, hafter⟩
  refine ⟨before.reverse, last, after.reverse, ?_, of_decide_eq_true hname, ?_⟩
  · rw [← List.reverse_reverse annotations, hparts]
    simp
  · intro b hb
    simpa using hafter b (List.mem_reverse.mp hb)

theorem timeout_ofAnnots_eq_some_iff (hdistinct : names.Distinct) {annotations : List Annot}
    {d : UInt64} :
    (ofAnnots names annotations).timeout = some d ↔
      ∃ before a after, annotations = before ++ a :: after ∧ a.simpleName = names.timeout ∧
        a.Lasts d.toNat ∧ ∀ b ∈ after, b.simpleName ≠ names.timeout := by
  constructor
  · intro h
    by_cases hany : ∃ a ∈ annotations, a.simpleName = names.timeout
    · rcases exists_last hany with ⟨before, a, after, hparts, ha, hafter⟩
      rw [hparts, timeout_ofAnnots_last hdistinct ha hafter] at h
      have hok : timeoutOf a = .ok d := by
        cases hvalue : timeoutOf a with
        | ok _ =>
            rw [hvalue] at h
            cases h
            rfl
        | error _ =>
            rw [hvalue] at h
            cases h
      exact ⟨before, a, after, hparts, ha, timeoutOf_eq_ok_iff.mp hok, hafter⟩
    · have hnone : annotations.any (·.simpleName = names.timeout) = false := by
        simpa using hany
      rw [ofAnnots, foldl_mark hdistinct, hnone] at h
      cases h
  · intro ⟨before, a, after, hparts, ha, hlasts, hafter⟩
    rw [hparts, timeout_ofAnnots_last hdistinct ha hafter, timeoutOf_eq_ok_iff.mpr hlasts]
    rfl

/-- Leaving out a malformed duration marker changes the markers unless it is the last
duration marker and those before it give a duration. -/
theorem ofAnnots_without_iff (hdistinct : names.Distinct) {before after : List Annot}
    {a : Annot} (ha : a.simpleName = names.timeout) (hdefect : ∀ ms, ¬ a.Lasts ms) :
    ofAnnots names (before ++ after) = ofAnnots names (before ++ a :: after) ↔
      (∃ b ∈ after, b.simpleName = names.timeout) ∨ (ofAnnots names before).timeout = .none := by
  have hmark : mark names (ofAnnots names before) a =
      { ofAnnots names before with timeout := .none } := by
    simp [mark_eq hdistinct, ha, timeoutOf_toOption_eq_none_iff.mpr hdefect,
      hdistinct.exclusion_timeout.symm, hdistinct.inclusion_timeout.symm]
  rw [ofAnnots_append, ofAnnots_append, List.foldl_cons, hmark, foldl_mark hdistinct,
    foldl_mark hdistinct]
  by_cases hafter : ∃ b ∈ after, b.simpleName = names.timeout
  · have hany : after.any (·.simpleName = names.timeout) = true := by
      simpa using hafter
    simp [hany, hafter]
  · have hany : after.any (·.simpleName = names.timeout) = false := by
      simpa using hafter
    simp [hany, hafter]

/-- What the annotations of a declaration say about tracing it, where the three marker names
differ.  The duration is the one of the last duration marker, so that a malformed marker can
be left out exactly if another one follows or none before it counts. -/
theorem last_duration_counts (hdistinct : names.Distinct) (annotations : List Annot) :
    ((ofAnnots names annotations).excluded = true ↔
        ∃ a ∈ annotations, a.simpleName = names.exclusion) ∧
      ((ofAnnots names annotations).included = true ↔
        ∃ a ∈ annotations, a.simpleName = names.inclusion) ∧
      (∀ d, (ofAnnots names annotations).timeout = some d ↔
        ∃ before a after, annotations = before ++ a :: after ∧ a.simpleName = names.timeout ∧
          a.Lasts d.toNat ∧ ∀ b ∈ after, b.simpleName ≠ names.timeout) ∧
      ∀ before a after, annotations = before ++ a :: after → a.simpleName = names.timeout →
        (∀ ms, ¬ a.Lasts ms) →
        (ofAnnots names (before ++ after) = ofAnnots names annotations ↔
          (∃ b ∈ after, b.simpleName = names.timeout) ∨
            (ofAnnots names before).timeout = .none) := by
  refine ⟨?_, ?_, fun d => timeout_ofAnnots_eq_some_iff hdistinct, ?_⟩
  · rw [ofAnnots, foldl_mark hdistinct]
    simp [none]
  · rw [ofAnnots, foldl_mark hdistinct]
    simp [none]
  · intro before a after hparts ha hdefect
    rw [hparts]
    exact ofAnnots_without_iff hdistinct ha hdefect

def lasting (ms : Int64) : Annot where
  name := "Timeout"
  args := [("value", .int ms)]

theorem lasts_lasting {n : Int64} {ms : Nat} : (lasting n).Lasts ms ↔ n.toInt = ms :=
  Iff.rfl

theorem not_lasts_negative (ms : Nat) : ¬ (lasting (-5)).Lasts ms := by
  rw [lasts_lasting]
  have hneg : (-5 : Int64).toInt = -5 := by decide
  omega

theorem distinct_standard : MarkerNames.standard.Distinct := by
  constructor <;> decide

theorem last_duration_counts_slow :
    MarkerNames.standard.Distinct ∧
      (ofAnnots .standard [lasting 5, lasting (-5), lasting 20]).timeout = some 20 ∧
      ofAnnots .standard [lasting 5, lasting 20] =
        ofAnnots .standard [lasting 5, lasting (-5), lasting 20] := by
  have hcounts :=
    (last_duration_counts distinct_standard [lasting 5, lasting (-5), lasting 20]).2.2
  have hlast : (lasting 20).Lasts 20 := lasts_lasting.mpr (by decide)
  constructor
  · exact distinct_standard
  constructor
  · exact (hcounts.1 20).mpr
      ⟨[lasting 5, lasting (-5)], lasting 20, [], rfl, by decide, hlast, by simp⟩
  · exact (hcounts.2 [lasting 5] (lasting (-5)) [lasting 20] rfl (by decide)
      not_lasts_negative).mpr (.inl ⟨lasting 20, by simp, by decide⟩)

/-- A negative duration is not only left out of account, it also takes back the one before. -/
theorem negative_duration_discards_earlier :
    MarkerNames.standard.Distinct ∧ (lasting (-5)).simpleName = MarkerNames.standard.timeout ∧
      (∀ ms, ¬ (lasting (-5)).Lasts ms) ∧ (lasting 20).Lasts 20 ∧
      (ofAnnots .standard [lasting 20]).timeout = some 20 ∧
      (ofAnnots .standard [lasting 20, lasting (-5)]).timeout = .none := by
  refine ⟨distinct_standard, by decide, not_lasts_negative, ?_, by decide, by decide⟩
  exact lasts_lasting.mpr (by decide)

end MarkerSet
end TraceWeaving
