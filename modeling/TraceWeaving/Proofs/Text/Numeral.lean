import TraceWeaving.Text.Numeral

/-!
# Numerals

A natural number is written in digits, without a zero in front, and its digits have its value.
-/

namespace TraceWeaving
namespace Text

theorem toList_natText (n : Nat) : (natText n).toList = Nat.toDigits 10 n :=
  String.toList_ofList

theorem digits_natText (n : Nat) : ∀ c ∈ (natText n).toList, isDigit c = true := by
  intro c hc
  rw [toList_natText] at hc
  have hdigit := Nat.isDigit_of_mem_toDigits (by decide) (by decide) hc
  simp only [Char.isDigit, Bool.and_eq_true, decide_eq_true_eq] at hdigit
  simp only [isDigit, Bool.and_eq_true, decide_eq_true_eq]
  exact hdigit

theorem natText_ne_nil (n : Nat) : (natText n).toList ≠ [] := by
  rw [toList_natText]
  exact Nat.toDigits_ne_nil

theorem digitsValue_natText (n : Nat) : digitsValue (natText n).toList = n := by
  have hvalue : ∀ cs, digitsValue cs = Nat.ofDigitChars 10 cs 0 := by
    intro cs
    have hstep : (fun value c => value * 10 + digitValue c) =
        fun value c => 10 * value + (c.toNat - '0'.toNat) := by
      funext value c
      rw [Nat.mul_comm]
      rfl
    rw [Nat.ofDigitChars_eq_foldl, ← hstep]
    rfl
  rw [hvalue, toList_natText, Nat.ofDigitChars_ten_toDigits]

theorem head_natText {n : Nat} (hn : 0 < n) : ∀ c ∈ (natText n).toList.head?, c ≠ '0' := by
  rw [toList_natText]
  induction n using Nat.strongRecOn with
  | ind n ih =>
      intro c hc
      rcases Nat.lt_or_ge n 10 with hsmall | hlarge
      · rw [Nat.toDigits_of_lt_base hsmall] at hc
        obtain rfl := Option.some.inj hc
        rw [ne_eq, Nat.digitChar_eq_zero]
        omega
      · rw [Nat.toDigits_of_base_le (by decide) hlarge, List.head?_append] at hc
        cases hhead : (Nat.toDigits 10 (n / 10)).head? with
        | none => exact absurd (List.head?_eq_none_iff.mp hhead) Nat.toDigits_ne_nil
        | some d =>
            rw [hhead] at hc
            obtain rfl := Option.some.inj hc
            exact ih (n / 10) (by omega) (by omega) d hhead

end Text
end TraceWeaving
