import Mathlib.Data.List.Chain
import TraceWeaving.Text.Quoted

/-!
# Tokens of source text

Source text falls apart into tokens by the longest match: at every place the longest
beginning that is a token is taken, and blank characters between tokens are skipped.
Texts that are put next to each other come out again when none of them can be extended by
the character that follows it.

Letters beyond ASCII are not told apart from other characters there.  A numeral is read as
a word that starts with a digit, which covers all radixes and type letters; a numeral with a
point or with the sign of an exponent is a fraction.  Literals of single characters and blocks
of text are left out: no expression is written with them.
-/

namespace TraceWeaving
namespace Text

/-! ## Kinds of tokens -/

def isGap (c : Char) : Bool :=
  [' ', '\t', '\n', '\r', '\x0c'].contains c

def isWordChar (c : Char) : Bool :=
  isDigit c || c.isAlpha || c = '_' || c = '$' || 128 ≤ c.toNat

def isIdentifier : List Char → Bool
  | [] => false
  | c :: rest => isWordChar c && !isDigit c && rest.all isWordChar

def isInteger : List Char → Bool
  | [] => false
  | c :: rest => isDigit c && rest.all isWordChar

def isTypeLetter (cs : List Char) : Bool :=
  [[], ['f'], ['F'], ['d'], ['D']].contains cs

def dropSign : List Char → List Char
  | '+' :: rest | '-' :: rest => rest
  | rest => rest

def isScale : List Char → Bool
  | 'e' :: rest | 'E' :: rest =>
      !((dropSign rest).takeWhile isDigit).isEmpty
        && isTypeLetter ((dropSign rest).dropWhile isDigit)
  | rest => isTypeLetter rest

/-- A numeral with a point or an exponent; there is a digit on one side of the point. -/
def isFraction (cs : List Char) : Bool :=
  let whole := cs.takeWhile isDigit
  match cs.dropWhile isDigit with
  | '.' :: rest =>
      !(whole.isEmpty && (rest.takeWhile isDigit).isEmpty) && isScale (rest.dropWhile isDigit)
  | rest => !whole.isEmpty && isScale rest

/-- The rest of a string literal, which ends with its first quote; the character behind a
backslash is no such quote. -/
def closesQuote : Bool → List Char → Bool
  | _, [] => false
  | true, _ :: rest => closesQuote false rest
  | false, c :: rest =>
      if c = '"' then rest.isEmpty
      else c ≠ '\n' && c ≠ '\r' && closesQuote (c = '\\') rest

def isQuoted : List Char → Bool
  | '"' :: rest => closesQuote false rest
  | _ => false

/-- The separators and operators, and what opens a comment. -/
def symbols : List String :=
  ["(", ")", "[", "]", "\x7b", "\x7d", ";", ",", ".", "...", "@", "::", "=", ">", "<", "!", "~",
   "?", ":", "->", "==", ">=", "<=", "!=", "&&", "||", "++", "--", "+", "-", "*", "/", "&", "|",
   "^", "%", "<<", ">>", ">>>", "+=", "-=", "*=", "/=", "&=", "|=", "^=", "%=", "<<=", ">>=",
   ">>>=", "//", "/*"]

def isSymbol (cs : List Char) : Bool :=
  symbols.any fun s => s.toList = cs

section

variable (fractions : Bool)

/-- Whether the characters are a token; fractions may be left out. -/
def isToken (cs : List Char) : Bool :=
  isIdentifier cs || isInteger cs || isQuoted cs || isSymbol cs || (fractions && isFraction cs)

/-! ## Longest match -/

def longestToken? (cs : List Char) : Nat → Option (List Char × List Char)
  | 0 => none
  | n + 1 =>
      if isToken fractions (cs.take (n + 1)) then some (cs.take (n + 1), cs.drop (n + 1))
      else longestToken? cs n

def nextToken? (cs : List Char) : Option (List Char × List Char) :=
  longestToken? fractions cs cs.length

def tokensWithin : Nat → List Char → Option (List (List Char))
  | _, [] => some []
  | 0, _ :: _ => none
  | bound + 1, c :: cs =>
      if isGap c then tokensWithin bound cs
      else do
        let (token, rest) ← nextToken? fractions (c :: cs)
        return token :: (← tokensWithin bound rest)

/-- The tokens of a text, if it falls apart into tokens. -/
def tokens? (s : String) : Option (List String) :=
  (tokensWithin fractions s.toList.length s.toList).map (·.map String.ofList)

/-- A token that starts like this can go on with the character. -/
def Extends (t : List Char) (c : Char) : Prop :=
  ∃ rest, isToken fractions (t ++ c :: rest) = true

end

section

variable {fractions : Bool}

theorem isToken_iff {t : List Char} : isToken fractions t = true ↔
    isIdentifier t = true ∨ isInteger t = true ∨ isQuoted t = true ∨ isSymbol t = true ∨
      fractions = true ∧ isFraction t = true := by
  simp [isToken, or_assoc]

/-! ## First characters -/

theorem forall_of_all {strings : List String} {f : String → Option Char}
    {q : String → Char → Prop} [∀ s c, Decidable (q s c)]
    (h : (strings.all fun s => (f s).all fun c => q s c) = true) :
    ∀ s ∈ strings, ∀ c ∈ f s, q s c := by
  intro s hs c hc
  have hall := List.all_eq_true.mp h s hs
  rw [Option.mem_def.mp hc] at hall
  exact of_decide_eq_true hall

theorem isWordChar_of_isDigit {c : Char} (h : isDigit c = true) : isWordChar c = true := by
  simp [isWordChar, h]

theorem head_of_isSymbol {c : Char} {t : List Char} (h : isSymbol (c :: t) = true) :
    isWordChar c = false ∧ isGap c = false ∧ c ≠ '"' := by
  have hall : ∀ s ∈ symbols, ∀ c ∈ s.toList.head?,
      isWordChar c = false ∧ isGap c = false ∧ c ≠ '"' := forall_of_all (by decide)
  rcases List.any_eq_true.mp h with ⟨s, hs, heq⟩
  refine hall s hs c ?_
  rw [of_decide_eq_true heq]
  rfl

theorem head_of_isFraction {c : Char} {t : List Char} (h : isFraction (c :: t) = true) :
    isDigit c = true ∨ c = '.' := by
  by_cases hc : isDigit c = true
  · exact .inl hc
  · right
    simp only [isFraction, List.takeWhile_cons, List.dropWhile_cons, hc] at h
    split at h
    · rename_i heq
      exact List.head_eq_of_cons_eq heq
    · exact absurd h (by simp)

theorem head_of_isIdentifier {c : Char} {t : List Char} (h : isIdentifier (c :: t) = true) :
    isWordChar c = true := by
  simp only [isIdentifier, Bool.and_eq_true] at h
  exact h.1.1

theorem head_of_isInteger {c : Char} {t : List Char} (h : isInteger (c :: t) = true) :
    isDigit c = true :=
  (Bool.and_eq_true_iff.mp h).1

theorem head_of_isQuoted {c : Char} {t : List Char} (h : isQuoted (c :: t) = true) : c = '"' := by
  unfold isQuoted at h
  split at h
  · rename_i heq
    exact List.head_eq_of_cons_eq heq
  · exact nomatch h

theorem isToken_letter {c : Char} {t : List Char} (hword : isWordChar c = true)
    (hdigit : isDigit c = false) :
    isToken fractions (c :: t) = true ↔ isIdentifier (c :: t) = true := by
  rw [isToken_iff]
  constructor
  · rintro (h | h | h | h | h)
    · exact h
    · exact absurd h (by simp [isInteger, hdigit])
    · obtain rfl := head_of_isQuoted h
      exact absurd hword (by decide)
    · exact absurd hword (by simp [(head_of_isSymbol h).1])
    · rcases head_of_isFraction h.2 with hc | rfl
      · exact absurd hc (by simp [hdigit])
      · exact absurd hword (by decide)
  · exact .inl

theorem isToken_digit {c : Char} {t : List Char} (hdigit : isDigit c = true) :
    isToken fractions (c :: t) = true ↔
      isInteger (c :: t) = true ∨ fractions = true ∧ isFraction (c :: t) = true := by
  have hword := isWordChar_of_isDigit hdigit
  rw [isToken_iff]
  constructor
  · rintro (h | h | h | h | h)
    · exact absurd h (by simp [isIdentifier, hdigit])
    · exact .inl h
    · obtain rfl := head_of_isQuoted h
      exact absurd hword (by decide)
    · exact absurd hword (by simp [(head_of_isSymbol h).1])
    · exact .inr h
  · exact fun h => .inr (h.imp_right fun h => .inr (.inr h))

theorem isToken_quote {t : List Char} :
    isToken fractions ('"' :: t) = true ↔ closesQuote false t = true := by
  rw [isToken_iff]
  constructor
  · rintro (h | h | h | h | h)
    · exact absurd (head_of_isIdentifier h) (by decide)
    · exact absurd (head_of_isInteger h) (by decide)
    · exact h
    · exact absurd rfl (head_of_isSymbol h).2.2
    · exact absurd (head_of_isFraction h.2) (by decide)
  · exact fun h => .inr (.inr (.inl h))

/-- A token that starts with any other character is a symbol, or a fraction without digits in
front of its point. -/
theorem isToken_mark {c : Char} {t : List Char} (hword : isWordChar c = false) (hquote : c ≠ '"') :
    isToken fractions (c :: t) = true ↔
      isSymbol (c :: t) = true ∨ fractions = true ∧ isFraction (c :: t) = true := by
  rw [isToken_iff]
  constructor
  · rintro (h | h | h | h | h)
    · exact absurd h (by simp [isIdentifier, hword])
    · exact absurd (isWordChar_of_isDigit (head_of_isInteger h)) (by simp [hword])
    · exact absurd (head_of_isQuoted h) hquote
    · exact .inl h
    · exact .inr h
  · exact fun h => .inr (.inr (.inr h))

theorem isGap_of_isToken {c : Char} {t : List Char} (h : isToken fractions (c :: t) = true) :
    isGap c = false := by
  have hgap : ∀ c, isGap c = true → isWordChar c = false ∧ c ≠ '"' ∧ c ≠ '.' := by
    intro c hc
    simp only [isGap, List.contains_iff_mem, List.mem_cons, List.not_mem_nil, or_false] at hc
    rcases hc with rfl | rfl | rfl | rfl | rfl <;> decide
  cases hc : isGap c with
  | false => rfl
  | true =>
      rcases hgap c hc with ⟨hword, hquote, hpoint⟩
      rcases (isToken_mark hword hquote).mp h with h | ⟨_, h⟩
      · exact absurd hc (by simp [(head_of_isSymbol h).2.1])
      · rcases head_of_isFraction h with hdigit | hdot
        · exact absurd (isWordChar_of_isDigit hdigit) (by simp [hword])
        · exact absurd hdot hpoint

theorem ne_nil_of_isToken {t : List Char} (h : isToken fractions t = true) : t ≠ [] := by
  rintro rfl
  cases fractions <;> exact absurd h (by decide)

/-! ## Texts that do not run together -/

theorem longestToken?_append {t rest : List Char} (ht : isToken fractions t = true) {n : Nat}
    (hle : t.length ≤ n)
    (hlongest : ∀ m, t.length < m → m ≤ n → isToken fractions ((t ++ rest).take m) = false) :
    longestToken? fractions (t ++ rest) n = some (t, rest) := by
  induction n with
  | zero =>
      have hnil : t = [] := List.eq_nil_of_length_eq_zero (Nat.le_zero.mp hle)
      exact absurd hnil (ne_nil_of_isToken ht)
  | succ n ih =>
      unfold longestToken?
      by_cases heq : t.length = n + 1
      · have htake : (t ++ rest).take (n + 1) = t := by rw [← heq, List.take_left']; rfl
        have hdrop : (t ++ rest).drop (n + 1) = rest := by rw [← heq, List.drop_left']; rfl
        rw [htake, hdrop, if_pos ht]
      · rw [if_neg (by simp [hlongest (n + 1) (by omega) (Nat.le_refl _)])]
        exact ih (by omega) fun m hm hmn => hlongest m hm (by omega)

theorem longestToken?_spec {cs t rest : List Char} {n : Nat} (hn : n ≤ cs.length)
    (h : longestToken? fractions cs n = some (t, rest)) :
    t ++ rest = cs ∧ ∀ m, t.length < m → m ≤ n → isToken fractions (cs.take m) = false := by
  induction n with
  | zero => exact nomatch h
  | succ n ih =>
      unfold longestToken? at h
      split at h
      · obtain ⟨rfl, rfl⟩ := Prod.mk.inj (Option.some.inj h)
        refine ⟨List.take_append_drop _ _, fun m hm hmn => ?_⟩
        rw [List.length_take] at hm
        omega
      · rename_i hnot
        rcases ih (by omega) h with ⟨happend, hlongest⟩
        refine ⟨happend, fun m hm hmn => ?_⟩
        rcases Nat.lt_or_ge n m with hlt | hge
        · rw [show m = n + 1 by omega]
          exact Bool.eq_false_iff.mpr hnot
        · exact hlongest m hm hge

def Apart (fractions : Bool) (p q : List Char) : Prop :=
  ∀ c ∈ q.head?, ¬ Extends fractions p c

/-- The first text and the character that the second one starts with are no token. -/
def Ends (fractions : Bool) (p q : List Char) : Prop :=
  ∀ c ∈ q.head?, isToken fractions (p ++ [c]) = false

theorem tokensWithin_cons (bound : Nat) (c : Char) (cs : List Char) :
    tokensWithin fractions (bound + 1) (c :: cs) =
      if isGap c then tokensWithin fractions bound cs
      else nextToken? fractions (c :: cs) >>= fun found =>
        tokensWithin fractions bound found.2 >>= fun tokens => pure (found.1 :: tokens) :=
  rfl

theorem tokensWithin_blank (bound : Nat) (cs : List Char) :
    tokensWithin fractions (bound + 1) (' ' :: cs) = tokensWithin fractions bound cs := by
  rw [tokensWithin_cons, if_pos (by decide)]

theorem tokensWithin_append {t rest : List Char} {tokens : List (List Char)} {bound : Nat}
    (ht : isToken fractions t = true) (hapart : Apart fractions t rest)
    (hrest : tokensWithin fractions bound rest = some tokens) :
    tokensWithin fractions (bound + 1) (t ++ rest) = some (t :: tokens) := by
  have hlongest : ∀ m, t.length < m → m ≤ (t ++ rest).length →
      isToken fractions ((t ++ rest).take m) = false := by
    intro m hm hle
    rw [List.take_append, List.take_of_length_le (Nat.le_of_lt hm)]
    cases rest with
    | nil =>
        simp only [List.append_nil] at hle
        omega
    | cons d rest =>
        rcases Nat.exists_eq_add_of_lt hm with ⟨k, rfl⟩
        have htake : (d :: rest).take (t.length + k + 1 - t.length) = d :: rest.take k := by
          rw [show t.length + k + 1 - t.length = k + 1 by omega, List.take_succ_cons]
        rw [htake]
        exact Bool.eq_false_iff.mpr fun htoken => hapart d rfl ⟨rest.take k, htoken⟩
  have hfound : nextToken? fractions (t ++ rest) = some (t, rest) :=
    longestToken?_append ht (by simp) hlongest
  cases t with
  | nil => exact absurd rfl (ne_nil_of_isToken ht)
  | cons c t =>
      rw [List.cons_append] at hfound ⊢
      rw [tokensWithin_cons, if_neg (by simp [isGap_of_isToken ht]), hfound]
      simp [hrest]

theorem of_tokensWithin_append {t rest : List Char} {ts : List (List Char)} {bound : Nat}
    (ht : isToken fractions t = true)
    (h : tokensWithin fractions bound (t ++ rest) = some (t :: ts)) :
    Ends fractions t rest ∧ ∃ bound', tokensWithin fractions bound' rest = some ts := by
  cases t with
  | nil => exact absurd rfl (ne_nil_of_isToken ht)
  | cons c t =>
      cases bound with
      | zero => exact nomatch h
      | succ bound =>
          rw [List.cons_append, tokensWithin_cons, if_neg (by simp [isGap_of_isToken ht])] at h
          rcases Option.bind_eq_some_iff.mp h with ⟨⟨token, r⟩, hfound, h⟩
          rcases Option.bind_eq_some_iff.mp h with ⟨ts', hts', heq⟩
          obtain ⟨rfl, rfl⟩ := List.cons.inj (Option.some.inj heq)
          rcases longestToken?_spec (Nat.le_refl _) hfound with ⟨happend, hlongest⟩
          obtain rfl := List.append_cancel_left (happend.trans (List.cons_append ..).symm)
          refine ⟨fun d hd => ?_, bound, hts'⟩
          cases r with
          | nil => exact nomatch hd
          | cons d' r =>
              obtain rfl := Option.some.inj hd
              have hnext := hlongest ((c :: t).length + 1) (Nat.lt_succ_self _) (by simp)
              rw [← List.cons_append, List.take_length_add_append] at hnext
              exact hnext

/-! ## Rows of texts -/

def Pieces (fractions : Bool) (ps : List (List Char)) : Prop :=
  ∀ p ∈ ps, p = [' '] ∨ isToken fractions p = true

theorem ne_blank_of_isToken {t : List Char} (h : isToken fractions t = true) : t ≠ [' '] := by
  rintro rfl
  exact absurd (isGap_of_isToken h) (by decide)

namespace Pieces

variable {p : List Char} {ps : List (List Char)}

theorem tail (h : Pieces fractions (p :: ps)) : Pieces fractions ps :=
  fun q hq => h q (List.mem_cons_of_mem p hq)

theorem head?_flatten (h : Pieces fractions ps) : ps.flatten.head? = ps.head?.bind List.head? := by
  cases ps with
  | nil => rfl
  | cons p ps =>
      cases p with
      | nil =>
          rcases h [] List.mem_cons_self with hblank | htoken
          · exact nomatch hblank
          · exact absurd rfl (ne_nil_of_isToken htoken)
      | cons c p => rfl

/-- Pieces that stay apart from their neighbours come out again. -/
theorem tokensWithin_flatten (h : Pieces fractions ps) (hapart : ps.IsChain (Apart fractions))
    {bound : Nat} (hbound : ps.flatten.length ≤ bound) :
    tokensWithin fractions bound ps.flatten = some (ps.filter (· ≠ [' '])) := by
  induction ps generalizing bound with
  | nil => cases bound <;> rfl
  | cons p ps ih =>
      have hlen : p.length + ps.flatten.length ≤ bound := by
        simpa only [List.flatten_cons, List.length_append] using hbound
      rcases h p List.mem_cons_self with rfl | htoken
      · cases bound with
        | zero => exact absurd hlen (by simp)
        | succ bound =>
            have hrest : ps.flatten.length ≤ bound := by
              simp only [List.length_singleton] at hlen
              omega
            have hgo := ih h.tail hapart.tail hrest
            rw [List.flatten_cons, List.cons_append, List.nil_append, tokensWithin_blank, hgo]
            simp
      · have hpos := List.length_pos_of_ne_nil (ne_nil_of_isToken htoken)
        cases bound with
        | zero => omega
        | succ bound =>
            have hrest : ps.flatten.length ≤ bound := by omega
            have hgo := ih h.tail hapart.tail hrest
            have hnext : Apart fractions p ps.flatten := by
              intro c hc
              rw [h.tail.head?_flatten] at hc
              cases ps with
              | nil => exact nomatch hc
              | cons q ps => exact (List.isChain_cons_cons.mp hapart).1 c hc
            rw [List.flatten_cons, tokensWithin_append htoken hnext hgo]
            simp [ne_blank_of_isToken htoken]

/-- Pieces that come out again end at their neighbours. -/
theorem of_tokensWithin_flatten (h : Pieces fractions ps) {bound : Nat}
    (htokens : tokensWithin fractions bound ps.flatten = some (ps.filter (· ≠ [' ']))) :
    ps.IsChain (Ends fractions) := by
  induction ps generalizing bound with
  | nil => exact .nil
  | cons p ps ih =>
      have hgo : Ends fractions p ps.flatten ∧
          ∃ bound', tokensWithin fractions bound' ps.flatten =
            some (ps.filter (· ≠ [' '])) := by
        rcases h p List.mem_cons_self with rfl | htoken
        · constructor
          · intro c _
            exact Bool.eq_false_iff.mpr fun htoken => absurd (isGap_of_isToken htoken) (by decide)
          · cases bound with
            | zero => exact nomatch htokens
            | succ bound =>
                rw [List.flatten_cons, List.cons_append, List.nil_append,
                  tokensWithin_blank] at htokens
                exact ⟨bound, by simpa using htokens⟩
        · rw [List.flatten_cons, List.filter_cons_of_pos
            (by simp [ne_blank_of_isToken htoken])] at htokens
          exact of_tokensWithin_append htoken htokens
      rcases hgo with ⟨hnext, bound', hrest⟩
      cases ps with
      | nil => exact .singleton p
      | cons q ps =>
          refine List.isChain_cons_cons.mpr ⟨fun c hc => hnext c ?_, ih h.tail hrest⟩
          rw [h.tail.head?_flatten]
          exact hc

end Pieces

/-! ## What does not go on -/

theorem not_extends_identifier {t : List Char} {c : Char} (ht : isIdentifier t = true)
    (hc : isWordChar c = false) : ¬ Extends fractions t c := by
  rintro ⟨rest, h⟩
  cases t with
  | nil => exact nomatch ht
  | cons d t =>
      simp only [isIdentifier, Bool.and_eq_true, Bool.not_eq_true'] at ht
      have hword := (isToken_letter ht.1.1 ht.1.2).mp h
      simp [isIdentifier, hc] at hword

theorem isScale_head {c : Char} {t : List Char} (h : isScale (c :: t) = true) :
    c ∈ ['e', 'E', 'f', 'F', 'd', 'D'] := by
  unfold isScale at h
  split at h
  · rename_i heq
    simp [List.head_eq_of_cons_eq heq]
  · rename_i heq
    simp [List.head_eq_of_cons_eq heq]
  · simp only [isTypeLetter, List.contains_iff_mem, List.mem_cons, List.not_mem_nil,
      List.cons.injEq, reduceCtorEq, false_or, or_false] at h
    rcases h with ⟨rfl, _⟩ | ⟨rfl, _⟩ | ⟨rfl, _⟩ | ⟨rfl, _⟩ <;> simp

/-- Behind its digits a fraction goes on with a point, an exponent or a type letter. -/
theorem head_of_isFraction_append {ds t : List Char} {c : Char}
    (hds : ∀ d ∈ ds, isDigit d = true) (hc : isDigit c = false)
    (h : isFraction (ds ++ c :: t) = true) : c = '.' ∨ c ∈ ['e', 'E', 'f', 'F', 'd', 'D'] := by
  have hdrop : (ds ++ c :: t).dropWhile isDigit = c :: t := by
    rw [List.dropWhile_append_of_pos hds, List.dropWhile_cons_of_neg (by simp [hc])]
  simp only [isFraction, hdrop] at h
  split at h
  · rename_i heq
    exact .inl (List.head_eq_of_cons_eq heq)
  · simp only [Bool.and_eq_true] at h
    exact .inr (isScale_head h.2)

theorem isFraction_point {ds : List Char} (hne : ds ≠ []) (hds : ∀ d ∈ ds, isDigit d = true) :
    isFraction (ds ++ ['.']) = true := by
  have hdrop : (ds ++ ['.']).dropWhile isDigit = ['.'] := by
    rw [List.dropWhile_append_of_pos hds]
    rfl
  have htake : (ds ++ ['.']).takeWhile isDigit = ds := by
    rw [List.takeWhile_append_of_pos hds]
    simp [show isDigit '.' = false by decide]
  simp only [isFraction, hdrop, htake]
  simp [hne, isScale, isTypeLetter]

theorem isInteger_digits {ds rest : List Char} (hne : ds ≠ []) (hds : ∀ d ∈ ds, isDigit d = true)
    (hrest : ∀ c ∈ rest, isWordChar c = true) : isInteger (ds ++ rest) = true := by
  cases ds with
  | nil => exact absurd rfl hne
  | cons d ds =>
      simp only [List.cons_append, isInteger, Bool.and_eq_true, List.all_eq_true]
      refine ⟨hds d List.mem_cons_self, fun c hc => ?_⟩
      rcases List.mem_append.mp hc with hc | hc
      · exact isWordChar_of_isDigit (hds c (List.mem_cons_of_mem d hc))
      · exact hrest c hc

theorem isWordChar_of_scale {c : Char} (h : c ∈ ['e', 'E', 'f', 'F', 'd', 'D']) :
    isWordChar c = true := by
  simp only [List.mem_cons, List.not_mem_nil, or_false] at h
  rcases h with rfl | rfl | rfl | rfl | rfl | rfl <;> decide

/-- A numeral of digits ends with the first character that is no part of words; where there are
fractions, a point may follow it. -/
theorem not_extends_digits {ds : List Char} {c : Char} (hne : ds ≠ [])
    (hds : ∀ d ∈ ds, isDigit d = true) (hc : isWordChar c = false)
    (hpoint : fractions = true → c ≠ '.') : ¬ Extends fractions ds c := by
  rintro ⟨rest, h⟩
  cases ds with
  | nil => exact hne rfl
  | cons d ds =>
      rcases (isToken_digit (hds d List.mem_cons_self)).mp h with h | ⟨hfractions, h⟩
      · simp [isInteger, hc] at h
      · have hdigit : isDigit c = false := by
          exact Bool.eq_false_iff.mpr fun hd => by simp [isWordChar_of_isDigit hd] at hc
        rcases head_of_isFraction_append hds hdigit h with rfl | hscale
        · exact hpoint hfractions rfl
        · exact absurd (isWordChar_of_scale hscale) (by simp [hc])

theorem not_extends_long {ds : List Char} {c : Char} (hne : ds ≠ [])
    (hds : ∀ d ∈ ds, isDigit d = true) (hc : isWordChar c = false) :
    ¬ Extends fractions (ds ++ ['L']) c := by
  rintro ⟨rest, h⟩
  cases ds with
  | nil => exact hne rfl
  | cons d ds =>
      rw [List.append_assoc] at h
      rcases (isToken_digit (hds d List.mem_cons_self)).mp h with h | ⟨_, h⟩
      · simp [isInteger, hc] at h
      · exact absurd (head_of_isFraction_append hds (by decide) h) (by decide)

theorem closesQuote_append {escaped : Bool} {t rest : List Char}
    (ht : closesQuote escaped t = true) (h : closesQuote escaped (t ++ rest) = true) :
    rest = [] := by
  induction t generalizing escaped with
  | nil => exact nomatch ht
  | cons c t ih =>
      cases escaped with
      | true => exact ih ht h
      | false =>
          rw [List.cons_append] at h
          unfold closesQuote at ht h
          split at ht
          · rename_i hquote
            rw [if_pos hquote, List.isEmpty_iff] at h
            exact (List.append_eq_nil_iff.mp h).2
          · rename_i hquote
            rw [if_neg hquote, Bool.and_eq_true] at h
            exact ih (Bool.and_eq_true_iff.mp ht).2 h.2

theorem not_extends_quoted {t : List Char} {c : Char} (ht : isQuoted t = true) :
    ¬ Extends fractions t c := by
  rintro ⟨rest, h⟩
  cases t with
  | nil => exact nomatch ht
  | cons d t =>
      obtain rfl := head_of_isQuoted ht
      exact absurd (closesQuote_append ht (isToken_quote.mp h)) (by simp)

def startsMark (s : String) : Bool :=
  s.toList.head?.any fun c => !isWordChar c && c ≠ '"' && c ≠ '.'

theorem not_extends_symbol {s : String} {c : Char} (hs : startsMark s = true)
    (h : ∀ x ∈ symbols, ¬ s.toList ++ [c] <+: x.toList) :
    ¬ Extends fractions s.toList c := by
  rintro ⟨rest, htoken⟩
  unfold startsMark at hs
  cases hlist : s.toList with
  | nil =>
      rw [hlist] at hs
      exact nomatch hs
  | cons d t =>
      rw [hlist] at hs h htoken
      simp only [List.head?_cons, Option.any_some, Bool.and_eq_true, Bool.not_eq_true',
        decide_eq_true_eq] at hs
      rcases hs with ⟨⟨hword, hquote⟩, hpoint⟩
      rcases (isToken_mark hword hquote).mp htoken with hsymbol | ⟨_, hfraction⟩
      · rcases List.any_eq_true.mp hsymbol with ⟨x, hx, heq⟩
        refine h x hx ?_
        rw [of_decide_eq_true heq]
        exact ⟨rest, by simp⟩
      · rcases head_of_isFraction hfraction with hdigit | hdot
        · exact absurd (isWordChar_of_isDigit hdigit) (by simp [hword])
        · exact hpoint hdot

theorem not_extends_point {c : Char} (hword : isWordChar c = true) (hdigit : isDigit c = false) :
    ¬ Extends fractions ['.'] c := by
  rintro ⟨rest, h⟩
  rw [List.cons_append, List.nil_append] at h
  rcases (isToken_mark (by decide) (by decide)).mp h with hsymbol | ⟨_, hfraction⟩
  · have hdots : ∀ x ∈ symbols, ∀ c ∈ x.toList.tail.head?, x.toList.head? = some '.' →
        c = '.' := forall_of_all (by decide)
    rcases List.any_eq_true.mp hsymbol with ⟨x, hx, heq⟩
    have hlist : x.toList = '.' :: c :: rest := of_decide_eq_true heq
    have hdot : c = '.' := hdots x hx c (by rw [hlist]; rfl) (by rw [hlist]; rfl)
    rw [hdot] at hword
    exact absurd hword (by decide)
  · simp [isFraction, hdigit, show isDigit '.' = false by decide] at hfraction

end

end Text
end TraceWeaving
