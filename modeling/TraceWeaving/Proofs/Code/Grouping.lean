import TraceWeaving.Proofs.Code.Precedence
import TraceWeaving.Proofs.Code.Splitting

/-!
# Texts of expressions keep their grouping

The text of an expression, taken apart into tokens and read by binding strength, gives the
expression back, so two expressions with one text are the same.
-/

namespace TraceWeaving
namespace Code

open Text (digits_natText isDigit isIdentifier isWordChar natText_ne_nil symbols)

/-! ## Tokens as lexemes -/

def unescaped : Char → Char
  | 'n' => '\n'
  | 'r' => '\r'
  | 't' => '\t'
  | c => c

def unescape : List Char → List Char
  | [] => []
  | '\\' :: c :: rest => unescaped c :: unescape rest
  | c :: rest => c :: unescape rest

def Literal.ofNumeral (cs : List Char) : Literal :=
  if cs.getLast? = some 'L' then .long (Int64.ofInt (Nat.ofDigitChars 10 cs.dropLast 0))
  else .int (Int64.ofInt (Nat.ofDigitChars 10 cs 0))

namespace Lexeme

def ofWord : String → Lexeme
  | "true" => .literal (.bool true)
  | "false" => .literal (.bool false)
  | "null" => .literal .null
  | s => .word s

def ofToken (t : String) : Lexeme :=
  if isIdentifier t.toList then ofWord t
  else if Text.isInteger t.toList then .literal (.ofNumeral t.toList)
  else if Text.isQuoted t.toList then
    .literal (.str (String.ofList (unescape t.toList.tail.dropLast)))
  else .symbol t

end Lexeme

namespace Literal

def Unsigned : Literal → Prop
  | int n | long n => 0 ≤ n.toInt
  | bool _ | str _ | null => True

instance : DecidablePred Unsigned
  | int n | long n => inferInstanceAs (Decidable (0 ≤ n.toInt))
  | bool _ | str _ | null => .isTrue trivial

end Literal

theorem numeralTokens_of_nonneg {n : Int} (hn : 0 ≤ n) (letter : String) :
    numeralTokens n letter = [Text.natText n.natAbs ++ letter] := by
  unfold numeralTokens
  rw [if_neg (Int.not_lt.mpr hn)]

theorem unescape_literalChar (c : Char) (rest : List Char) :
    unescape (Text.literalChar c ++ rest) = c :: unescape rest := by
  unfold Text.literalChar
  split_ifs with hquote hslash hline hreturn htab
  · rw [hquote]
    rfl
  · rw [hslash]
    rfl
  · rw [hline]
    rfl
  · rw [hreturn]
    rfl
  · rw [htab]
    rfl
  · exact unescape.eq_3 c rest fun _ _ h _ => hslash h

theorem unescape_escaped (cs : List Char) : unescape (cs.flatMap Text.literalChar) = cs := by
  induction cs with
  | nil => rfl
  | cons c cs ih => rw [List.flatMap_cons, unescape_literalChar, ih]

theorem ofInt_digits {n : Int64} (hn : 0 ≤ n.toInt) :
    Int64.ofInt (Nat.ofDigitChars 10 (Text.natText n.toInt.natAbs).toList 0) = n := by
  rw [Text.natText, String.toList_ofList, Nat.ofDigitChars_ten_toDigits, Int.natAbs_of_nonneg hn,
    Int64.ofInt_toInt]

namespace Lexeme

theorem ofToken_numeral {n : Nat} {letter : String}
    (hletter : letter.toList.all isWordChar = true) :
    ofToken (Text.natText n ++ letter) =
      .literal (.ofNumeral ((Text.natText n).toList ++ letter.toList)) := by
  have hinteger : Text.isInteger ((Text.natText n).toList ++ letter.toList) = true :=
    Text.isInteger_digits (natText_ne_nil n) (digits_natText n) (List.all_eq_true.mp hletter)
  have hidentifier : isIdentifier ((Text.natText n).toList ++ letter.toList) = false := by
    cases hdigits : (Text.natText n).toList with
    | nil => exact absurd hdigits (natText_ne_nil n)
    | cons d ds =>
        have hdigit : isDigit d = true := digits_natText n d (by simp [hdigits])
        simp [isIdentifier, hdigit]
  unfold ofToken
  rw [String.toList_append, hidentifier, hinteger]
  simp

theorem ofToken_quoted (s : String) : ofToken (Text.literal s) = .literal (.str s) := by
  have hlist : (Text.literal s).toList = '"' :: (s.toList.flatMap Text.literalChar ++ ['"']) := by
    simp [Text.literal, Text.between, Text.escapeWith]
  have hquoted := isQuoted_literal s
  have hidentifier : isIdentifier (Text.literal s).toList = false := by
    rw [hlist]
    rfl
  have hinteger : Text.isInteger (Text.literal s).toList = false := by
    rw [hlist]
    rfl
  have hbody : unescape (Text.literal s).toList.tail.dropLast = s.toList := by
    rw [hlist, List.tail_cons, List.dropLast_concat, unescape_escaped]
  simp [ofToken, hidentifier, hinteger, hquoted, hbody]

theorem ofToken_symbol {s : String} (hs : s ∈ symbols) : ofToken s = .symbol s := by
  have hkinds : ∀ s ∈ symbols, isIdentifier s.toList = false ∧ Text.isInteger s.toList = false ∧
      Text.isQuoted s.toList = false := by decide
  rcases hkinds s hs with ⟨hidentifier, hinteger, hquoted⟩
  simp [ofToken, hidentifier, hinteger, hquoted]

theorem ofToken_literal {value : Literal} (h : value.Unsigned) :
    value.tokens.map ofToken = [.literal value] := by
  cases value with
  | int n =>
      have hdigits : (Text.natText n.toInt.natAbs).toList.getLast? ≠ some 'L' := by
        intro hlast
        exact absurd (digits_natText _ 'L' (List.mem_of_getLast? hlast)) (by decide)
      show (numeralTokens n.toInt "").map ofToken = _
      rw [numeralTokens_of_nonneg h, List.map_singleton, ofToken_numeral (by decide)]
      simp [Literal.ofNumeral, hdigits, ofInt_digits h]
  | long n =>
      show (numeralTokens n.toInt "L").map ofToken = _
      rw [numeralTokens_of_nonneg h, List.map_singleton, ofToken_numeral (by decide)]
      simp [Literal.ofNumeral, ofInt_digits h]
  | bool b => cases b <;> rfl
  | str s => exact congrArg (List.cons · []) (ofToken_quoted s)
  | null => rfl

theorem ofToken_word {s : String} (hs : isIdentifier s.toList = true)
    (hs' : s ∉ ["true", "false", "null"]) : ofToken s = .word s := by
  simp only [List.mem_cons, List.not_mem_nil, or_false, not_or] at hs'
  unfold ofToken
  rw [if_pos hs]
  exact ofWord.eq_4 s hs'.1 hs'.2.1 hs'.2.2

/-- Words are names, symbols are those of the language, and numbers have no sign. -/
def Plain : Lexeme → Prop
  | blank => True
  | word s => isIdentifier s.toList = true ∧ s ∉ ["true", "false", "null"]
  | literal value => value.Unsigned
  | symbol s => s ∈ symbols

theorem Plain.proper {l : Lexeme} (h : l.Plain) : l.Proper := by
  cases l with
  | blank | literal _ => trivial
  | word s => exact h.1
  | symbol s => exact h

theorem Plain.ofToken_tokens {l : Lexeme} (h : l.Plain) :
    l.tokens.map ofToken = if l = blank then [] else [l] := by
  cases l with
  | blank => rfl
  | word s => exact congrArg (List.cons · []) (ofToken_word h.1 h.2)
  | literal value => exact ofToken_literal h
  | symbol s => exact congrArg (List.cons · []) (ofToken_symbol h)

/-- The tokens of a row are read back as its lexemes, without the blanks. -/
theorem ofToken_row {row : List Lexeme} (h : ∀ l ∈ row, l.Plain) :
    (row.flatMap tokens).map ofToken = row.filter (· ≠ blank) := by
  induction row with
  | nil => rfl
  | cons l row ih =>
      have hl := h l List.mem_cons_self
      rw [List.flatMap_cons, List.map_append, ih fun m hm => h m (List.mem_cons_of_mem l hm),
        hl.ofToken_tokens]
      by_cases hblank : l = blank
      · simp [hblank]
      · simp [hblank]

end Lexeme

theorem Reader.read_filter (mode : Mode) (frames : List Frame) (row : List Lexeme) :
    read mode frames (row.filter (· ≠ .blank)) = read mode frames row := by
  induction row generalizing mode frames with
  | nil => rfl
  | cons l row ih =>
      cases l with
      | blank =>
          cases mode <;> exact ih _ _
      | word _ | literal _ | symbol _ =>
          exact congrArg (Option.bind _) (funext fun next => ih next.1 next.2)

/-! ## Plain expressions -/

namespace Expr

def reserved : List String :=
  ["this", "super", "new", "true", "false", "null"]

/-- Names are identifiers, numbers have no sign, and no negation stands in front of another one or
of a decrement. -/
def PlainHere : Expr → Prop
  | lit value => value.Unsigned
  | unary .neg (unary .neg _) | unary .neg (unary .preDec _) => False
  | e => ∀ x ∈ e.ownNames, isIdentifier x.toList = true ∧ x ∉ reserved

instance : DecidablePred PlainHere := by
  intro e
  unfold PlainHere
  split <;> infer_instance

theorem PlainHere.names {e : Expr} (h : e.PlainHere) :
    ∀ x ∈ e.ownNames, isIdentifier x.toList = true ∧ x ∉ reserved := by
  unfold PlainHere at h
  split at h
  · exact fun _ hx => nomatch hx
  · exact h.elim
  · exact h.elim
  · exact h

theorem PlainHere.namedHere {e : Expr} (h : e.PlainHere) : e.NamedHere :=
  fun x hx => (h.names x hx).1

theorem PlainHere.unreservedHere {e : Expr} (h : e.PlainHere) : e.UnreservedHere := by
  have hreserved : ∀ x ∈ ["this", "super", "new"], x ∈ reserved := by decide
  exact fun x hx hmem => (h.names x hx).2 (hreserved x hmem)

theorem plain_lexemes {e : Expr} (h : e.Every PlainHere) (k : Nat) :
    ∀ l ∈ e.lexemes k, l.Plain := by
  have hwords : ∀ s ∈ ["this", "super", "new"],
      isIdentifier s.toList = true ∧ s ∉ ["true", "false", "null"] := by decide
  have hliterals : ∀ s ∈ ["true", "false", "null"], s ∈ reserved := by decide
  refine every_lexeme trivial (fun _ hs => hs) hwords (fun e' he' l hl => ?_) k
  have hown : ∀ l ∈ e'.ownNames.map Lexeme.word, l.Plain := by
    intro l hl
    rcases List.mem_map.mp hl with ⟨x, hx, rfl⟩
    have hname := (h e' he').names x hx
    exact ⟨hname.1, fun hmem => hname.2 (hliterals x hmem)⟩
  cases e' with
  | lit value =>
      obtain rfl := List.mem_singleton.mp hl
      exact h _ he'
  | name _ | self | field _ _ | index _ _ | assign _ _ _ | unary _ _ | binary _ _ _
  | conditional _ _ _ | call _ _ _ | new _ _ | newArray _ _ | superCall _ | selfCall _ =>
      exact hown l hl

def StartsUnsigned (row : List Lexeme) : Prop :=
  ∃ l ∈ row.head?, ∃ c ∈ l.text.toList.head?, c ≠ '-'

theorem StartsUnsigned.append {row : List Lexeme} (h : StartsUnsigned row) (row' : List Lexeme) :
    StartsUnsigned (row ++ row') := by
  rcases h with ⟨l, hl, hc⟩
  exact ⟨l, by rw [List.head?_append, hl]; rfl, hc⟩

theorem startsUnsigned_word {s : String} (hs : isIdentifier s.toList = true) (row : List Lexeme) :
    StartsUnsigned (.word s :: row) := by
  cases hlist : s.toList with
  | nil =>
      rw [hlist] at hs
      exact nomatch hs
  | cons c rest =>
      have hc : c ∈ s.toList.head? := by rw [hlist]; rfl
      refine ⟨.word s, rfl, c, hc, ?_⟩
      rintro rfl
      exact absurd (Lexeme.head_of_identifier hs _ hc).1 (by decide)

theorem startsUnsigned_literal {value : Literal} (h : value.Unsigned) :
    StartsUnsigned [.literal value] := by
  have hnumeral : ∀ {n : Int}, 0 ≤ n → ∃ c ∈ (Text.intText n).toList.head?, c ≠ '-' := by
    intro n hn
    rw [Text.intText, if_neg (Int.not_lt.mpr hn)]
    cases hdigits : (Text.natText n.natAbs).toList with
    | nil => exact absurd hdigits (natText_ne_nil _)
    | cons d ds =>
        have hdigit : isDigit d = true := digits_natText n.natAbs d (by simp [hdigits])
        refine ⟨d, rfl, ?_⟩
        rintro rfl
        exact absurd hdigit (by decide)
  refine ⟨.literal value, rfl, ?_⟩
  cases value with
  | int n => exact hnumeral h
  | long n =>
      rcases hnumeral h with ⟨c, hc, hminus⟩
      refine ⟨c, ?_, hminus⟩
      show c ∈ (Text.intText n.toInt ++ "L").toList.head?
      rw [String.toList_append, List.head?_append, hc]
      rfl
  | bool b => cases b <;> exact ⟨_, rfl, by decide⟩
  | str s =>
      refine ⟨'"', ?_, by decide⟩
      show '"' ∈ (Text.literal s).toList.head?
      simp [Text.literal, Text.between]
  | null => exact ⟨_, rfl, by decide⟩

theorem startsUnsigned_lexemes {e : Expr} (h : e.Every PlainHere) {k : Nat} (hk : 14 ≤ k)
    (hsign : k = 14 → ∀ e', e ≠ unary .neg e' ∧ e ≠ unary .preDec e') :
    StartsUnsigned (e.lexemes k) := by
  induction e using childInduction generalizing k with
  | step e ih =>
      have hoperand : ∀ e' ∈ e.children, StartsUnsigned (e'.lexemes 16) :=
        fun e' he' => ih e' he' (h.child he') (by decide) nofun
      have hhere := h.here
      rw [lexemes_eq]
      unfold parenthesized
      split
      · exact ⟨_, rfl, '(', rfl, by decide⟩
      · rename_i hstrong
        have hle : k ≤ e.precedence := by simpa using hstrong
        cases e with
        | lit value => exact startsUnsigned_literal hhere
        | name ident => exact startsUnsigned_word (hhere.namedHere ident List.mem_cons_self) _
        | self | selfCall _ =>
            exact startsUnsigned_word (by decide : isIdentifier "this".toList = true) _
        | superCall _ =>
            exact startsUnsigned_word (by decide : isIdentifier "super".toList = true) _
        | new _ _ | newArray _ _ =>
            exact startsUnsigned_word (by decide : isIdentifier "new".toList = true) _
        | field target _ => exact (hoperand target (by simp [children])).append _
        | index target _ => exact (hoperand target (by simp [children])).append _
        | call receiver method args =>
            cases receiver with
            | none => exact startsUnsigned_word (hhere.namedHere method List.mem_cons_self) _
            | some receiver =>
                exact ((hoperand receiver (by simp [children])).append _).append _
        | unary op operand =>
            cases op with
            | neg =>
                have hk : k = 14 := Nat.le_antisymm hle hk
                exact absurd rfl (hsign hk operand).1
            | preDec =>
                have hk : k = 14 := Nat.le_antisymm hle hk
                exact absurd rfl (hsign hk operand).2
            | not => exact ⟨_, rfl, '!', rfl, by decide⟩
            | preInc => exact ⟨_, rfl, '+', rfl, by decide⟩
            | postInc | postDec => exact (hoperand operand (by simp [children])).append _
        | binary op _ _ =>
            have hbound := op.precedence_bounds.2
            simp only [precedence] at hle
            omega
        | assign _ _ _ | conditional _ _ _ =>
            simp only [precedence] at hle
            omega

theorem parted_of_plain {e : Expr} (h : e.Every PlainHere) : e.Every (PartedHere false) := by
  induction e using childInduction with
  | step e ih =>
      refine every_iff.mpr ⟨?_, fun e' he' => ih e' he' (h.child he')⟩
      unfold PartedHere
      split
      · rename_i operand
        have hhere := h.here
        have hsign : ∀ e', operand ≠ unary .neg e' ∧ operand ≠ unary .preDec e' := by
          intro e'
          constructor
          · rintro rfl
            exact hhere
          · rintro rfl
            exact hhere
        rcases startsUnsigned_lexemes (h.child List.mem_cons_self) (Nat.le_refl 14) fun _ => hsign
          with ⟨l, hl, c, hc, hminus⟩
        have hhead : (operand.sourceAt 14).toList.head? = some c := Lexeme.head?_textOf hl hc
        rw [hhead]
        exact fun heq => hminus (Option.some.inj heq)
      · rfl
      · rfl
      · trivial

/-- Takes a text apart and reads its tokens as an expression. -/
def ofSource? (s : String) : Option Expr :=
  (Text.tokens? false s).bind fun tokens => Reader.read .want [] (tokens.map Lexeme.ofToken)

/-- The text of a plain expression reads back as the expression. -/
theorem ofSource?_source {e : Expr} (h : e.Every PlainHere) : ofSource? e.source = some e := by
  have hproper : ∀ l ∈ e.lexemes 0, l.Proper := fun l hl => (plain_lexemes h 0 l hl).proper
  have hnames : e.Every NamedHere := fun e' he' => (h e' he').namedHere
  have hparted : e.Every (PartedHere false) := parted_of_plain h
  have htokens : Text.tokens? false e.source = some ((e.lexemes 0).flatMap Lexeme.tokens) :=
    Lexeme.tokens?_textOf hproper (row_lexemes hnames hparted 0).parted
  have hback : Reader.ReadsBack e := Reader.readsBack fun e' he' => (h e' he').unreservedHere
  calc ofSource? e.source
    _ = Reader.read .want [] (((e.lexemes 0).flatMap Lexeme.tokens).map Lexeme.ofToken) := by
        rw [ofSource?, htokens, Option.bind_some]
    _ = Reader.read .want [] (e.lexemes 0) := by
        rw [Lexeme.ofToken_row (plain_lexemes h 0), Reader.read_filter]
    _ = Reader.read .want [] (e.lexemes 0 ++ []) := by rw [List.append_nil]
    _ = Reader.read (.have e) [] [] :=
        hback 0 [] [] nofun (Nat.le_trans e.one_le_precedence (Nat.le_max_right _ _))
    _ = some e := rfl

/-- Plain expressions with one text are the same. -/
theorem source_inj {e e' : Expr} (h : e.Every PlainHere) (h' : e'.Every PlainHere) :
    e.source = e'.source ↔ e = e' := by
  constructor
  · intro heq
    have hback := ofSource?_source h
    rw [heq, ofSource?_source h'] at hback
    exact (Option.some.inj hback).symm
  · exact congrArg source

def leftNested : Expr :=
  binary .sub (binary .sub (name "a") (name "b")) (name "c")

def rightNested : Expr :=
  binary .sub (name "a") (binary .sub (name "b") (name "c"))

theorem source_inj_nested :
    leftNested.Every PlainHere ∧ rightNested.Every PlainHere ∧
      leftNested.source ≠ rightNested.source := by
  have hleft : leftNested.Every PlainHere := by decide
  have hright : rightNested.Every PlainHere := by decide
  have hne : leftNested ≠ rightNested := by simp [leftNested, rightNested]
  exact ⟨hleft, hright, (source_inj hleft hright).not.mpr hne⟩

end Expr

end Code
end TraceWeaving
