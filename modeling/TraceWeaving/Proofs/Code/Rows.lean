import TraceWeaving.Code.Lexeme
import TraceWeaving.Proofs.Code.Nodes
import TraceWeaving.Proofs.Code.Tokens
import TraceWeaving.Proofs.Text.Numeral

/-!
# Neighbouring lexemes

An expression is written without blanks around its prefix and postfix operators, brackets,
commas and points.  Lexemes that touch there come out of the text again, but for two cases: a
minus in front of a text that starts with one, and a point behind the digits of an integer,
which make a decrement and a fraction.
-/

namespace TraceWeaving
namespace Code

open Text (Apart Extends digits_natText isDigit isFraction isIdentifier isToken isWordChar
  natText_ne_nil symbols)

/-! ## The tokens of a lexeme -/

def numeralTokens (n : Int) (letter : String) : List String :=
  if n < 0 then ["-", Text.natText n.natAbs ++ letter] else [Text.natText n.natAbs ++ letter]

namespace Literal

/-- The sign of a negative literal is a token of its own. -/
def tokens : Literal → List String
  | int n => numeralTokens n.toInt ""
  | long n => numeralTokens n.toInt "L"
  | value => [value.source]

end Literal

namespace Lexeme

def tokens : Lexeme → List String
  | blank => []
  | word s => [s]
  | literal value => value.tokens
  | symbol s => [s]

def pieces (l : Lexeme) : List (List Char) :=
  if l = blank then [[' ']] else l.tokens.map String.toList

end Lexeme

/-- The tokens that an expression is written with, in order. -/
def Expr.tokens (e : Expr) : List String :=
  (e.lexemes 0).flatMap Lexeme.tokens

theorem toList_numeral (n : Int) (letter : String) :
    (numeralTokens n letter).flatMap String.toList = (Text.intText n ++ letter).toList := by
  unfold numeralTokens Text.intText
  split <;> simp

theorem Literal.toList_source (value : Literal) :
    value.tokens.flatMap String.toList = value.source.toList := by
  cases value with
  | int n => simpa [tokens, source] using toList_numeral n.toInt ""
  | long n => exact toList_numeral n.toInt "L"
  | bool _ | str _ | null => simp [tokens]

theorem Lexeme.toList_text (l : Lexeme) : l.pieces.flatten = l.text.toList := by
  cases l with
  | blank => rfl
  | word s | symbol s => simp [pieces, tokens, text]
  | literal value =>
      simp only [pieces, reduceCtorEq, if_false, tokens, text]
      exact value.toList_source

theorem Lexeme.toList_textOf (row : List Lexeme) :
    (textOf row).toList = (row.flatMap pieces).flatten := by
  have hfold : ∀ s : String, (row.foldl (fun written l => written ++ l.text) s).toList =
      s.toList ++ (row.flatMap pieces).flatten := by
    induction row with
    | nil => simp
    | cons l row ih =>
        intro s
        rw [List.foldl_cons, ih]
        simp [← toList_text]
  exact hfold ""

theorem Lexeme.head?_textOf {row : List Lexeme} {l : Lexeme} {c : Char} (hl : l ∈ row.head?)
    (hc : c ∈ l.text.toList.head?) : c ∈ (textOf row).toList.head? := by
  cases row with
  | nil => exact nomatch hl
  | cons m row =>
      obtain rfl := Option.some.inj hl
      rw [toList_textOf, List.flatMap_cons, List.flatten_append, toList_text, List.head?_append, hc]
      rfl

/-! ## Numerals and strings are tokens -/

theorem literalChar_cases (c : Char) :
    (∃ d, Text.literalChar c = ['\\', d]) ∨
      Text.literalChar c = [c] ∧ c ≠ '"' ∧ c ≠ '\\' ∧ c ≠ '\n' ∧ c ≠ '\r' := by
  unfold Text.literalChar
  split_ifs with hquote hslash hline hreturn
  · exact .inl ⟨_, rfl⟩
  · exact .inl ⟨_, rfl⟩
  · exact .inl ⟨_, rfl⟩
  · exact .inl ⟨_, rfl⟩
  · exact .inl ⟨_, rfl⟩
  · exact .inr ⟨rfl, hquote, hslash, hline, hreturn⟩

theorem closesQuote_escaped (cs : List Char) :
    Text.closesQuote false (cs.flatMap Text.literalChar ++ ['"']) = true := by
  induction cs with
  | nil => decide
  | cons c cs ih =>
      rw [List.flatMap_cons, List.append_assoc]
      rcases literalChar_cases c with ⟨d, heq⟩ | ⟨heq, hquote, hslash, hline, hreturn⟩
      · rw [heq]
        exact ih
      · rw [heq, List.cons_append, List.nil_append, Text.closesQuote, if_neg hquote]
        simp [hline, hreturn, hslash, ih]

theorem isQuoted_literal (s : String) : Text.isQuoted (Text.literal s).toList = true := by
  unfold Text.literal Text.between Text.escapeWith
  simp only [String.toList_append, String.toList_ofList]
  exact closesQuote_escaped s.toList

/-! ## Where a lexeme ends -/

namespace Lexeme

def Opens : Lexeme → Prop
  | word s => isIdentifier s.toList = true
  | literal _ => True
  | symbol s => s ∈ ["(", "-", "!", "++", "--"]
  | blank => False

def Closes : Lexeme → Prop
  | word s => isIdentifier s.toList = true
  | literal _ => True
  | symbol s => s ∈ [")", "]", "\x7d", "++", "--"]
  | blank => False

def Follows : Lexeme → Prop
  | blank => True
  | symbol s => s ∈ ["(", ")", "[", "]", "\x7b", "\x7d", ",", ".", "++", "--"]
  | word _ | literal _ => False

instance : DecidablePred Opens
  | word s => inferInstanceAs (Decidable (isIdentifier s.toList = true))
  | literal _ => .isTrue trivial
  | symbol s => inferInstanceAs (Decidable (s ∈ ["(", "-", "!", "++", "--"]))
  | blank => .isFalse id

instance : DecidablePred Closes
  | word s => inferInstanceAs (Decidable (isIdentifier s.toList = true))
  | literal _ => .isTrue trivial
  | symbol s => inferInstanceAs (Decidable (s ∈ [")", "]", "\x7d", "++", "--"]))
  | blank => .isFalse id

instance : DecidablePred Follows
  | blank => .isTrue trivial
  | symbol s => inferInstanceAs
      (Decidable (s ∈ ["(", ")", "[", "]", "\x7b", "\x7d", ",", ".", "++", "--"]))
  | word _ | literal _ => .isFalse id

/-- Symbols that no longer symbol starts with. -/
def solid : List String :=
  ["(", ")", "[", "]", "\x7b", "\x7d", ",", "++", "--"]

section

variable (fractions : Bool)

def Stops (l : Lexeme) (c : Char) : Prop :=
  ∀ p ∈ l.pieces.getLast?, ¬ Extends fractions p c

/-- The first lexeme does not go on with the second one. -/
def Parts (l l' : Lexeme) : Prop :=
  ∀ c ∈ l'.text.toList.head?, l.Stops fractions c

end

section

variable {fractions : Bool} {c : Char}

theorem stops_blank : Stops fractions blank c := by
  intro p hp
  obtain rfl := Option.some.inj hp
  rintro ⟨rest, h⟩
  exact absurd (Text.isGap_of_isToken h) (by decide)

theorem stops_symbol {s : String} (hs : Text.startsMark s = true)
    (h : ∀ x ∈ symbols, ¬ s.toList ++ [c] <+: x.toList) : Stops fractions (symbol s) c := by
  intro p hp
  obtain rfl := Option.some.inj hp
  exact Text.not_extends_symbol hs h

theorem stops_solid {s : String} (hs : s ∈ solid) : Stops fractions (symbol s) c := by
  have hmark : ∀ s ∈ solid, Text.startsMark s = true := by decide
  have hlongest : ∀ s ∈ solid, ∀ x ∈ symbols, s.toList <+: x.toList →
      x.toList.length ≤ s.toList.length := by decide
  refine stops_symbol (hmark s hs) fun x hx hbegins => ?_
  have hle := hlongest s hs x hx ((List.prefix_append _ _).trans hbegins)
  have hlt := hbegins.length_le
  simp only [List.length_append, List.length_singleton] at hlt
  omega

theorem stops_symbol_blank {s : String} (hs : s ∈ symbols) (hpoint : s ≠ "." ∧ s ≠ "...") :
    Stops fractions (symbol s) ' ' := by
  have hmark : ∀ s ∈ symbols, s ≠ "." ∧ s ≠ "..." → Text.startsMark s = true := by decide
  have hblank : ∀ x ∈ symbols, ' ' ∉ x.toList := by decide
  refine stops_symbol (hmark s hs hpoint) fun x hx hbegins => ?_
  exact hblank x hx (hbegins.subset (List.mem_append_right _ (List.mem_singleton_self _)))

theorem stops_word {s : String} (hs : isIdentifier s.toList = true) (hc : isWordChar c = false) :
    Stops fractions (word s) c := by
  intro p hp
  obtain rfl := Option.some.inj hp
  exact Text.not_extends_identifier hs hc

theorem mem_getLast?_numeral {n : Int} {letter : String} {p : List Char}
    (hp : p ∈ ((numeralTokens n letter).map String.toList).getLast?) :
    p = (Text.natText n.natAbs).toList ++ letter.toList := by
  unfold numeralTokens at hp
  split at hp
  · obtain rfl := Option.some.inj hp
    exact String.toList_append
  · obtain rfl := Option.some.inj hp
    exact String.toList_append

theorem stops_literal {value : Literal} (hc : isWordChar c = false)
    (hpoint : fractions = true → c = '.' → ∀ n, value ≠ .int n) :
    Stops fractions (literal value) c := by
  intro p hp
  cases value with
  | int n =>
      have hdigits : p = (Text.natText n.toInt.natAbs).toList :=
        (mem_getLast?_numeral hp).trans (List.append_nil _)
      rw [hdigits]
      exact Text.not_extends_digits (natText_ne_nil _) (digits_natText _) hc
        fun hfractions hdot => hpoint hfractions hdot n rfl
  | long n =>
      rw [mem_getLast?_numeral hp]
      exact Text.not_extends_long (natText_ne_nil _) (digits_natText _) hc
  | bool b =>
      obtain rfl := Option.some.inj hp
      cases b <;> exact Text.not_extends_identifier (by decide) hc
  | str s =>
      obtain rfl := Option.some.inj hp
      exact Text.not_extends_quoted (isQuoted_literal s)
  | null =>
      obtain rfl := Option.some.inj hp
      exact Text.not_extends_identifier (by decide) hc

/-! ## Lexemes that touch -/

theorem parts_blank (l : Lexeme) : Parts fractions blank l :=
  fun _ _ => stops_blank

theorem parts_solid {s : String} (hs : s ∈ solid) (l : Lexeme) : Parts fractions (symbol s) l :=
  fun _ _ => stops_solid hs

theorem parts_symbol_blank {s : String} (hs : s ∈ symbols) (hpoint : s ≠ "." ∧ s ≠ "...") :
    Parts fractions (symbol s) blank := by
  intro c hc
  obtain rfl := Option.some.inj hc
  exact stops_symbol_blank hs hpoint

/-- An operand does not go on with what can stand behind it, unless a point follows an
integer. -/
theorem parts_follows {l l' : Lexeme} (hl : l.Closes) (hl' : l'.Follows)
    (hpoint : fractions = true → l' = symbol "." → ∀ n, l ≠ literal (.int n)) :
    Parts fractions l l' := by
  intro c hc
  have hhead : ∀ s ∈ ["(", ")", "[", "]", "\x7b", "\x7d", ",", ".", "++", "--"],
      ∀ c ∈ s.toList.head?, isWordChar c = false ∧ (c = '.' → s = ".") :=
    Text.forall_of_all (by decide)
  have hword : isWordChar c = false ∧ (c = '.' → l' = symbol ".") := by
    cases l' with
    | blank =>
        obtain rfl := Option.some.inj hc
        decide
    | symbol s =>
        rcases hhead s hl' c hc with ⟨hword, hdot⟩
        exact ⟨hword, fun h => congrArg symbol (hdot h)⟩
    | word _ | literal _ => exact hl'.elim
  cases l with
  | blank => exact hl.elim
  | word s => exact stops_word hl hword.1
  | literal value =>
      refine stops_literal hword.1 fun hfractions hdot n heq => ?_
      exact hpoint hfractions (hword.2 hdot) n (congrArg literal heq)
  | symbol s =>
      have hsolid : ∀ s ∈ [")", "]", "\x7d", "++", "--"], s ∈ solid := by decide
      exact stops_solid (hsolid s hl)

theorem head_of_identifier {s : String} (hs : isIdentifier s.toList = true) :
    ∀ c ∈ s.toList.head?, isWordChar c = true ∧ isDigit c = false := by
  intro c hc
  cases hlist : s.toList with
  | nil =>
      rw [hlist] at hc
      exact nomatch hc
  | cons d rest =>
      rw [hlist] at hc hs
      obtain rfl := Option.some.inj hc
      simp only [isIdentifier, Bool.and_eq_true, Bool.not_eq_true'] at hs
      exact hs.1

theorem parts_point {s : String} (hs : isIdentifier s.toList = true) :
    Parts fractions (symbol ".") (word s) := by
  intro c hc p hp
  obtain rfl := Option.some.inj hp
  rcases head_of_identifier hs c hc with ⟨hword, hdigit⟩
  exact Text.not_extends_point hword hdigit

theorem head_of_literal {s : String} {c : Char} (hc : c ∈ (Text.literal s).toList.head?) :
    c = '"' := by
  unfold Text.literal Text.between at hc
  rw [String.toList_append, String.toList_append] at hc
  exact (Option.some.inj hc).symm

theorem head_of_intText {n : Int} {letter : String} {c : Char}
    (hc : c ∈ (Text.intText n ++ letter).toList.head?) :
    n < 0 ∧ c = '-' ∨ 0 ≤ n ∧ isDigit c = true := by
  unfold Text.intText at hc
  split at hc
  · rename_i hneg
    rw [String.toList_append, String.toList_append] at hc
    exact .inl ⟨hneg, (Option.some.inj hc).symm⟩
  · rename_i hpos
    rw [String.toList_append, List.head?_append_of_ne_nil _ (natText_ne_nil _)] at hc
    exact .inr ⟨Int.not_lt.mp hpos, digits_natText _ c (List.mem_of_mem_head? hc)⟩

theorem head_of_opens {l : Lexeme} (hl : l.Opens) :
    ∀ c ∈ l.text.toList.head?, isWordChar c = true ∨ c ∈ ['"', '(', '-', '!', '+'] := by
  intro c hc
  have hnumeral : ∀ {n : Int} {letter : String},
      c ∈ (Text.intText n ++ letter).toList.head? →
        isWordChar c = true ∨ c ∈ ['"', '(', '-', '!', '+'] := by
    intro n letter hc
    rcases head_of_intText hc with ⟨_, rfl⟩ | ⟨_, hdigit⟩
    · exact .inr (by decide)
    · exact .inl (Text.isWordChar_of_isDigit hdigit)
  have hsymbol : ∀ s ∈ ["(", "-", "!", "++", "--"], ∀ c ∈ s.toList.head?,
      c ∈ ['"', '(', '-', '!', '+'] := Text.forall_of_all (by decide)
  cases l with
  | blank => exact hl.elim
  | word s => exact .inl (head_of_identifier hl c hc).1
  | symbol s => exact .inr (hsymbol s hl c hc)
  | literal value =>
      cases value with
      | int n =>
          have hint : c ∈ (Text.intText n.toInt ++ "").toList.head? := by
            simpa [text, Literal.source] using hc
          exact hnumeral hint
      | long n => exact hnumeral hc
      | bool b =>
          cases b <;>
          · obtain rfl := Option.some.inj hc
            decide
      | str s =>
          obtain rfl := head_of_literal hc
          exact .inr (by decide)
      | null =>
          obtain rfl := Option.some.inj hc
          decide

theorem stops_sign {s : String} (hs : s = "!" ∨ s = "-" ∧ c ≠ '-')
    (hc : isWordChar c = true ∨ c ∈ ['"', '(', '-', '!', '+']) :
    Stops fractions (symbol s) c := by
  have hother : ¬ (c = '=' ∨ c = '>') := by
    rintro (rfl | rfl) <;> exact absurd hc (by decide)
  have hnext : ∀ {d : Char} {x : String}, [d] ++ [c] <+: x.toList →
      x.toList.head? = some d ∧ c ∈ x.toList.tail.head? := by
    rintro d x ⟨t, ht⟩
    rw [← ht]
    exact ⟨rfl, rfl⟩
  rcases hs with rfl | ⟨rfl, hminus⟩
  · have hnot : ∀ x ∈ symbols, ∀ c ∈ x.toList.tail.head?, x.toList.head? = some '!' →
        c = '=' ∨ c = '>' := Text.forall_of_all (by decide)
    refine stops_symbol (by decide) fun x hx hbegins => ?_
    exact hother (hnot x hx c (hnext hbegins).2 (hnext hbegins).1)
  · have hneg : ∀ x ∈ symbols, ∀ c ∈ x.toList.tail.head?, x.toList.head? = some '-' →
        c = '-' ∨ c = '=' ∨ c = '>' := Text.forall_of_all (by decide)
    refine stops_symbol (by decide) fun x hx hbegins => ?_
    rcases hneg x hx c (hnext hbegins).2 (hnext hbegins).1 with rfl | hmem
    · exact hminus rfl
    · exact hother hmem

/-- A negation does not go on with an operand, and neither does a minus with one that does not
start with a minus. -/
theorem parts_sign {s : String} {l : Lexeme} (hl : l.Opens)
    (hs : s = "!" ∨ s = "-" ∧ l.text.toList.head? ≠ some '-') :
    Parts fractions (symbol s) l := by
  intro c hc
  refine stops_sign (hs.imp_right fun h => ⟨h.1, ?_⟩) (head_of_opens hl c hc)
  rintro rfl
  exact h.2 hc

end

end Lexeme

/-! ## Rows of lexemes -/

open Lexeme (Closes Follows Opens Parts bracketed commaSeparated spaced)

/-- A row that starts as it is said and ends like an operand, and whose lexemes do not go on
with their neighbours. -/
structure Row (fractions : Bool) (starts : Lexeme → Prop) (row : List Lexeme) : Prop where
  head : ∃ l ∈ row.head?, starts l
  last : ∃ l ∈ row.getLast?, l.Closes
  parted : row.IsChain (Parts fractions)

namespace Row

variable {fractions : Bool} {P Q : Lexeme → Prop} {l : Lexeme} {row row' : List Lexeme}

theorem single (hl : P l) (hc : l.Closes) : Row fractions P [l] :=
  ⟨⟨l, rfl, hl⟩, ⟨l, rfl, hc⟩, .singleton l⟩

theorem append (h : Row fractions P row) (h' : Row fractions Q row')
    (hparts : ∀ l ∈ row.getLast?, ∀ l' ∈ row'.head?, Parts fractions l l') :
    Row fractions P (row ++ row') := by
  rcases h.head with ⟨l, hl, hstarts⟩
  rcases h'.last with ⟨l', hl', hcloses⟩
  constructor
  · exact ⟨l, by rw [List.head?_append, hl]; rfl, hstarts⟩
  · exact ⟨l', by rw [List.getLast?_append, hl']; rfl, hcloses⟩
  · exact List.isChain_append.mpr ⟨h.parted, h'.parted, hparts⟩

theorem cons (hl : P l) (h : Row fractions Q row)
    (hparts : ∀ l' ∈ row.head?, Q l' → Parts fractions l l') : Row fractions P (l :: row) := by
  rcases h.head with ⟨l', hl', hstarts⟩
  rcases h.last with ⟨l'', hl'', hcloses⟩
  cases row with
  | nil => exact nomatch hl'
  | cons m row =>
      obtain rfl := Option.some.inj hl'
      constructor
      · exact ⟨l, rfl, hl⟩
      · exact ⟨l'', hl'', hcloses⟩
      · exact List.isChain_cons_cons.mpr ⟨hparts _ rfl hstarts, h.parted⟩

theorem follow (h : Row fractions P row) (h' : Row fractions Follows row')
    (hpoint : fractions = true → row'.head? = some (.symbol ".") →
      ∀ n, row.getLast? ≠ some (.literal (.int n))) : Row fractions P (row ++ row') := by
  refine h.append h' fun l hl l' hl' => ?_
  rcases h.last with ⟨m, hm, hcloses⟩
  rcases h'.head with ⟨m', hm', hfollows⟩
  obtain rfl := Option.some.inj (hm.symm.trans hl)
  obtain rfl := Option.some.inj (hm'.symm.trans hl')
  refine Lexeme.parts_follows hcloses hfollows fun hfractions hdot n heq => ?_
  rw [hdot] at hl'
  rw [heq] at hl
  exact hpoint hfractions hl' n hl

theorem bracketed {o c : String} (ho : o ∈ ["(", "[", "\x7b"]) (hc : c ∈ [")", "]", "\x7d"])
    (hP : P (.symbol o)) (hrow : row = [] ∨ Row fractions Opens row) :
    Row fractions P (bracketed o row c) := by
  have hopen : ∀ o ∈ ["(", "[", "\x7b"], o ∈ Lexeme.solid := by decide
  have hclose : ∀ c ∈ [")", "]", "\x7d"],
      c ∈ [")", "]", "\x7d", "++", "--"] ∧
        c ∈ ["(", ")", "[", "]", "\x7b", "\x7d", ",", ".", "++", "--"] ∧ c ≠ "." := by decide
  rcases hclose c hc with ⟨hcloses, hfollows, hdot⟩
  have hend : Row fractions Follows [Lexeme.symbol c] := single hfollows hcloses
  have hparts : ∀ l, Parts fractions (.symbol o) l := Lexeme.parts_solid (hopen o ho)
  rcases hrow with rfl | hrow
  · exact cons hP hend fun l _ _ => hparts l
  · refine cons hP (hrow.follow hend fun _ h => ?_) fun l _ _ => hparts l
    exact absurd (Lexeme.symbol.inj (Option.some.inj h)) hdot

theorem parenthesized (needed : Bool) (h : Row fractions Opens row) :
    Row fractions Opens (Expr.parenthesized needed row) := by
  unfold Expr.parenthesized
  split
  · exact bracketed (by decide) (by decide) (by decide) (.inr h)
  · exact h

theorem inBrackets {o c : String} (ho : o ∈ ["(", "[", "\x7b"]) (hc : c ∈ [")", "]", "\x7d"])
    (h : Row fractions P row) (hrow : row' = [] ∨ Row fractions Opens row') :
    Row fractions P (row ++ Lexeme.bracketed o row' c) := by
  have hfollows : ∀ o ∈ ["(", "[", "\x7b"],
      o ∈ ["(", ")", "[", "]", "\x7b", "\x7d", ",", ".", "++", "--"] ∧ o ≠ "." := by decide
  refine h.follow (bracketed ho hc (hfollows o ho).1 hrow) fun _ hdot => ?_
  exact absurd (Lexeme.symbol.inj (Option.some.inj hdot)) (hfollows o ho).2

theorem operator {s : String} (hs : s ∈ symbols ∧ s ≠ "." ∧ s ≠ "...")
    (h : Row fractions P row) (h' : Row fractions Opens row') :
    Row fractions P (row ++ spaced s ++ row') := by
  have hblank : Row fractions (· = .blank) (.blank :: row') :=
    cons rfl h' fun l _ _ => Lexeme.parts_blank l
  have hsymbol : Row fractions (fun _ => True) (.symbol s :: .blank :: row') := by
    refine cons trivial hblank fun l _ hl => ?_
    rw [hl]
    exact Lexeme.parts_symbol_blank hs.1 hs.2
  have hspaced : Row fractions Follows (spaced s ++ row') :=
    cons trivial hsymbol fun l _ _ => Lexeme.parts_blank l
  rw [List.append_assoc]
  exact h.follow hspaced fun _ hdot => nomatch Option.some.inj hdot

theorem commaSeparated {rows : List (List Lexeme)} (hne : rows ≠ [])
    (h : ∀ row ∈ rows, Row fractions Opens row) :
    Row fractions Opens (commaSeparated rows) := by
  induction rows with
  | nil => exact absurd rfl hne
  | cons row rows ih =>
      have hrow := h row List.mem_cons_self
      cases rows with
      | nil => exact hrow
      | cons row' rows =>
          have hrest := ih (by simp) fun r hr => h r (List.mem_cons_of_mem _ hr)
          have hblank : Row fractions (· = .blank)
              (.blank :: Lexeme.commaSeparated (row' :: rows)) :=
            cons rfl hrest fun l _ _ => Lexeme.parts_blank l
          have hcomma : Row fractions Follows
              (.symbol "," :: .blank :: Lexeme.commaSeparated (row' :: rows)) :=
            cons (by decide) hblank fun l _ _ =>
              Lexeme.parts_solid (by decide) l
          show Row fractions Opens (row ++ [.symbol ",", .blank] ++ _)
          rw [List.append_assoc]
          exact hrow.follow hcomma fun _ h => absurd h (by simp)

theorem arguments {rows : List (List Lexeme)} {o c : String} (ho : o ∈ ["(", "[", "\x7b"])
    (hc : c ∈ [")", "]", "\x7d"]) (h : Row fractions P row)
    (hrows : ∀ row ∈ rows, Row fractions Opens row) :
    Row fractions P (row ++ Lexeme.bracketed o (Lexeme.commaSeparated rows) c) := by
  refine h.inBrackets ho hc ?_
  cases rows with
  | nil => exact .inl rfl
  | cons row rows => exact .inr (commaSeparated (by simp) hrows)

theorem member {s : String} (hs : isIdentifier s.toList = true) :
    Row fractions Follows [.symbol ".", .word s] := by
  refine cons (Q := (· = .word s)) (by decide) (single rfl hs) fun l _ hl => ?_
  rw [hl]
  exact Lexeme.parts_point hs

theorem created {s : String} (hs : isIdentifier s.toList = true) :
    Row fractions Opens [.word "new", .blank, .word s] := by
  have hblank : Row fractions Follows [.blank, .word s] :=
    cons (Q := (· = .word s)) trivial (single rfl hs) fun l _ _ => Lexeme.parts_blank l
  have hnew : Row fractions Opens [.word "new"] :=
    single (by decide) (by decide)
  exact hnew.follow hblank fun _ h => nomatch Option.some.inj h

end Row

/-! ## Rows of expressions -/

theorem BinaryOp.mem_symbols (op : BinaryOp) :
    op.symbol ∈ symbols ∧ op.symbol ≠ "." ∧ op.symbol ≠ "..." := by
  cases op <;> decide

theorem AssignOp.mem_symbols (op : AssignOp) :
    op.symbol ∈ symbols ∧ op.symbol ≠ "." ∧ op.symbol ≠ "..." := by
  cases op <;> decide

namespace Expr

def ownNames : Expr → List String
  | name ident => [ident]
  | field _ member => [member]
  | call _ method _ => [method]
  | new cls _ => [cls]
  | newArray elemType _ => [elemType]
  | lit _ | self | index _ _ | assign _ _ _ | unary _ _ | binary _ _ _ | conditional _ _ _
  | superCall _ | selfCall _ => []

def NamedHere (e : Expr) : Prop :=
  ∀ x ∈ e.ownNames, isIdentifier x.toList = true

instance : DecidablePred NamedHere :=
  fun e => inferInstanceAs (Decidable (∀ x ∈ e.ownNames, isIdentifier x.toList = true))

/-- Nothing runs together where an expression puts two texts next to each other: a minus
stands in front of no other one, and, where there are fractions, a point behind no integer. -/
def PartedHere (fractions : Bool) : Expr → Prop
  | unary .neg operand => (operand.sourceAt 14).toList.head? ≠ some '-'
  | field (lit (.int _)) _ | call (some (lit (.int _))) _ _ => fractions = false
  | _ => True

instance (fractions : Bool) : DecidablePred (PartedHere fractions) := by
  intro e
  unfold PartedHere
  split <;> infer_instance

theorem lexemes_eq (e : Expr) (k : Nat) :
    e.lexemes k = parenthesized (e.precedence < k) (e.lexemes 0) := by
  cases e <;> rfl

theorem getLast?_bracketed (row row' : List Lexeme) (o c : String) :
    (row ++ bracketed o row' c).getLast? = some (.symbol c) := by
  unfold bracketed
  rw [← List.append_assoc]
  exact List.getLast?_concat

/-- In the place of an operand only an integer ends with an integer. -/
theorem getLast?_lexemes {e : Expr} {n : Int64}
    (h : (e.lexemes 16).getLast? = some (.literal (.int n))) : e = lit (.int n) := by
  have hbracket : ∀ (row row' : List Lexeme) (o c : String),
      (row ++ bracketed o row' c).getLast? ≠ some (.literal (.int n)) := by
    intro row row' o c
    rw [getLast?_bracketed]
    simp
  rw [lexemes_eq] at h
  unfold parenthesized at h
  split at h
  · exact absurd h (hbracket [] _ _ _)
  · rename_i hstrong
    cases e with
    | lit value => exact congrArg lit (Lexeme.literal.inj (Option.some.inj h))
    | name _ | self => exact nomatch h
    | field target member => simp [lexemes, parenthesized] at h
    | index target _ => exact absurd h (hbracket (target.lexemes 16) _ _ _)
    | superCall _ => exact absurd h (hbracket [.word "super"] _ _ _)
    | selfCall _ => exact absurd h (hbracket [.word "this"] _ _ _)
    | new cls _ => exact absurd h (hbracket [.word "new", .blank, .word cls] _ _ _)
    | newArray elemType _ =>
        exact absurd h
          (hbracket [.word "new", .blank, .word elemType, .symbol "[", .symbol "]"] _ _ _)
    | call receiver method args =>
        have hrow : (call receiver method args).lexemes 0 =
            (receiverLexemes receiver ++ [.word method]) ++
              bracketed "(" (commaSeparated (rows args)) ")" :=
          List.append_cons _ _ _
        rw [hrow] at h
        exact absurd h (hbracket _ _ _ _)
    | assign _ _ _ | conditional _ _ _ => exact absurd rfl hstrong
    | unary op _ => cases op <;> exact absurd rfl hstrong
    | binary op _ _ => cases op <;> exact absurd rfl hstrong

theorem mem_rows {es : List Expr} {row : List Lexeme} (h : row ∈ rows es) :
    ∃ e ∈ es, row = e.lexemes 1 := by
  induction es with
  | nil => exact absurd h List.not_mem_nil
  | cons e es ih =>
      rcases List.mem_cons.mp h with rfl | h
      · exact ⟨e, List.mem_cons_self, rfl⟩
      · rcases ih h with ⟨e', he', rfl⟩
        exact ⟨e', List.mem_cons_of_mem e he', rfl⟩

/-- The lexemes of an expression do not go on with their neighbours. -/
theorem row_lexemes {fractions : Bool} {e : Expr} (hnames : e.Every NamedHere)
    (hparted : e.Every (PartedHere fractions)) (k : Nat) :
    Row fractions Opens (e.lexemes k) := by
  induction e using childInduction generalizing k with
  | step e ih =>
      have hchild : ∀ e' ∈ e.children, ∀ k, Row fractions Opens (e'.lexemes k) :=
        fun e' he' k => ih e' he' (hnames.child he') (hparted.child he') k
      have hargs : ∀ args : List Expr, (∀ e' ∈ args, e' ∈ e.children) →
          ∀ row ∈ rows args, Row fractions Opens row := by
        intro args hsub row hrow
        rcases mem_rows hrow with ⟨e', he', rfl⟩
        exact hchild e' (hsub e' he') 1
      have hword : ∀ s, isIdentifier s.toList = true → Row fractions Opens [.word s] :=
        fun s hs => .single hs hs
      have hname := hnames.here
      have hhere := hparted.here
      rw [lexemes_eq]
      refine Row.parenthesized _ ?_
      cases e with
      | lit value => exact .single trivial trivial
      | name ident => exact hword ident (hname ident List.mem_cons_self)
      | self => exact hword "this" (by decide)
      | field target member =>
          have hmember : Row fractions Follows [.symbol ".", .word member] :=
            Row.member (hname member List.mem_cons_self)
          refine (hchild target (by simp [children]) 16).follow hmember
            fun hfractions _ n hlast => ?_
          obtain rfl := getLast?_lexemes hlast
          exact absurd (hhere.symm.trans hfractions) (by simp)
      | index target position =>
          have hposition := hchild position (by simp [children]) 1
          exact (hchild target (by simp [children]) 16).inBrackets (by decide) (by decide)
            (.inr hposition)
      | assign op target value =>
          exact (hchild target (by simp [children]) 16).operator op.mem_symbols
            (hchild value (by simp [children]) 1)
      | unary op operand =>
          have hoperand := hchild operand (by simp [children])
          cases op with
          | postInc =>
              exact (hoperand 16).follow (.single (by decide) (by decide))
                fun _ h => absurd h (by decide)
          | postDec =>
              exact (hoperand 16).follow (.single (by decide) (by decide))
                fun _ h => absurd h (by decide)
          | preInc =>
              exact .cons (by decide) (hoperand 14)
                fun l _ _ => Lexeme.parts_solid (by decide) l
          | preDec =>
              exact .cons (by decide) (hoperand 14)
                fun l _ _ => Lexeme.parts_solid (by decide) l
          | not =>
              exact .cons (by decide) (hoperand 14)
                fun l _ hl => Lexeme.parts_sign hl (.inl rfl)
          | neg =>
              refine .cons (by decide) (hoperand 14) fun l hl hopens => ?_
              exact Lexeme.parts_sign hopens
                (.inr ⟨rfl, fun hminus => hhere (Lexeme.head?_textOf hl hminus)⟩)
      | binary op left right =>
          exact (hchild left (by simp [children]) op.precedence).operator op.mem_symbols
            (hchild right (by simp [children]) (op.precedence + 1))
      | conditional cond ifTrue ifFalse =>
          have htest := (hchild cond (by simp [children]) 3).operator (s := "?") (by decide)
            (hchild ifTrue (by simp [children]) 1)
          exact htest.operator (s := ":") (by decide) (hchild ifFalse (by simp [children]) 2)
      | call receiver method args =>
          have hmethod : isIdentifier method.toList = true := hname method List.mem_cons_self
          have hrows := hargs args fun e' he' => by simp [children, he']
          cases receiver with
          | none => exact (hword method hmethod).arguments (by decide) (by decide) hrows
          | some receiver =>
              have hcall : Row fractions Follows ([.symbol ".", .word method] ++
                  bracketed "(" (commaSeparated (rows args)) ")") :=
                (Row.member hmethod).arguments (by decide) (by decide) hrows
              show Row fractions Opens (receiver.lexemes 16 ++ [.symbol "."] ++ .word method :: _)
              rw [List.append_assoc]
              refine (hchild receiver (by simp [children]) 16).follow hcall
                fun hfractions _ n hlast => ?_
              obtain rfl := getLast?_lexemes hlast
              exact absurd (hhere.symm.trans hfractions) (by simp)
      | new cls args =>
          have hcls : isIdentifier cls.toList = true := hname cls List.mem_cons_self
          exact (Row.created hcls).arguments (by decide) (by decide) (hargs _ fun e' he' => he')
      | newArray elemType elements =>
          have htype : isIdentifier elemType.toList = true := hname elemType List.mem_cons_self
          have harray : Row fractions Opens
              ([.word "new", .blank, .word elemType] ++ bracketed "[" [] "]") :=
            (Row.created htype).inBrackets (by decide) (by decide) (.inl rfl)
          exact harray.arguments (by decide) (by decide) (hargs _ fun e' he' => he')
      | superCall args =>
          exact (hword "super" (by decide)).arguments (by decide) (by decide)
            (hargs _ fun e' he' => he')
      | selfCall args =>
          exact (hword "this" (by decide)).arguments (by decide) (by decide)
            (hargs _ fun e' he' => he')

end Expr

end Code
end TraceWeaving
