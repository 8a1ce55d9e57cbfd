import Mathlib.Data.List.Infix
import TraceWeaving.Proofs.Code.Rows

/-!
# Texts of expressions fall apart again

The text of an expression falls apart into the tokens that it is written with exactly where no
minus is written in front of another one and no point behind an integer.
-/

namespace TraceWeaving
namespace Code

open Text (Apart Ends Pieces digits_natText isDigit isIdentifier isToken isWordChar
  natText_ne_nil symbols)

/-! ## Lexemes are made of tokens -/

theorem numeralTokens_ne_nil (n : Int) (letter : String) : numeralTokens n letter ≠ [] := by
  unfold numeralTokens
  split <;> exact List.cons_ne_nil _ _

namespace Literal

variable {fractions : Bool}

theorem isToken_numeral {n : Int} {letter : String}
    (hletter : letter.toList.all isWordChar = true) :
    ∀ t ∈ numeralTokens n letter, isToken fractions t.toList = true := by
  have hdigits : isToken fractions (Text.natText n.natAbs ++ letter).toList = true := by
    rw [Text.isToken_iff, String.toList_append]
    exact .inr (.inl (Text.isInteger_digits (natText_ne_nil _) (digits_natText _)
      (List.all_eq_true.mp hletter)))
  unfold numeralTokens
  intro t ht
  split at ht
  · rcases List.mem_cons.mp ht with rfl | ht
    · cases fractions <;> decide
    · rw [List.mem_singleton.mp ht]
      exact hdigits
  · rw [List.mem_singleton.mp ht]
    exact hdigits

theorem isToken_tokens (value : Literal) :
    ∀ t ∈ value.tokens, isToken fractions t.toList = true := by
  cases value with
  | int n => exact isToken_numeral (by decide)
  | long n => exact isToken_numeral (by decide)
  | bool b =>
      intro t ht
      rw [List.mem_singleton.mp ht]
      cases b <;> cases fractions <;> decide
  | str s =>
      intro t ht
      rw [List.mem_singleton.mp ht, Text.isToken_iff]
      exact .inr (.inr (.inl (isQuoted_literal s)))
  | null =>
      intro t ht
      rw [List.mem_singleton.mp ht]
      cases fractions <;> decide

theorem parted_tokens (value : Literal) :
    (value.tokens.map String.toList).IsChain (Apart fractions) := by
  have hnumeral : ∀ (n : Int) (letter : String),
      ((numeralTokens n letter).map String.toList).IsChain (Apart fractions) := by
    intro n letter
    unfold numeralTokens
    split
    · refine List.isChain_cons_cons.mpr ⟨fun c hc => ?_, .singleton _⟩
      have hdigit : isDigit c = true := by
        rw [String.toList_append, List.head?_append_of_ne_nil _ (natText_ne_nil _)] at hc
        exact digits_natText _ c (List.mem_of_mem_head? hc)
      have hminus : c ≠ '-' := by
        rintro rfl
        exact absurd hdigit (by decide)
      exact Lexeme.stops_sign (.inr ⟨rfl, hminus⟩) (.inl (Text.isWordChar_of_isDigit hdigit)) _
        rfl
    · exact .singleton _
  cases value with
  | int n => exact hnumeral n.toInt ""
  | long n => exact hnumeral n.toInt "L"
  | bool _ | str _ | null => exact .singleton _

end Literal

namespace Lexeme

def Proper : Lexeme → Prop
  | blank | literal _ => True
  | word s => isIdentifier s.toList = true
  | symbol s => s ∈ symbols

variable {fractions : Bool} {l : Lexeme} {row : List Lexeme}

theorem Proper.isToken_tokens (h : l.Proper) :
    ∀ t ∈ l.tokens, isToken fractions t.toList = true := by
  cases l with
  | blank => exact fun _ ht => nomatch ht
  | word s =>
      intro t ht
      rw [List.mem_singleton.mp ht, Text.isToken_iff]
      exact .inl h
  | literal value => exact value.isToken_tokens
  | symbol s =>
      intro t ht
      rw [List.mem_singleton.mp ht, Text.isToken_iff]
      exact .inr (.inr (.inr (.inl (List.any_eq_true.mpr ⟨s, h, decide_eq_true rfl⟩))))

theorem Proper.pieces (h : l.Proper) : Pieces fractions l.pieces := by
  unfold Lexeme.pieces
  intro p hp
  split at hp
  · exact .inl (List.mem_singleton.mp hp)
  · rcases List.mem_map.mp hp with ⟨t, ht, rfl⟩
    exact .inr (h.isToken_tokens t ht)

theorem Proper.filter_pieces (h : l.Proper) :
    l.pieces.filter (· ≠ [' ']) = l.tokens.map String.toList := by
  unfold Lexeme.pieces
  split
  · rename_i hblank
    rw [hblank]
    rfl
  · refine List.filter_eq_self.mpr fun p hp => ?_
    rcases List.mem_map.mp hp with ⟨t, ht, rfl⟩
    have htoken : isToken true t.toList = true := h.isToken_tokens t ht
    exact decide_eq_true (Text.ne_blank_of_isToken htoken)

theorem pieces_ne_nil (l : Lexeme) : l.pieces ≠ [] := by
  cases l with
  | blank => exact List.cons_ne_nil _ _
  | word _ | symbol _ => exact List.cons_ne_nil _ _
  | literal value =>
      cases value with
      | int n | long n => exact fun h => numeralTokens_ne_nil _ _ (List.map_eq_nil_iff.mp h)
      | bool _ | str _ | null => exact List.cons_ne_nil _ _

theorem parted_pieces (l : Lexeme) : l.pieces.IsChain (Apart fractions) := by
  cases l with
  | blank | word _ | symbol _ => exact .singleton _
  | literal value => exact value.parted_tokens

/-! ## Rows are made of tokens -/

theorem pieces_row (h : ∀ l ∈ row, l.Proper) : Pieces fractions (row.flatMap pieces) := by
  intro p hp
  rcases List.mem_flatMap.mp hp with ⟨l, hl, hp⟩
  exact (h l hl).pieces p hp

theorem filter_pieces_row (h : ∀ l ∈ row, l.Proper) :
    (row.flatMap pieces).filter (· ≠ [' ']) = (row.flatMap tokens).map String.toList := by
  rw [List.filter_flatMap, List.map_flatMap]
  exact List.flatMap_congr fun l hl => (h l hl).filter_pieces

theorem apart_of_parts {l' : Lexeme} (h : Parts fractions l l') :
    ∀ p ∈ l.pieces.getLast?, ∀ q ∈ l'.pieces.head?, Apart fractions p q := by
  intro p hp q hq c hc
  refine h c ?_ p hp
  rw [← toList_text]
  cases hpieces : l'.pieces with
  | nil => exact absurd hpieces l'.pieces_ne_nil
  | cons q' ps =>
      rw [hpieces] at hq
      obtain rfl := Option.some.inj hq
      rw [List.flatten_cons, List.head?_append, hc]
      rfl

theorem parted_row (h : row.IsChain (Parts fractions)) :
    (row.flatMap pieces).IsChain (Apart fractions) := by
  induction row with
  | nil => exact .nil
  | cons l row ih =>
      rw [List.flatMap_cons]
      refine List.isChain_append.mpr ⟨l.parted_pieces, ih h.tail, fun p hp q hq => ?_⟩
      cases row with
      | nil => exact nomatch hq
      | cons l' row =>
          rw [List.flatMap_cons, List.head?_append_of_ne_nil _ l'.pieces_ne_nil] at hq
          exact apart_of_parts (List.isChain_cons_cons.mp h).1 p hp q hq

/-- The text of a row falls apart into the tokens of its lexemes. -/
theorem tokens?_textOf (hproper : ∀ l ∈ row, l.Proper) (h : row.IsChain (Parts fractions)) :
    Text.tokens? fractions (textOf row) = some (row.flatMap tokens) := by
  unfold Text.tokens?
  rw [toList_textOf, (pieces_row hproper).tokensWithin_flatten (parted_row h) (Nat.le_refl _),
    filter_pieces_row hproper]
  simp [Function.comp_def]

/-- Where the text of a row falls apart into the tokens of its lexemes, they end at their
neighbours. -/
theorem of_tokens?_textOf (hproper : ∀ l ∈ row, l.Proper)
    (h : Text.tokens? fractions (textOf row) = some (row.flatMap tokens)) :
    (row.flatMap pieces).IsChain (Ends fractions) := by
  unfold Text.tokens? at h
  rcases Option.map_eq_some_iff.mp h with ⟨ps, hps, heq⟩
  have hfilter : ps = (row.flatMap pieces).filter (· ≠ [' ']) := by
    rw [filter_pieces_row hproper, ← heq]
    simp [Function.comp_def]
  rw [toList_textOf, hfilter] at hps
  exact (pieces_row hproper).of_tokensWithin_flatten hps

end Lexeme

/-! ## Lexemes of expressions -/

open Lexeme (bracketed commaSeparated spaced)

section

variable {P : Lexeme → Prop} {row row' : List Lexeme} (hblank : P .blank)
  (hsymbol : ∀ s ∈ symbols, P (.symbol s))

include hsymbol in
theorem forall_bracketed {o c : String} (ho : o ∈ symbols) (hc : c ∈ symbols)
    (h : ∀ l ∈ row, P l) : ∀ l ∈ bracketed o row c, P l := by
  have hclose := List.forall_mem_singleton.mpr (hsymbol c hc)
  exact List.forall_mem_cons.mpr ⟨hsymbol o ho, List.forall_mem_append.mpr ⟨h, hclose⟩⟩

include hblank hsymbol

theorem forall_operator {s : String} (hs : s ∈ symbols) (h : ∀ l ∈ row, P l)
    (h' : ∀ l ∈ row', P l) : ∀ l ∈ row ++ spaced s ++ row', P l := by
  have hspaced : ∀ l ∈ spaced s, P l :=
    List.forall_mem_cons.mpr ⟨hblank, List.forall_mem_cons.mpr
      ⟨hsymbol s hs, List.forall_mem_singleton.mpr hblank⟩⟩
  exact List.forall_mem_append.mpr ⟨List.forall_mem_append.mpr ⟨h, hspaced⟩, h'⟩

theorem forall_commaSeparated {rows : List (List Lexeme)} (h : ∀ row ∈ rows, ∀ l ∈ row, P l) :
    ∀ l ∈ commaSeparated rows, P l := by
  induction rows using Lexeme.commaSeparated.induct with
  | case1 => exact List.forall_mem_nil P
  | case2 row => exact h row List.mem_cons_self
  | case3 row rest hne ih =>
      have hcomma : ∀ l ∈ [.symbol ",", .blank], P l :=
        List.forall_mem_cons.mpr ⟨hsymbol "," (by decide), List.forall_mem_singleton.mpr hblank⟩
      rw [Lexeme.commaSeparated.eq_3 row rest hne]
      exact List.forall_mem_append.mpr
        ⟨List.forall_mem_append.mpr ⟨h row List.mem_cons_self, hcomma⟩,
          ih fun row' hrow' => h row' (List.mem_cons_of_mem row hrow')⟩

end

namespace Expr

/-- The lexemes that depend on an expression itself, and not on its kind alone. -/
def ownLexemes : Expr → List Lexeme
  | lit value => [.literal value]
  | e => e.ownNames.map Lexeme.word

theorem every_lexeme {P : Lexeme → Prop} {e : Expr} (hblank : P .blank)
    (hsymbol : ∀ s ∈ symbols, P (.symbol s))
    (hreserved : ∀ s ∈ ["this", "super", "new"], P (.word s))
    (hown : e.Every fun e' => ∀ l ∈ e'.ownLexemes, P l) (k : Nat) : ∀ l ∈ e.lexemes k, P l := by
  induction e using childInduction generalizing k with
  | step e ih =>
      have hchild : ∀ e' ∈ e.children, ∀ k, ∀ l ∈ e'.lexemes k, P l :=
        fun e' he' k => ih e' he' (hown.child he') k
      have hargs : ∀ {o c : String} (args : List Expr), o ∈ symbols → c ∈ symbols →
          (∀ e' ∈ args, e' ∈ e.children) →
          ∀ l ∈ bracketed o (commaSeparated (rows args)) c, P l := by
        intro o c args ho hc hsub
        refine forall_bracketed hsymbol ho hc (forall_commaSeparated hblank hsymbol ?_)
        intro row hrow
        rcases mem_rows hrow with ⟨e', he', rfl⟩
        exact hchild e' (hsub e' he') 1
      have hparenthesized : (∀ l ∈ e.lexemes 0, P l) → ∀ l ∈ e.lexemes k, P l := by
        intro hrow
        rw [lexemes_eq]
        unfold parenthesized
        split
        · exact forall_bracketed hsymbol (by decide) (by decide) hrow
        · exact hrow
      have hhere := hown.here
      refine hparenthesized ?_
      cases e with
      | lit value => exact hhere
      | name ident => exact hhere
      | self => exact List.forall_mem_singleton.mpr (hreserved "this" (by decide))
      | field target member =>
          refine List.forall_mem_append.mpr ⟨hchild target (by simp [children]) 16, ?_⟩
          exact List.forall_mem_cons.mpr ⟨hsymbol "." (by decide), hhere⟩
      | index target position =>
          refine List.forall_mem_append.mpr ⟨hchild target (by simp [children]) 16, ?_⟩
          exact forall_bracketed hsymbol (by decide) (by decide)
            (hchild position (by simp [children]) 1)
      | assign op target value =>
          exact forall_operator hblank hsymbol op.mem_symbols.1
            (hchild target (by simp [children]) 16) (hchild value (by simp [children]) 1)
      | unary op operand =>
          have hoperand := hchild operand (by simp [children])
          cases op with
          | neg | not | preInc | preDec =>
              exact List.forall_mem_cons.mpr ⟨hsymbol _ (by decide), hoperand 14⟩
          | postInc | postDec =>
              exact List.forall_mem_append.mpr
                ⟨hoperand 16, List.forall_mem_singleton.mpr (hsymbol _ (by decide))⟩
      | binary op left right =>
          exact forall_operator hblank hsymbol op.mem_symbols.1
            (hchild left (by simp [children]) op.precedence)
            (hchild right (by simp [children]) (op.precedence + 1))
      | conditional cond ifTrue ifFalse =>
          have htest := forall_operator hblank hsymbol (s := "?") (by decide)
            (hchild cond (by simp [children]) 3) (hchild ifTrue (by simp [children]) 1)
          exact forall_operator hblank hsymbol (s := ":") (by decide) htest
            (hchild ifFalse (by simp [children]) 2)
      | call receiver method args =>
          have hrest := hargs (o := "(") (c := ")") args (by decide) (by decide) fun e' he' => by
            simp [children, he']
          have hmethod := List.forall_mem_cons.mpr ⟨hhere (.word method) List.mem_cons_self, hrest⟩
          cases receiver with
          | none => exact hmethod
          | some receiver =>
              have hreceiver := List.forall_mem_append.mpr
                ⟨hchild receiver (by simp [children]) 16,
                  List.forall_mem_singleton.mpr (hsymbol "." (by decide))⟩
              exact List.forall_mem_append.mpr ⟨hreceiver, hmethod⟩
      | new cls args =>
          have hnew := List.forall_mem_cons.mpr ⟨hreserved "new" (by decide),
            List.forall_mem_cons.mpr ⟨hblank, hhere⟩⟩
          exact List.forall_mem_append.mpr
            ⟨hnew, hargs args (by decide) (by decide) fun e' he' => he'⟩
      | newArray elemType elements =>
          have hnew := List.forall_mem_cons.mpr ⟨hreserved "new" (by decide),
            List.forall_mem_cons.mpr ⟨hblank, hhere⟩⟩
          have hempty := forall_bracketed hsymbol (o := "[") (c := "]") (by decide) (by decide)
            (List.forall_mem_nil P)
          exact List.forall_mem_append.mpr ⟨List.forall_mem_append.mpr ⟨hnew, hempty⟩,
            hargs elements (by decide) (by decide) fun e' he' => he'⟩
      | superCall args =>
          exact List.forall_mem_cons.mpr ⟨hreserved "super" (by decide),
            hargs args (by decide) (by decide) fun e' he' => he'⟩
      | selfCall args =>
          exact List.forall_mem_cons.mpr ⟨hreserved "this" (by decide),
            hargs args (by decide) (by decide) fun e' he' => he'⟩

/-! ## Where tokens run together -/

theorem within_commaSeparated {es : List Expr} {e : Expr} (h : e ∈ es) :
    e.lexemes 1 <:+: commaSeparated (rows es) := by
  induction es with
  | nil => exact nomatch h
  | cons e' es ih =>
      cases es with
      | nil =>
          obtain rfl := List.mem_singleton.mp h
          exact List.infix_rfl
      | cons e'' es =>
          rcases List.mem_cons.mp h with rfl | h
          · exact ((List.prefix_append _ _).trans (List.prefix_append _ _)).isInfix
          · exact (ih h).trans (List.suffix_append _ _).isInfix

theorem within_bracketed (o c : String) (row : List Lexeme) : row <:+: bracketed o row c :=
  ⟨[.symbol o], [.symbol c], rfl⟩

theorem within_parenthesized (needed : Bool) (row : List Lexeme) :
    row <:+: parenthesized needed row := by
  unfold parenthesized
  split
  · exact within_bracketed _ _ _
  · exact List.infix_rfl

theorem within_left (s : String) (row row' : List Lexeme) : row <:+: row ++ spaced s ++ row' :=
  ((List.prefix_append row _).trans (List.prefix_append _ row')).isInfix

theorem within_right (s : String) (row row' : List Lexeme) : row' <:+: row ++ spaced s ++ row' :=
  (List.suffix_append _ row').isInfix

theorem within_lexemes {e e' : Expr} (h : e' ∈ e.children) :
    ∃ k, e'.lexemes k <:+: e.lexemes 0 := by
  have hargs : ∀ {args : List Expr} {row : List Lexeme} (o c : String), e' ∈ args →
      bracketed o (commaSeparated (rows args)) c <:+: row → ∃ k, e'.lexemes k <:+: row :=
    fun o c he' hrow => ⟨1, ((within_commaSeparated he').trans (within_bracketed o c _)).trans hrow⟩
  cases e with
  | lit _ | name _ | self => exact nomatch h
  | field target member =>
      obtain rfl := List.mem_singleton.mp h
      exact ⟨16, (List.prefix_append _ _).isInfix⟩
  | index target position =>
      rcases List.mem_cons.mp h with rfl | h
      · exact ⟨16, (List.prefix_append _ _).isInfix⟩
      · obtain rfl := List.mem_singleton.mp h
        exact ⟨1, (within_bracketed "[" "]" _).trans (List.suffix_append _ _).isInfix⟩
  | assign op target value =>
      rcases List.mem_cons.mp h with rfl | h
      · exact ⟨16, within_left _ _ _⟩
      · obtain rfl := List.mem_singleton.mp h
        exact ⟨1, within_right _ _ _⟩
  | unary op operand =>
      obtain rfl := List.mem_singleton.mp h
      cases op with
      | neg | not | preInc | preDec => exact ⟨14, (List.suffix_cons _ _).isInfix⟩
      | postInc | postDec => exact ⟨16, (List.prefix_append _ _).isInfix⟩
  | binary op left right =>
      rcases List.mem_cons.mp h with rfl | h
      · exact ⟨op.precedence, within_left _ _ _⟩
      · obtain rfl := List.mem_singleton.mp h
        exact ⟨op.precedence + 1, within_right _ _ _⟩
  | conditional cond ifTrue ifFalse =>
      have htest : cond.lexemes 3 ++ spaced "?" ++ ifTrue.lexemes 1 <:+:
          (conditional cond ifTrue ifFalse).lexemes 0 := within_left _ _ _
      rcases List.mem_cons.mp h with rfl | h
      · exact ⟨3, (within_left _ _ _).trans htest⟩
      · rcases List.mem_cons.mp h with rfl | h
        · exact ⟨1, (within_right _ _ _).trans htest⟩
        · obtain rfl := List.mem_singleton.mp h
          exact ⟨2, within_right _ _ _⟩
  | call receiver method args =>
      rcases List.mem_append.mp h with h | h
      · obtain rfl := Option.mem_toList.mp h
        exact ⟨16, ((List.prefix_append _ _).trans (List.prefix_append _ _)).isInfix⟩
      · exact hargs "(" ")" h ((List.suffix_cons _ _).trans (List.suffix_append _ _)).isInfix
  | new cls args => exact hargs "(" ")" h (List.suffix_append _ _).isInfix
  | newArray elemType elements => exact hargs "\x7b" "\x7d" h (List.suffix_append _ _).isInfix
  | superCall args | selfCall args => exact hargs "(" ")" h (List.suffix_cons _ _).isInfix

theorem every_within {e : Expr} {row : List Lexeme} (h : e.lexemes 0 <:+: row) :
    e.Every fun e' => e'.lexemes 0 <:+: row := by
  induction e using childInduction with
  | step e ih =>
      refine every_iff.mpr ⟨h, fun e' he' => ih e' he' ?_⟩
      rcases within_lexemes he' with ⟨k, hk⟩
      have hinner : e'.lexemes 0 <:+: e'.lexemes k := by
        rw [lexemes_eq (k := k)]
        exact within_parenthesized _ _
      exact (hinner.trans hk).trans h

theorem proper_lexemes {e : Expr} (hnames : e.Every NamedHere) (k : Nat) :
    ∀ l ∈ e.lexemes k, l.Proper := by
  have hreserved : ∀ s ∈ ["this", "super", "new"], isIdentifier s.toList = true := by decide
  refine every_lexeme trivial (fun _ hs => hs) hreserved (fun e' he' l hl => ?_) k
  have hown : ∀ l ∈ e'.ownNames.map Lexeme.word, l.Proper := by
    intro l hl
    rcases List.mem_map.mp hl with ⟨x, hx, rfl⟩
    exact hnames e' he' x hx
  cases e' with
  | lit value =>
      obtain rfl := List.mem_singleton.mp hl
      trivial
  | name _ | self | field _ _ | index _ _ | assign _ _ _ | unary _ _ | binary _ _ _
  | conditional _ _ _ | call _ _ _ | new _ _ | newArray _ _ | superCall _ | selfCall _ =>
      exact hown l hl

theorem not_ends_point (n : Int64) (row : List Lexeme) :
    ¬ ((.literal (.int n) :: .symbol "." :: row).flatMap Lexeme.pieces).IsChain (Ends true) := by
  intro hchain
  rw [List.flatMap_cons] at hchain
  have hnext := (List.isChain_append.mp hchain).2.2
  cases hlast : (Lexeme.literal (.int n)).pieces.getLast? with
  | none => exact Lexeme.pieces_ne_nil _ (List.getLast?_eq_none_iff.mp hlast)
  | some p =>
      have hdigits : p = (Text.natText n.toInt.natAbs).toList :=
        (Lexeme.mem_getLast?_numeral hlast).trans (List.append_nil _)
      have hends : isToken true (p ++ ['.']) = false := hnext p hlast ['.'] rfl '.' rfl
      have hfraction : isToken true (p ++ ['.']) = true := by
        rw [Text.isToken_iff, hdigits]
        exact .inr (.inr (.inr (.inr
          ⟨rfl, Text.isFraction_point (natText_ne_nil _) (digits_natText _)⟩)))
      exact absurd hends (by simp [hfraction])

theorem not_ends_minus {row : List Lexeme} (hproper : ∀ l ∈ row, l.Proper)
    (hminus : (Lexeme.textOf row).toList.head? = some '-') :
    ¬ ((.symbol "-" :: row).flatMap Lexeme.pieces).IsChain (Ends true) := by
  intro hchain
  have hpieces : Pieces true (row.flatMap Lexeme.pieces) := Lexeme.pieces_row hproper
  rw [Lexeme.toList_textOf, hpieces.head?_flatten] at hminus
  rcases Option.bind_eq_some_iff.mp hminus with ⟨q, hq, hfirst⟩
  have hends : isToken true ['-', '-'] = false :=
    (List.isChain_cons.mp hchain).1 q hq '-' hfirst
  exact absurd hends (by decide)

/-- Where the tokens of an expression end at their neighbours, nothing runs together in it. -/
theorem partedHere_of_ends {e : Expr} (hproper : ∀ l ∈ e.lexemes 0, l.Proper)
    (h : ((e.lexemes 0).flatMap Lexeme.pieces).IsChain (Ends true)) : e.PartedHere true := by
  unfold PartedHere
  split
  · exact fun hminus =>
      not_ends_minus (fun l hl => hproper l (List.mem_cons_of_mem _ hl)) hminus h
  · exact absurd h (not_ends_point _ _)
  · exact absurd h (not_ends_point _ _)
  · trivial

/-- The text of an expression falls apart into the tokens that it is written with exactly where
no minus stands in front of another one and no point behind an integer. -/
theorem source_splits_iff {e : Expr} (hnames : e.Every NamedHere) :
    Text.tokens? true e.source = some e.tokens ↔ e.Every (PartedHere true) := by
  have hproper := proper_lexemes hnames 0
  constructor
  · intro h e' he'
    have hwithin : e'.lexemes 0 <:+: e.lexemes 0 := every_within List.infix_rfl e' he'
    refine partedHere_of_ends (fun l hl => hproper l (List.IsInfix.subset hwithin hl)) ?_
    exact List.IsChain.infix (Lexeme.of_tokens?_textOf hproper h)
      (List.IsInfix.flatMap hwithin Lexeme.pieces)
  · intro hparted
    exact Lexeme.tokens?_textOf hproper (row_lexemes hnames hparted 0).parted

def signs : Expr :=
  binary .gt (binary .sub (unary .neg (name "x")) (lit (.int (-5)))) (unary .postInc (name "y"))

theorem source_splits_iff_signs :
    signs.Every NamedHere ∧
      Text.tokens? true signs.source = some ["-", "x", "-", "-", "5", ">", "y", "++"] := by
  have hnames : signs.Every NamedHere := by decide
  have hparted : signs.Every (PartedHere true) := by decide
  exact ⟨hnames, (source_splits_iff hnames).mpr hparted⟩

def negatedTwice : Expr :=
  unary .neg (unary .neg (name "x"))

/-- A negated negation reads back as a decrement. -/
theorem negatedTwice_reads_as_decrement :
    negatedTwice.Every NamedHere ∧ negatedTwice.tokens = ["-", "-", "x"] ∧
      Text.tokens? true negatedTwice.source = some ["--", "x"] := by
  decide

end Expr

end Code
end TraceWeaving
