import Mathlib.Data.List.TakeWhile
import Mathlib.Tactic.SplitIfs
import TraceWeaving.Json.Parser
import TraceWeaving.Json.Printer
import TraceWeaving.Proofs.Text.Numeral

/-!
# Reading what is printed

A document whose numbers are integers is read back from its indented text, given that it is
not nested too deep.  The text is cut into the tokens of the document, and the tokens build the
document up again.
-/

namespace TraceWeaving
namespace Json

mutual

/-- Whether a document is made of data, with integers for numbers. -/
def isData : Json → Bool
  | .real _ | .unreadable => false
  | .arr items => areData items
  | .obj fields => areDataFields fields
  | _ => true

def areData : List Json → Bool
  | [] => true
  | item :: rest => isData item && areData rest

def areDataFields : List (String × Json) → Bool
  | [] => true
  | (_, value) :: rest => isData value && areDataFields rest

end

@[simp]
theorem isData_bool (b : Bool) : isData (.bool b) = true :=
  rfl

@[simp]
theorem isData_str (s : String) : isData (.str s) = true :=
  rfl

@[simp]
theorem isData_arr (items : List Json) : isData (.arr items) = areData items :=
  rfl

@[simp]
theorem isData_obj (fields : List (String × Json)) : isData (.obj fields) = areDataFields fields :=
  rfl

@[simp]
theorem areData_nil : areData [] = true :=
  rfl

@[simp]
theorem areData_cons (item : Json) (rest : List Json) :
    areData (item :: rest) = (isData item && areData rest) :=
  rfl

@[simp]
theorem areDataFields_nil : areDataFields [] = true :=
  rfl

@[simp]
theorem areDataFields_cons (key : String) (value : Json) (rest : List (String × Json)) :
    areDataFields ((key, value) :: rest) = (isData value && areDataFields rest) :=
  rfl

mutual

def tokens : Json → List Token
  | .arr items => .beginArray :: (tokensOfItems items ++ [.endArray])
  | .obj fields => .beginObject :: (tokensOfFields fields ++ [.endObject])
  | .str s => [.quoted (some s)]
  | value => [.scalar value]

def tokensOfItems : List Json → List Token
  | [] => []
  | [item] => tokens item
  | item :: rest => tokens item ++ .comma :: tokensOfItems rest

def tokensOfFields : List (String × Json) → List Token
  | [] => []
  | [(key, value)] => .quoted (some key) :: .colon :: tokens value
  | (key, value) :: rest =>
      .quoted (some key) :: .colon :: (tokens value ++ .comma :: tokensOfFields rest)

end

theorem tokensOfItems_cons (item next : Json) (others : List Json) :
    tokensOfItems (item :: next :: others) =
      item.tokens ++ .comma :: tokensOfItems (next :: others) :=
  rfl

theorem tokensOfFields_cons (key : String) (value : Json) (next : String × Json)
    (others : List (String × Json)) :
    tokensOfFields ((key, value) :: next :: others) =
      .quoted (some key) :: .colon :: (value.tokens ++ .comma :: tokensOfFields (next :: others)) :=
  rfl

namespace Token

/-! ## Texts and their tokens -/

def run (state : Mode × List Token) (cs : List Char) : Option (List Token) :=
  (cs.foldlM step state).bind finish

theorem run_cons (state : Mode × List Token) (c : Char) (cs : List Char) :
    run state (c :: cs) = (step state c).bind fun state => run state cs := by
  unfold run
  rw [List.foldlM_cons]
  exact Option.bind_assoc _ _ _

/-- A text with these tokens, whatever follows it. -/
def Exactly (cs : List Char) (ts : List Token) : Prop :=
  ∀ acc rest, run (.plain, acc) (cs ++ rest) = run (.plain, ts.reverse ++ acc) rest

/-- A text with these tokens, unless a letter follows that goes on with its last word. -/
def Scans (cs : List Char) (ts : List Token) : Prop :=
  ∀ acc rest, (∀ c ∈ rest.head?, isWordChar c = false) →
    run (.plain, acc) (cs ++ rest) = run (.plain, ts.reverse ++ acc) rest

section

variable {cs ds : List Char} {ts us : List Token}

theorem Exactly.scans (h : Exactly cs ts) : Scans cs ts :=
  fun acc rest _ => h acc rest

theorem Exactly.append (h : Exactly cs ts) (h' : Exactly ds us) :
    Exactly (cs ++ ds) (ts ++ us) := by
  intro acc rest
  rw [List.append_assoc, h, h', List.reverse_append, List.append_assoc]

theorem Exactly.append_scans (h : Exactly cs ts) (h' : Scans ds us) :
    Scans (cs ++ ds) (ts ++ us) := by
  intro acc rest hrest
  rw [List.append_assoc, h, h' _ _ hrest, List.reverse_append, List.append_assoc]

theorem Scans.append_cons {c : Char} (h : Scans cs ts) (h' : Exactly (c :: ds) us)
    (hc : isWordChar c = false) : Exactly (cs ++ c :: ds) (ts ++ us) := by
  intro acc rest
  have hhead : ∀ c' ∈ (c :: ds ++ rest).head?, isWordChar c' = false := by
    intro c' hc'
    obtain rfl := Option.some.inj hc'
    exact hc
  rw [List.append_assoc, h _ _ hhead, h', List.reverse_append, List.append_assoc]

end

theorem exactly_nil : Exactly [] [] :=
  fun _ _ => rfl

theorem exactly_mark {c : Char} {t : Token}
    (h : ∀ acc, stepPlain c acc = some (.plain, t :: acc)) : Exactly [c] [t] := by
  intro acc rest
  rw [List.singleton_append, run_cons]
  show (stepPlain c acc).bind _ = _
  rw [h]
  rfl

theorem exactly_blank {c : Char} (h : isSpace c = true) : Exactly [c] [] := by
  intro acc rest
  rw [List.singleton_append, run_cons]
  show (stepPlain c acc).bind _ = _
  unfold stepPlain
  rw [if_pos h]
  rfl

theorem exactly_newline (level : Nat) : Exactly (newline level).toList [] := by
  have hblanks : ∀ n, Exactly (List.replicate n ' ') [] := by
    intro n
    induction n with
    | zero => exact exactly_nil
    | succ n ih => exact (exactly_blank rfl).append ih
  have hline : Exactly ['\n'] [] := exactly_blank rfl
  have htext : (newline level).toList = '\n' :: List.replicate (2 * level) ' ' := by
    unfold newline
    rw [String.toList_append]
    exact congrArg (_ :: ·) String.toList_ofList
  rw [htext]
  exact hline.append (hblanks (2 * level))

/-! ## Words -/

theorem stepPlain_word {c : Char} (h : isWordChar c = true) (acc : List Token) :
    stepPlain c acc = some (.word [c], acc) := by
  have hne : ∀ {d : Char}, isWordChar d = false → c ≠ d := by
    rintro d hd rfl
    exact absurd (h.symm.trans hd) (by decide)
  have hspace : isSpace c = false := by
    simp [isSpace, hne (d := ' ') rfl, hne (d := '\n') rfl, hne (d := '\r') rfl,
      hne (d := '\t') rfl]
  unfold stepPlain
  rw [if_neg (by simp [hspace]), if_neg (hne rfl), if_pos h]

theorem run_word {cs : List Char} (h : ∀ c ∈ cs, isWordChar c = true) (letters : List Char)
    (acc : List Token) (rest : List Char) :
    run (.word letters, acc) (cs ++ rest) = run (.word (cs.reverse ++ letters), acc) rest := by
  induction cs generalizing letters with
  | nil => rfl
  | cons c cs ih =>
      have hstep : step (.word letters, acc) c = some (.word (c :: letters), acc) :=
        if_pos (h c List.mem_cons_self)
      rw [List.cons_append, run_cons, hstep]
      show run (.word (c :: letters), acc) (cs ++ rest) = _
      rw [ih (fun c hc => h c (List.mem_cons_of_mem _ hc)), List.reverse_cons, List.append_assoc]
      rfl

theorem run_wordEnd {letters : List Char} {t : Token} (h : ofWord? letters.reverse = some t)
    (acc : List Token) {rest : List Char} (hrest : ∀ c ∈ rest.head?, isWordChar c = false) :
    run (.word letters, acc) rest = run (.plain, t :: acc) rest := by
  cases rest with
  | nil =>
      show (ofWord? letters.reverse).map _ = _
      rw [h]
      rfl
  | cons c rest =>
      have hstep : step (.word letters, acc) c = step (.plain, t :: acc) c := by
        show (if isWordChar c then _ else (ofWord? letters.reverse).bind _) = _
        rw [if_neg (by simp [hrest c rfl]), h]
        rfl
      rw [run_cons, run_cons, hstep]

theorem scans_word {cs : List Char} (hne : cs ≠ []) (hword : ∀ c ∈ cs, isWordChar c = true)
    {t : Token} (h : ofWord? cs = some t) : Scans cs [t] := by
  intro acc rest hrest
  cases cs with
  | nil => exact absurd rfl hne
  | cons c cs =>
      have hstep : step (.plain, acc) c = some (.word [c], acc) :=
        stepPlain_word (hword c List.mem_cons_self) acc
      have hreverse : ofWord? (cs.reverse ++ [c]).reverse = some t := by
        rw [List.reverse_append, List.reverse_reverse]
        exact h
      rw [List.cons_append, run_cons, hstep]
      show run (.word [c], acc) (cs ++ rest) = _
      rw [run_word (fun c hc => hword c (List.mem_cons_of_mem _ hc)),
        run_wordEnd hreverse acc hrest]
      rfl

theorem magnitude?_natText (n : Nat) : magnitude? (Text.natText n).toList = some (some n) := by
  have hskip : skipIntegerPart? (Text.natText n).toList = some [] := by
    have hdigits : ∀ {cs : List Char}, cs ≠ [] → (∀ c ∈ cs, Text.isDigit c = true) →
        skipDigits? cs = some [] := by
      intro cs hne hcs
      cases cs with
      | nil => exact absurd rfl hne
      | cons c cs =>
          have hrest : cs.dropWhile Text.isDigit = [] :=
            List.dropWhile_eq_nil_iff.mpr fun c hc => hcs c (List.mem_cons_of_mem _ hc)
          show (if Text.isDigit c then some (cs.dropWhile Text.isDigit) else none) = _
          rw [if_pos (hcs c List.mem_cons_self), hrest]
    rcases Nat.eq_zero_or_pos n with rfl | hn
    · rfl
    · have hhead := Text.head_natText hn
      unfold skipIntegerPart?
      split
      · rename_i heq
        rw [heq] at hhead
        exact absurd rfl (hhead '0' rfl)
      · exact hdigits (Text.natText_ne_nil n) (Text.digits_natText n)
  unfold magnitude?
  rw [hskip]
  show some (some (Text.digitsValue _)) = _
  rw [Text.digitsValue_natText]

theorem number?_intText (n : Int) : number? (Text.intText n).toList = some (.int n) := by
  unfold Text.intText
  split
  · rename_i hneg
    obtain ⟨k, hk⟩ : ∃ k, n.natAbs = k + 1 := ⟨n.natAbs - 1, by omega⟩
    rw [String.toList_append]
    show ((magnitude? (Text.natText n.natAbs).toList).map _) = _
    rw [magnitude?_natText, hk]
    show some (Json.int (-(k + 1 : Nat))) = _
    rw [← hk]
    congr 2
    omega
  · rename_i hpos
    have hhead : ∀ c ∈ (Text.natText n.natAbs).toList.head?, c ≠ '-' := by
      rintro c hc rfl
      exact absurd (Text.digits_natText _ '-' (List.mem_of_mem_head? hc)) (by decide)
    unfold number?
    split
    · rename_i heq
      rw [heq] at hhead
      exact absurd rfl (hhead '-' rfl)
    · rw [magnitude?_natText]
      show some (Json.int (n.natAbs : Int)) = _
      congr 2
      omega

theorem isWordChar_of_isDigit {c : Char} (h : Text.isDigit c = true) : isWordChar c = true := by
  have hdigit : c.isDigit = true := by
    simp only [Text.isDigit, Bool.and_eq_true, decide_eq_true_eq] at h
    simp only [Char.isDigit, Bool.and_eq_true, decide_eq_true_eq]
    exact h
  simp [isWordChar, Char.isAlphanum, hdigit]

theorem scans_int (n : Int) : Scans (Text.intText n).toList [.scalar (.int n)] := by
  have hdigits : ∀ c ∈ (Text.natText n.natAbs).toList, isWordChar c = true :=
    fun c hc => isWordChar_of_isDigit (Text.digits_natText _ c hc)
  have hnumber := number?_intText n
  have hword : (∀ c ∈ (Text.intText n).toList, isWordChar c = true) ∧
      (Text.intText n).toList ≠ [] := by
    unfold Text.intText
    split
    · rw [String.toList_append]
      refine ⟨fun c hc => ?_, List.cons_ne_nil _ _⟩
      rcases List.mem_cons.mp hc with rfl | hc
      · rfl
      · exact hdigits c hc
    · exact ⟨hdigits, Text.natText_ne_nil _⟩
  refine scans_word hword.2 hword.1 ?_
  have hne : ∀ cs, number? cs = none → (Text.intText n).toList ≠ cs := by
    rintro cs hcs rfl
    exact nomatch hcs.symm.trans hnumber
  unfold ofWord?
  rw [if_neg (hne _ rfl), if_neg (hne _ rfl), if_neg (hne _ rfl), hnumber]
  rfl

/-! ## Strings -/

theorem run_char (c : Char) (units : List Nat) (acc : List Token) (rest : List Char) :
    run (.string units, acc) (escapeChar c ++ rest) =
      run (.string (c.toNat :: units), acc) rest := by
  unfold escapeChar
  split_ifs with hquote hslash hline hreturn htab hback hfeed hcontrol
  · subst hquote
    rfl
  · subst hslash
    rfl
  · subst hline
    rfl
  · subst hreturn
    rfl
  · subst htab
    rfl
  · rw [hback]
    rfl
  · rw [hfeed]
    rfl
  · have hhex : ∀ n < 0x20, hexValue? ['0', '0', Nat.digitChar (n / 16), Nat.digitChar (n % 16)] =
        some n := by
      decide
    let high := Nat.digitChar (c.toNat / 16)
    let low := Nat.digitChar (c.toNat % 16)
    have hlast : step (.hex units [high, '0', '0'], acc) low =
        some (.string (c.toNat :: units), acc) := by
      show (hexValue? ['0', '0', high, low]).map _ = _
      rw [hhex c.toNat hcontrol]
      rfl
    show run (.hex units [high, '0', '0'], acc) (low :: rest) = _
    rw [run_cons, hlast]
    rfl
  · have hstep : step (.string units, acc) c = some (.string (c.toNat :: units), acc) := by
      show (if c = '"' then _ else if c = '\\' then _ else _) = _
      rw [if_neg hquote, if_neg hslash, if_neg hcontrol]
    rw [List.singleton_append, run_cons, hstep]
    rfl

theorem run_chars (cs : List Char) (units : List Nat) (acc : List Token) (rest : List Char) :
    run (.string units, acc) (cs.flatMap escapeChar ++ rest) =
      run (.string ((cs.map Char.toNat).reverse ++ units), acc) rest := by
  induction cs generalizing units with
  | nil => rfl
  | cons c cs ih =>
      rw [List.flatMap_cons, List.append_assoc, run_char, ih, List.map_cons, List.reverse_cons,
        List.append_assoc]
      rfl

theorem decodeUnits_toNat (cs : List Char) : decodeUnits (cs.map Char.toNat) = some cs := by
  have hunit : ∀ c : Char, isHighSurrogate c.toNat = false ∧ isLowSurrogate c.toNat = false := by
    intro c
    have hvalid : c.toNat.isValidChar := c.valid
    unfold isHighSurrogate isLowSurrogate
    unfold Nat.isValidChar at hvalid
    simp only [Bool.and_eq_false_iff, decide_eq_false_iff_not]
    omega
  induction cs with
  | nil => rfl
  | cons c cs ih =>
      cases cs with
      | nil => simp [decodeUnits, hunit c]
      | cons d cs =>
          simp only [List.map_cons] at ih ⊢
          simp [decodeUnits, hunit c, ih]

theorem exactly_quoted (s : String) : Exactly (Json.quoted s).toList [.quoted (some s)] := by
  intro acc rest
  have htext : (Json.quoted s).toList = '"' :: (s.toList.flatMap escapeChar ++ ['"']) := by
    have hbody : (Text.escapeWith escapeChar s).toList = s.toList.flatMap escapeChar :=
      String.toList_ofList
    unfold Json.quoted Text.between
    rw [String.toList_append, String.toList_append, hbody]
    rfl
  rw [htext, List.cons_append, List.append_assoc, run_cons]
  show run (.string [], acc) (s.toList.flatMap escapeChar ++ '"' :: rest) = _
  rw [run_chars, List.append_nil, run_cons]
  show run (.plain, .quoted ((decodeUnits (s.toList.map Char.toNat).reverse.reverse).map
    String.ofList) :: acc) rest = _
  rw [List.reverse_reverse, decodeUnits_toNat, Option.map_some, String.ofList_toList]
  rfl

/-! ## Documents -/

theorem Scans.append_newline {cs : List Char} {ts : List Token} (h : Scans cs ts) (level : Nat)
    {ds : List Char} {us : List Token} (h' : Exactly ds us) :
    Exactly (cs ++ (newline level).toList ++ ds) (ts ++ us) := by
  have hline := (exactly_newline level).append h'
  have htext : (newline level).toList = '\n' :: (newline level).toList.tail := by
    unfold newline
    rw [String.toList_append]
    rfl
  rw [htext] at hline ⊢
  rw [List.append_assoc]
  exact h.append_cons hline rfl

end Token

open Token (Exactly Scans exactly_mark exactly_blank exactly_quoted exactly_newline)

theorem exactly_string {out : String} {ts : List Token} (h : Exactly out.toList ts) {text : String}
    {us : List Token} (h' : Exactly text.toList us) : Exactly (out ++ text).toList (ts ++ us) := by
  rw [String.toList_append]
  exact h.append h'

mutual

/-- Behind a text whose tokens are known, a document is written in its own tokens. -/
theorem scans_indentedTo (level : Nat) {out : String} {ts : List Token}
    (h : Exactly out.toList ts) {doc : Json} (hdata : doc.isData = true) :
    Scans (indentedTo level out doc).toList (ts ++ doc.tokens) := by
  have hscalar : ∀ value : Json, Scans (scalarText value).toList value.tokens →
      Scans (out ++ scalarText value).toList (ts ++ value.tokens) := by
    intro value hvalue
    rw [String.toList_append]
    exact h.append_scans hvalue
  cases doc with
  | null => exact hscalar .null (Token.scans_word (by decide) (List.all_eq_true.mp rfl) rfl)
  | bool b =>
      apply hscalar (.bool b)
      cases b with
      | false => exact Token.scans_word (by decide) (List.all_eq_true.mp rfl) rfl
      | true => exact Token.scans_word (by decide) (List.all_eq_true.mp rfl) rfl
  | int n => exact hscalar (.int n) (Token.scans_int n)
  | str s => exact hscalar (.str s) (exactly_quoted s).scans
  | arr items =>
      have hopen : Exactly "[".toList [.beginArray] := exactly_mark fun _ => rfl
      have hclose : Exactly "]".toList [.endArray] := exactly_mark fun _ => rfl
      cases items with
      | nil =>
          have hempty : Exactly "[]".toList [.beginArray, .endArray] := hopen.append hclose
          exact (exactly_string h hempty).scans
      | cons item rest =>
          have hitems := scans_indentedItems (level + 1) (exactly_string h hopen) hdata
          have hwhole := (hitems.append_newline level hclose).scans
          rw [← String.toList_append, ← String.toList_append, List.append_assoc,
            List.append_assoc] at hwhole
          exact hwhole
  | obj fields =>
      have hopen : Exactly "\x7b".toList [.beginObject] := exactly_mark fun _ => rfl
      have hclose : Exactly "\x7d".toList [.endObject] := exactly_mark fun _ => rfl
      cases fields with
      | nil =>
          have hempty : Exactly "\x7b\x7d".toList [.beginObject, .endObject] :=
            hopen.append hclose
          exact (exactly_string h hempty).scans
      | cons field rest =>
          have hfields := scans_indentedFields (level + 1) (exactly_string h hopen) hdata
          have hwhole := (hfields.append_newline level hclose).scans
          rw [← String.toList_append, ← String.toList_append, List.append_assoc,
            List.append_assoc] at hwhole
          exact hwhole
  | real _ | unreadable => exact nomatch hdata

theorem scans_indentedItems (level : Nat) {out : String} {ts : List Token}
    (h : Exactly out.toList ts) {items : List Json} (hdata : areData items = true) :
    Scans (indentedItems level out items).toList (ts ++ tokensOfItems items) := by
  have hline := exactly_string h (exactly_newline level)
  rw [List.append_nil] at hline
  cases items with
  | nil =>
      rw [tokensOfItems, List.append_nil]
      exact h.scans
  | cons item rest =>
      rcases Bool.and_eq_true_iff.mp hdata with ⟨hitem, hrest⟩
      have hfirst := scans_indentedTo level hline hitem
      cases rest with
      | nil => exact hfirst
      | cons next rest =>
          have hcomma : Exactly ",".toList [.comma] := exactly_mark fun _ => rfl
          have hnext := hfirst.append_cons hcomma rfl
          change Exactly ((indentedTo level (out ++ newline level) item).toList ++ ",".toList) _
            at hnext
          rw [← String.toList_append] at hnext
          have hothers := scans_indentedItems level hnext hrest
          rw [List.append_assoc, List.append_assoc] at hothers
          exact hothers

theorem scans_indentedFields (level : Nat) {out : String} {ts : List Token}
    (h : Exactly out.toList ts) {fields : List (String × Json)}
    (hdata : areDataFields fields = true) :
    Scans (indentedFields level out fields).toList (ts ++ tokensOfFields fields) := by
  have hline := exactly_string h (exactly_newline level)
  rw [List.append_nil] at hline
  cases fields with
  | nil =>
      rw [tokensOfFields, List.append_nil]
      exact h.scans
  | cons field rest =>
      obtain ⟨key, value⟩ := field
      rcases Bool.and_eq_true_iff.mp hdata with ⟨hvalue, hrest⟩
      have hcolon : Exactly ": ".toList [.colon] :=
        (exactly_mark fun _ => rfl).append (exactly_blank rfl)
      have hkey := exactly_string (exactly_string hline (exactly_quoted key)) hcolon
      have hfirst := scans_indentedTo level hkey hvalue
      cases rest with
      | nil =>
          rw [List.append_assoc, List.append_assoc] at hfirst
          exact hfirst
      | cons next rest =>
          have hcomma : Exactly ",".toList [.comma] := exactly_mark fun _ => rfl
          have hnext := hfirst.append_cons hcomma rfl
          change Exactly ((indentedTo level (out ++ newline level ++ Json.quoted key ++ ": ")
            value).toList ++ ",".toList) _ at hnext
          rw [← String.toList_append] at hnext
          have hothers := scans_indentedFields level hnext hrest
          simp only [List.append_assoc] at hothers
          exact hothers

end

/-! ## Building documents -/

namespace Parser

section

variable {bound : Nat}

theorem objectOf_some (fields : List (String × Json)) :
    objectOf (fields.map fun f => (some f.1, f.2)) = .obj fields := by
  have hkeys : (fields.map fun f => (some f.1, f.2)).mapM
      (fun f : Option String × Json => f.1.map fun key => (key, f.2)) = some fields := by
    induction fields with
    | nil => rfl
    | cons f fields ih =>
        rw [List.map_cons, List.mapM_cons, ih]
        rfl
  unfold objectOf
  rw [hkeys]

theorem close_within {rest : List Frame} (h : rest.length + 1 < bound) (frame : Frame) :
    close (some bound) frame rest = deliver frame.value rest := by
  unfold close
  rw [if_pos (by simpa [withinLimit] using h)]

theorem foldlM_itemOrEnd {items : List Json} (hne : items ≠ []) (hdata : areData items = true)
    (stack : List Frame) (rest : List Token) :
    (tokensOfItems items ++ rest).foldlM (step (some bound)) ⟨stack, .itemOrEnd⟩ =
      (tokensOfItems items ++ rest).foldlM (step (some bound)) ⟨stack, .item⟩ := by
  have hitem : ∀ {doc : Json}, doc.isData = true → ∀ rest,
      (doc.tokens ++ rest).foldlM (step (some bound)) ⟨stack, .itemOrEnd⟩ =
        (doc.tokens ++ rest).foldlM (step (some bound)) ⟨stack, .item⟩ := by
    intro doc hdoc rest
    cases doc with
    | null | bool _ | int _ | str _ | arr _ | obj _ => rfl
    | real _ | unreadable => exact nomatch hdoc
  match items with
  | [item] => exact hitem (Bool.and_eq_true_iff.mp hdata).1 rest
  | item :: next :: others =>
      rw [tokensOfItems_cons, List.append_assoc]
      exact hitem (Bool.and_eq_true_iff.mp hdata).1 _

theorem foldlM_keyOrEnd {fields : List (String × Json)} (hne : fields ≠ []) (stack : List Frame)
    (rest : List Token) :
    (tokensOfFields fields ++ rest).foldlM (step (some bound)) ⟨stack, .keyOrEnd⟩ =
      (tokensOfFields fields ++ rest).foldlM (step (some bound)) ⟨stack, .key⟩ := by
  match fields with
  | [(_, _)] | (_, _) :: _ :: _ => rfl

mutual

/-- The tokens of a document hand it to the innermost open container. -/
theorem foldlM_tokens {doc : Json} (hdata : doc.isData = true) (stack : List Frame)
    (hdepth : stack.length + doc.depth < bound) (rest : List Token) :
    (doc.tokens ++ rest).foldlM (step (some bound)) ⟨stack, .item⟩ =
      rest.foldlM (step (some bound)) (deliver doc stack) := by
  cases doc with
  | null | bool _ | int _ | str _ => rfl
  | arr items =>
      change stack.length + (depthOfItems items + 1) < bound at hdepth
      have hclose : close (some bound) (.array items.reverse) stack =
          deliver (.arr items) stack := by
        rw [close_within (by omega)]
        show deliver (.arr items.reverse.reverse) stack = _
        rw [List.reverse_reverse]
      cases items with
      | nil => exact congrArg (rest.foldlM _) hclose
      | cons item others =>
          have hne := List.cons_ne_nil item others
          have hitems := foldlM_tokensOfItems hne hdata [] stack (by omega)
            (.endArray :: rest)
          rw [← foldlM_itemOrEnd hne hdata, List.append_nil] at hitems
          rw [tokens, List.cons_append, List.append_assoc]
          refine Eq.trans hitems ?_
          exact congrArg (rest.foldlM _) hclose
  | obj fields =>
      change stack.length + (depthOfFields fields + 1) < bound at hdepth
      have hclose : ∀ key,
          close (some bound) (.object (fields.map fun f => (some f.1, f.2)).reverse key) stack =
            deliver (.obj fields) stack := by
        intro key
        rw [close_within (by omega)]
        show deliver (objectOf (List.reverse (List.reverse _))) stack = _
        rw [List.reverse_reverse, objectOf_some]
      cases fields with
      | nil => exact congrArg (rest.foldlM _) (hclose none)
      | cons field others =>
          have hne := List.cons_ne_nil field others
          have hfields := foldlM_tokensOfFields hne hdata [] none stack (by omega)
            (.endObject :: rest)
          rw [← foldlM_keyOrEnd hne, List.append_nil] at hfields
          rw [tokens, List.cons_append, List.append_assoc]
          refine Eq.trans hfields ?_
          exact congrArg (rest.foldlM _) (hclose none)
  | real _ | unreadable => exact nomatch hdata

theorem foldlM_tokensOfItems {items : List Json} (hne : items ≠ []) (hdata : areData items = true)
    (acc : List Json) (stack : List Frame) (hdepth : stack.length + 1 + depthOfItems items < bound)
    (rest : List Token) :
    (tokensOfItems items ++ rest).foldlM (step (some bound)) ⟨.array acc :: stack, .item⟩ =
      rest.foldlM (step (some bound)) ⟨.array (items.reverse ++ acc) :: stack, .next⟩ := by
  cases items with
  | nil => exact absurd rfl hne
  | cons item others =>
      rcases Bool.and_eq_true_iff.mp hdata with ⟨hitem, hothers⟩
      change stack.length + 1 + max item.depth (depthOfItems others) < bound at hdepth
      have hfirst := foldlM_tokens hitem (.array acc :: stack)
        (by rw [List.length_cons]; omega)
      cases others with
      | nil => exact hfirst rest
      | cons next others =>
          have hnext := foldlM_tokensOfItems (List.cons_ne_nil next others) hothers
            (item :: acc) stack (by omega) rest
          rw [tokensOfItems_cons, List.append_assoc, hfirst, List.reverse_cons, List.append_assoc]
          exact hnext

theorem foldlM_tokensOfFields {fields : List (String × Json)} (hne : fields ≠ [])
    (hdata : areDataFields fields = true) (acc : List (Option String × Json))
    (key : Option String) (stack : List Frame)
    (hdepth : stack.length + 1 + depthOfFields fields < bound) (rest : List Token) :
    (tokensOfFields fields ++ rest).foldlM (step (some bound)) ⟨.object acc key :: stack, .key⟩ =
      rest.foldlM (step (some bound))
        ⟨.object ((fields.map fun f => (some f.1, f.2)).reverse ++ acc) none :: stack, .next⟩ := by
  cases fields with
  | nil => exact absurd rfl hne
  | cons field others =>
      obtain ⟨name, value⟩ := field
      rcases Bool.and_eq_true_iff.mp hdata with ⟨hvalue, hothers⟩
      change stack.length + 1 + max value.depth (depthOfFields others) < bound at hdepth
      have hfirst := foldlM_tokens hvalue (.object acc (some name) :: stack)
        (by rw [List.length_cons]; omega)
      cases others with
      | nil => exact hfirst rest
      | cons next others =>
          have hnext := foldlM_tokensOfFields (List.cons_ne_nil next others) hothers
            ((some name, value) :: acc) none stack (by omega) rest
          rw [tokensOfFields_cons, List.map_cons, List.reverse_cons, List.append_assoc]
          refine Eq.trans ?_ hnext
          have hvalueTokens := hfirst (.comma :: (tokensOfFields (next :: others) ++ rest))
          rw [List.cons_append, List.cons_append, List.append_assoc]
          exact hvalueTokens

end

end

end Parser

/-- A document is read back from its indented text. -/
theorem parse?_pretty {doc : Json} (hdata : doc.isData = true) {bound : Nat}
    (hdepth : doc.depth < bound) : parse? doc.pretty (some bound) = some doc := by
  have hscan : Token.scan? doc.pretty.toList = some doc.tokens := by
    have hnil : Exactly "".toList [] := Token.exactly_nil
    have htext := scans_indentedTo 0 hnil hdata [] [] (fun _ h => nomatch h)
    rw [List.append_nil, List.append_nil] at htext
    refine Eq.trans htext ?_
    show some (List.reverse (List.reverse _)) = _
    rw [List.reverse_reverse]
    rfl
  have hbuild := Parser.foldlM_tokens hdata [] (by simpa using hdepth) []
  rw [List.append_nil] at hbuild
  unfold parse?
  rw [hscan]
  show ((doc.tokens.foldlM (Parser.step (some bound)) ⟨[], .item⟩).bind Parser.finish) = _
  rw [hbuild]
  rfl

end Json
end TraceWeaving
