import TraceWeaving.Proofs.Code.Spelling

/-!
# Reading trees

The readers of nodes accept the spellings of every node and nothing else.  Expressions and
statements are read layer by layer, so for them the statement is about documents that are not
too deep, and one more layer reads one level more.
-/

namespace TraceWeaving
namespace Code

open Json (SpelledOption SpelledList SpelledText SpelledBool SpelledTag SpelledVariant
  SpelledRecord)
open Json.Slot (Required Optional Defaulted)
open Json (Reads ReadsBelow ReadsSlot)

/-! ## Reading operators and literals -/

section

variable {α : Type} {all : List α} {tag : α → String}

theorem reads_tag (hall : ∀ a, a ∈ all) (hinj : ∀ a ∈ all, ∀ b ∈ all, tag a = tag b → a = b) :
    Reads (fun doc => doc.bareTag? >>= fun name => all.find? fun a => tag a = name)
      fun a => SpelledTag (tag a) := by
  intro doc a
  show (doc.bareTag? >>= _) = some a ↔ SpelledTag (tag a) doc
  rw [← Json.bareTag?_eq_some, Option.bind_eq_bind, Option.bind_eq_some_iff]
  constructor
  · rintro ⟨name, hname, hfound⟩
    have htag : tag a = name := by simpa using List.find?_some hfound
    rw [htag]
    exact hname
  · intro h
    refine ⟨tag a, h, ?_⟩
    cases hfound : all.find? fun b => tag b = tag a with
    | none =>
        exact absurd (List.find?_eq_none.mp hfound a (hall a)) (by simp)
    | some b =>
        have htag : tag b = tag a := by simpa using List.find?_some hfound
        rw [hinj b (List.mem_of_find?_eq_some hfound) a (hall a) htag]

end

theorem BinaryOp.reads : Reads BinaryOp.decode BinaryOp.Spelled :=
  reads_tag (fun op => by cases op <;> decide) (by decide)

theorem AssignOp.reads : Reads AssignOp.decode AssignOp.Spelled :=
  reads_tag (fun op => by cases op <;> decide) (by decide)

theorem UnaryOp.reads : Reads UnaryOp.decode UnaryOp.Spelled :=
  reads_tag (fun op => by cases op <;> decide) (by decide)

theorem MethodKind.reads : Reads MethodKind.decode MethodKind.Spelled :=
  reads_tag (fun kind => show kind ∈ [method, constructor] by cases kind <;> decide) (by decide)

theorem Literal.reads : Reads Literal.decode Literal.Spelled := by
  intro doc value
  constructor
  · intro h
    unfold Literal.decode at h
    split at h
    · rcases Option.map_eq_some_iff.mp h with ⟨n, hn, rfl⟩
      exact ⟨rfl, (Json.reads_int64 _ n).mp hn⟩
    · rcases Option.map_eq_some_iff.mp h with ⟨n, hn, rfl⟩
      exact ⟨rfl, (Json.reads_int64 _ n).mp hn⟩
    · rcases Option.map_eq_some_iff.mp h with ⟨b, hb, rfl⟩
      exact ⟨rfl, (Json.reads_bool _ b).mp hb⟩
    · rcases Option.map_eq_some_iff.mp h with ⟨s, hs, rfl⟩
      exact ⟨rfl, (Json.reads_text _ s).mp hs⟩
    · split at h
      · rename_i htag
        obtain rfl := Option.some.inj h
        exact Json.bareTag?_eq_some.mp htag
      · exact absurd h (by simp)
  · intro h
    cases value with
    | int n | long n =>
        rcases Json.spelledVariant_iff.mp h with ⟨content, rfl, hcontent⟩
        exact Option.map_eq_some_iff.mpr ⟨n, (Json.reads_int64 content n).mpr hcontent, rfl⟩
    | bool b =>
        rcases Json.spelledVariant_iff.mp h with ⟨content, rfl, hcontent⟩
        exact Option.map_eq_some_iff.mpr ⟨b, (Json.reads_bool content b).mpr hcontent, rfl⟩
    | str s =>
        rcases Json.spelledVariant_iff.mp h with ⟨content, rfl, hcontent⟩
        exact Option.map_eq_some_iff.mpr ⟨s, (Json.reads_text content s).mpr hcontent, rfl⟩
    | null => rcases h with rfl | rfl <;> rfl

/-! ## Reading expressions -/

namespace Expr

section

variable {bound : Nat} {below : Json → Option Expr} (h : ReadsBelow bound below Spelled)

include h

theorem reads_receiver : ReadsSlot bound (Json.Slot.optional below) fun receiver =>
    Optional (receiver = none) (SpelledReceiver receiver) := by
  simp only [spelledReceiver_eq]
  exact h.optional

theorem reads_items : ReadsBelow (bound + 1) (Json.list? below) fun es =>
    SpelledItems (SpelledAll es) := by
  simp only [spelledItems_eq]
  exact h.list

theorem reads_args : ReadsSlot bound (Json.Slot.required (Json.list? below)) fun es =>
    Required (SpelledItems (SpelledAll es)) := by
  intro slot hslot
  exact (reads_items h).required slot (Nat.lt_succ_of_lt hslot)

theorem spelled_of_decodeLayer {doc : Json} (hdoc : doc.depth < bound + 1) {e : Expr}
    (he : decodeLayer below doc = some e) : e.Spelled doc := by
  unfold decodeLayer at he
  split at he
  · rcases Option.map_eq_some_iff.mp he with ⟨value, hvalue, rfl⟩
    exact ⟨rfl, (Literal.reads _ value).mp hvalue⟩
  · rcases Option.map_eq_some_iff.mp he with ⟨ident, hident, rfl⟩
    exact ⟨rfl, (Json.reads_text _ ident).mp hident⟩
  · rcases (Json.record₂_eq_some_iff h.required Json.reads_text.required
      (Json.depth_le_of_variant hdoc) e).mp he with ⟨parts, rfl, hparts⟩
    exact ⟨rfl, hparts⟩
  · rcases (Json.record₂_eq_some_iff h.required h.required
      (Json.depth_le_of_variant hdoc) e).mp he with ⟨parts, rfl, hparts⟩
    exact ⟨rfl, hparts⟩
  · rcases (Json.record₃_eq_some_iff AssignOp.reads.required h.required h.required
      (Json.depth_le_of_variant hdoc) e).mp he with ⟨parts, rfl, hparts⟩
    exact ⟨rfl, hparts⟩
  · rcases (Json.record₂_eq_some_iff UnaryOp.reads.required h.required
      (Json.depth_le_of_variant hdoc) e).mp he with ⟨parts, rfl, hparts⟩
    exact ⟨rfl, hparts⟩
  · rcases (Json.record₃_eq_some_iff BinaryOp.reads.required h.required h.required
      (Json.depth_le_of_variant hdoc) e).mp he with ⟨parts, rfl, hparts⟩
    exact ⟨rfl, hparts⟩
  · rcases (Json.record₃_eq_some_iff h.required h.required h.required
      (Json.depth_le_of_variant hdoc) e).mp he with ⟨parts, rfl, hparts⟩
    exact ⟨rfl, hparts⟩
  · rcases (Json.record₃_eq_some_iff (reads_receiver h) Json.reads_text.required (reads_args h)
      (Json.depth_le_of_variant hdoc) e).mp he with ⟨parts, rfl, hparts⟩
    exact ⟨rfl, hparts⟩
  · rcases (Json.record₂_eq_some_iff Json.reads_text.required (reads_args h)
      (Json.depth_le_of_variant hdoc) e).mp he with ⟨parts, rfl, hparts⟩
    exact ⟨rfl, hparts⟩
  · rcases (Json.record₂_eq_some_iff Json.reads_text.required (reads_args h)
      (Json.depth_le_of_variant hdoc) e).mp he with ⟨parts, rfl, hparts⟩
    exact ⟨rfl, hparts⟩
  · rcases Option.map_eq_some_iff.mp he with ⟨args, hargs, rfl⟩
    exact ⟨rfl, (reads_items h _ (Nat.lt_succ_of_le (Json.depth_le_of_variant hdoc)) args).mp hargs⟩
  · rcases Option.map_eq_some_iff.mp he with ⟨args, hargs, rfl⟩
    exact ⟨rfl, (reads_items h _ (Nat.lt_succ_of_le (Json.depth_le_of_variant hdoc)) args).mp hargs⟩
  · split at he
    · rename_i htag
      obtain rfl := Option.some.inj he
      exact Json.bareTag?_eq_some.mp htag
    · exact absurd he (by simp)

theorem decodeLayer_of_spelled {doc : Json} (hdoc : doc.depth < bound + 1) {e : Expr}
    (he : e.Spelled doc) : decodeLayer below doc = some e := by
  cases e with
  | lit value =>
      rcases he.content hdoc with ⟨content, rfl, -, hvalue⟩
      exact Option.map_eq_some_iff.mpr ⟨value, (Literal.reads _ value).mpr hvalue, rfl⟩
  | name ident =>
      rcases he.content hdoc with ⟨content, rfl, -, hident⟩
      exact Option.map_eq_some_iff.mpr ⟨ident, (Json.reads_text _ ident).mpr hident, rfl⟩
  | self => rcases he with rfl | rfl <;> rfl
  | field target member =>
      rcases he.content hdoc with ⟨content, rfl, hcontent, hparts⟩
      exact (Json.record₂_eq_some_iff h.required Json.reads_text.required
        hcontent _).mpr ⟨(target, member), rfl, hparts⟩
  | index target position =>
      rcases he.content hdoc with ⟨content, rfl, hcontent, hparts⟩
      exact (Json.record₂_eq_some_iff h.required h.required
        hcontent _).mpr ⟨(target, position), rfl, hparts⟩
  | assign op target value =>
      rcases he.content hdoc with ⟨content, rfl, hcontent, hparts⟩
      exact (Json.record₃_eq_some_iff AssignOp.reads.required h.required h.required
        hcontent _).mpr ⟨(op, target, value), rfl, hparts⟩
  | unary op operand =>
      rcases he.content hdoc with ⟨content, rfl, hcontent, hparts⟩
      exact (Json.record₂_eq_some_iff UnaryOp.reads.required h.required
        hcontent _).mpr ⟨(op, operand), rfl, hparts⟩
  | binary op left right =>
      rcases he.content hdoc with ⟨content, rfl, hcontent, hparts⟩
      exact (Json.record₃_eq_some_iff BinaryOp.reads.required h.required h.required
        hcontent _).mpr ⟨(op, left, right), rfl, hparts⟩
  | conditional cond ifTrue ifFalse =>
      rcases he.content hdoc with ⟨content, rfl, hcontent, hparts⟩
      exact (Json.record₃_eq_some_iff h.required h.required h.required
        hcontent _).mpr ⟨(cond, ifTrue, ifFalse), rfl, hparts⟩
  | call receiver method args =>
      rcases he.content hdoc with ⟨content, rfl, hcontent, hparts⟩
      exact (Json.record₃_eq_some_iff (reads_receiver h) Json.reads_text.required (reads_args h)
        hcontent _).mpr ⟨(receiver, method, args), rfl, hparts⟩
  | new cls args =>
      rcases he.content hdoc with ⟨content, rfl, hcontent, hparts⟩
      exact (Json.record₂_eq_some_iff Json.reads_text.required (reads_args h)
        hcontent _).mpr ⟨(cls, args), rfl, hparts⟩
  | newArray elemType elements =>
      rcases he.content hdoc with ⟨content, rfl, hcontent, hparts⟩
      exact (Json.record₂_eq_some_iff Json.reads_text.required (reads_args h)
        hcontent _).mpr ⟨(elemType, elements), rfl, hparts⟩
  | superCall args =>
      rcases he.content hdoc with ⟨content, rfl, hcontent, hargs⟩
      exact Option.map_eq_some_iff.mpr
        ⟨args, (reads_items h content (Nat.lt_succ_of_le hcontent) args).mpr hargs, rfl⟩
  | selfCall args =>
      rcases he.content hdoc with ⟨content, rfl, hcontent, hargs⟩
      exact Option.map_eq_some_iff.mpr
        ⟨args, (reads_items h content (Nat.lt_succ_of_le hcontent) args).mpr hargs, rfl⟩

theorem readsBelow_decodeLayer : ReadsBelow (bound + 1) (decodeLayer below) Spelled :=
  fun _ hdoc _ => ⟨spelled_of_decodeLayer h hdoc, decodeLayer_of_spelled h hdoc⟩

end

theorem readsBelow_decodeWithin (layers : Nat) :
    ReadsBelow layers (decodeWithin layers) Spelled := by
  induction layers with
  | zero => exact fun doc hdoc => absurd hdoc (Nat.not_lt_zero _)
  | succ layers ih => exact readsBelow_decodeLayer ih

theorem reads : Reads decode Spelled :=
  fun doc => readsBelow_decodeWithin (doc.depth + 1) doc (Nat.lt_succ_self _)

end Expr

theorem ForInit.reads : Reads ForInit.decode ForInit.Spelled := by
  intro doc init
  constructor
  · intro h
    unfold ForInit.decode at h
    split at h
    · rcases Option.map_eq_some_iff.mp h with ⟨es, hes, rfl⟩
      exact ⟨rfl, (Expr.reads.list _ es).mp hes⟩
    · rcases (Json.record₃_eq_some_iff Json.reads_text.required Json.reads_text.required
        Expr.reads.required (Nat.le_refl _) init).mp h with ⟨parts, rfl, hparts⟩
      exact ⟨rfl, hparts⟩
    · exact absurd h (by simp)
  · intro h
    cases init with
    | exprs es =>
        rcases Json.spelledVariant_iff.mp h with ⟨content, rfl, hes⟩
        exact Option.map_eq_some_iff.mpr ⟨es, (Expr.reads.list content es).mpr hes, rfl⟩
    | decl type ident init =>
        rcases Json.spelledVariant_iff.mp h with ⟨content, rfl, hparts⟩
        exact (Json.record₃_eq_some_iff Json.reads_text.required Json.reads_text.required
          Expr.reads.required (Nat.le_refl _) _).mpr ⟨(type, ident, init), rfl, hparts⟩

/-! ## Reading statements -/

section

variable {bound : Nat} {below : Json → Option Stmt} (h : ReadsBelow bound below Stmt.Spelled)

include h

theorem readsBelow_decodeBlock : ReadsBelow (bound + 2) (decodeBlock below) SpelledBlock :=
  fun _ hdoc _ => Json.record₁_eq_some_iff h.list.required (Nat.le_of_lt_succ hdoc) _

theorem SwitchCase.readsBelow_decodeWith :
    ReadsBelow (bound + 2) (SwitchCase.decodeWith below) SwitchCase.Spelled := by
  intro doc hdoc c
  refine (Json.record₂_eq_some_iff Literal.reads.list.required h.list.required
    (Nat.le_of_lt_succ hdoc) c).trans ⟨?_, fun hc => ⟨(c.labels, c.body), ?_, hc⟩⟩
  · rintro ⟨parts, rfl, hparts⟩
    exact hparts
  · cases c
    rfl

theorem CatchClause.readsBelow_decodeWith :
    ReadsBelow (bound + 2) (CatchClause.decodeWith below) CatchClause.Spelled := by
  intro doc hdoc c
  refine (Json.record₃_eq_some_iff Json.reads_text.required Json.reads_text.required
    (readsBelow_decodeBlock h).required (Nat.le_of_lt hdoc) c).trans
      ⟨?_, fun hc => ⟨(c.type, c.ident, c.body), ?_, hc⟩⟩
  · rintro ⟨parts, rfl, hparts⟩
    exact hparts
  · cases c
    rfl

namespace Stmt

theorem readsBelow_block :
    ReadsBelow (bound + 1) (decodeBlock below) fun stmts => SpelledStmts (SpelledAll stmts) := by
  simp only [spelledStmts_eq]
  exact (readsBelow_decodeBlock h).mono (Nat.le_succ _)

theorem reads_block : ReadsSlot bound (Json.Slot.required (decodeBlock below)) fun stmts =>
    Required (SpelledStmts (SpelledAll stmts)) :=
  ((readsBelow_block h).mono (Nat.le_succ _)).required

theorem reads_else : ReadsSlot bound (Json.Slot.optional below) fun branch =>
    Optional (branch = none) (SpelledElse branch) := by
  simp only [spelledElse_eq]
  exact h.optional

theorem reads_cases :
    ReadsSlot bound (Json.Slot.required (Json.list? (SwitchCase.decodeWith below))) fun cases =>
      Required (SpelledItems (SpelledCases cases)) := by
  simp only [spelledCases_eq]
  exact ((SwitchCase.readsBelow_decodeWith h).list.mono (by omega)).required

theorem reads_catches :
    ReadsSlot bound (Json.Slot.withDefault (Json.list? (CatchClause.decodeWith below)) [])
      fun catches => Defaulted (catches = []) (SpelledItems (SpelledCatches catches)) := by
  simp only [spelledCatches_eq]
  exact ((CatchClause.readsBelow_decodeWith h).list.mono (by omega)).withDefault []

theorem reads_cleanup :
    ReadsSlot bound (Json.Slot.withDefault (Json.Slot.nullable (decodeBlock below)) none)
      fun cleanup => Defaulted (cleanup = none) (SpelledCleanup cleanup) := by
  simp only [spelledCleanup_eq]
  exact ((readsBelow_decodeBlock h).nullable.mono (by omega)).withDefault none

theorem spelled_of_decodeLayer {doc : Json} (hdoc : doc.depth < bound + 1) {s : Stmt}
    (hs : decodeLayer below doc = some s) : s.Spelled doc := by
  unfold decodeLayer at hs
  split at hs
  · rcases Option.map_eq_some_iff.mp hs with ⟨stmts, hstmts, rfl⟩
    exact ⟨rfl,
      (readsBelow_block h _ (Nat.lt_succ_of_le (Json.depth_le_of_variant hdoc)) stmts).mp hstmts⟩
  · rcases (Json.record₃_eq_some_iff Json.reads_text.required Json.reads_text.required
      Expr.reads.optional (Json.depth_le_of_variant hdoc) s).mp hs with ⟨parts, rfl, hparts⟩
    exact ⟨rfl, hparts⟩
  · rcases Option.map_eq_some_iff.mp hs with ⟨e, he, rfl⟩
    exact ⟨rfl, (Expr.reads _ e).mp he⟩
  · rcases (Json.record₃_eq_some_iff Expr.reads.required h.required (reads_else h)
      (Json.depth_le_of_variant hdoc) s).mp hs with ⟨parts, rfl, hparts⟩
    exact ⟨rfl, hparts⟩
  · rcases (Json.record₂_eq_some_iff Expr.reads.required h.required
      (Json.depth_le_of_variant hdoc) s).mp hs with ⟨parts, rfl, hparts⟩
    exact ⟨rfl, hparts⟩
  · rcases (Json.record₂_eq_some_iff h.required Expr.reads.required
      (Json.depth_le_of_variant hdoc) s).mp hs with ⟨parts, rfl, hparts⟩
    exact ⟨rfl, hparts⟩
  · rcases (Json.record₄_eq_some_iff ForInit.reads.required Expr.reads.optional
      Expr.reads.list.required h.required (Json.depth_le_of_variant hdoc) s).mp hs with ⟨parts,
      rfl, hparts⟩
    exact ⟨rfl, hparts⟩
  · rcases (Json.record₄_eq_some_iff Json.reads_text.required Json.reads_text.required
      Expr.reads.required h.required (Json.depth_le_of_variant hdoc) s).mp hs with ⟨parts, rfl,
      hparts⟩
    exact ⟨rfl, hparts⟩
  · rcases (Json.record₂_eq_some_iff Json.reads_text.required h.required
      (Json.depth_le_of_variant hdoc) s).mp hs with ⟨parts, rfl, hparts⟩
    exact ⟨rfl, hparts⟩
  · rcases (Json.record₂_eq_some_iff Expr.reads.required (reads_cases h)
      (Json.depth_le_of_variant hdoc) s).mp hs with ⟨parts, rfl, hparts⟩
    exact ⟨rfl, hparts⟩
  · rcases Option.map_eq_some_iff.mp hs with ⟨label, hlabel, rfl⟩
    exact ⟨rfl, (Json.reads_text.nullable _ label).mp hlabel⟩
  · rcases Option.map_eq_some_iff.mp hs with ⟨label, hlabel, rfl⟩
    exact ⟨rfl, (Json.reads_text.nullable _ label).mp hlabel⟩
  · rcases Option.map_eq_some_iff.mp hs with ⟨value, hvalue, rfl⟩
    exact ⟨rfl, (Expr.reads.nullable _ value).mp hvalue⟩
  · rcases Option.map_eq_some_iff.mp hs with ⟨value, hvalue, rfl⟩
    exact ⟨rfl, (Expr.reads _ value).mp hvalue⟩
  · rcases (Json.record₃_eq_some_iff (reads_block h) (reads_catches h) (reads_cleanup h)
      (Json.depth_le_of_variant hdoc) s).mp hs with ⟨parts, rfl, hparts⟩
    exact ⟨rfl, hparts⟩
  · rcases (Json.record₂_eq_some_iff Expr.reads.required (reads_block h)
      (Json.depth_le_of_variant hdoc) s).mp hs with ⟨parts, rfl, hparts⟩
    exact ⟨rfl, hparts⟩
  · rcases Option.map_eq_some_iff.mp hs with ⟨text, htext, rfl⟩
    exact ⟨rfl, (Json.reads_text _ text).mp htext⟩
  · exact absurd hs (by simp)

theorem decodeLayer_of_spelled {doc : Json} (hdoc : doc.depth < bound + 1) {s : Stmt}
    (hs : s.Spelled doc) : decodeLayer below doc = some s := by
  cases s with
  | block stmts =>
      rcases hs.content hdoc with ⟨content, rfl, hcontent, hstmts⟩
      exact Option.map_eq_some_iff.mpr ⟨stmts,
        (readsBelow_block h content (Nat.lt_succ_of_le hcontent) stmts).mpr hstmts, rfl⟩
  | decl type ident init =>
      rcases hs.content hdoc with ⟨content, rfl, hcontent, hparts⟩
      exact (Json.record₃_eq_some_iff Json.reads_text.required Json.reads_text.required
        Expr.reads.optional hcontent _).mpr ⟨(type, ident, init), rfl, hparts⟩
  | expr e =>
      rcases hs.content hdoc with ⟨content, rfl, -, he⟩
      exact Option.map_eq_some_iff.mpr ⟨e, (Expr.reads content e).mpr he, rfl⟩
  | ifElse cond ifTrue ifFalse =>
      rcases hs.content hdoc with ⟨content, rfl, hcontent, hparts⟩
      exact (Json.record₃_eq_some_iff Expr.reads.required h.required (reads_else h) hcontent
        _).mpr ⟨(cond, ifTrue, ifFalse), rfl, hparts⟩
  | whileLoop cond body =>
      rcases hs.content hdoc with ⟨content, rfl, hcontent, hparts⟩
      exact (Json.record₂_eq_some_iff Expr.reads.required h.required hcontent _).mpr
        ⟨(cond, body), rfl, hparts⟩
  | doWhile body cond =>
      rcases hs.content hdoc with ⟨content, rfl, hcontent, hparts⟩
      exact (Json.record₂_eq_some_iff h.required Expr.reads.required hcontent _).mpr
        ⟨(body, cond), rfl, hparts⟩
  | forLoop init cond update body =>
      rcases hs.content hdoc with ⟨content, rfl, hcontent, hparts⟩
      exact (Json.record₄_eq_some_iff ForInit.reads.required Expr.reads.optional
        Expr.reads.list.required h.required hcontent _).mpr ⟨(init, cond, update, body), rfl,
        hparts⟩
  | forEach type ident items body =>
      rcases hs.content hdoc with ⟨content, rfl, hcontent, hparts⟩
      exact (Json.record₄_eq_some_iff Json.reads_text.required Json.reads_text.required
        Expr.reads.required h.required hcontent _).mpr ⟨(type, ident, items, body), rfl, hparts⟩
  | labeled label body =>
      rcases hs.content hdoc with ⟨content, rfl, hcontent, hparts⟩
      exact (Json.record₂_eq_some_iff Json.reads_text.required h.required hcontent _).mpr
        ⟨(label, body), rfl, hparts⟩
  | switch selector cases =>
      rcases hs.content hdoc with ⟨content, rfl, hcontent, hparts⟩
      exact (Json.record₂_eq_some_iff Expr.reads.required (reads_cases h) hcontent _).mpr
        ⟨(selector, cases), rfl, hparts⟩
  | breakTo label =>
      rcases hs.content hdoc with ⟨content, rfl, -, hlabel⟩
      exact Option.map_eq_some_iff.mpr ⟨label, (Json.reads_text.nullable content label).mpr
        hlabel, rfl⟩
  | continueTo label =>
      rcases hs.content hdoc with ⟨content, rfl, -, hlabel⟩
      exact Option.map_eq_some_iff.mpr ⟨label, (Json.reads_text.nullable content label).mpr
        hlabel, rfl⟩
  | ret value =>
      rcases hs.content hdoc with ⟨content, rfl, -, hvalue⟩
      exact Option.map_eq_some_iff.mpr ⟨value, (Expr.reads.nullable content value).mpr hvalue,
        rfl⟩
  | raise value =>
      rcases hs.content hdoc with ⟨content, rfl, -, hvalue⟩
      exact Option.map_eq_some_iff.mpr ⟨value, (Expr.reads content value).mpr hvalue, rfl⟩
  | tryCatch body catches cleanup =>
      rcases hs.content hdoc with ⟨content, rfl, hcontent, hparts⟩
      exact (Json.record₃_eq_some_iff (reads_block h) (reads_catches h) (reads_cleanup h) hcontent
        _).mpr ⟨(body, catches, cleanup), rfl, hparts⟩
  | sync lock body =>
      rcases hs.content hdoc with ⟨content, rfl, hcontent, hparts⟩
      exact (Json.record₂_eq_some_iff Expr.reads.required (reads_block h) hcontent _).mpr
        ⟨(lock, body), rfl, hparts⟩
  | unmodelled text =>
      rcases hs.content hdoc with ⟨content, rfl, -, htext⟩
      exact Option.map_eq_some_iff.mpr ⟨text, (Json.reads_text content text).mpr htext, rfl⟩

theorem readsBelow_decodeLayer : ReadsBelow (bound + 1) (decodeLayer below) Spelled :=
  fun _ hdoc _ => ⟨spelled_of_decodeLayer h hdoc, decodeLayer_of_spelled h hdoc⟩

end Stmt

end

namespace Stmt

theorem readsBelow_decodeWithin (layers : Nat) :
    ReadsBelow layers (decodeWithin layers) Spelled := by
  induction layers with
  | zero => exact fun doc hdoc => absurd hdoc (Nat.not_lt_zero _)
  | succ layers ih => exact readsBelow_decodeLayer ih

theorem reads : Reads decode Spelled :=
  fun doc => readsBelow_decodeWithin (doc.depth + 1) doc (Nat.lt_succ_self _)

end Stmt

theorem reads_blockOfDocument : Reads blockOfDocument SpelledBlock :=
  Json.reads_of_below fun bound =>
    (readsBelow_decodeBlock (Stmt.reads.below bound)).mono (by omega)

theorem CatchClause.reads : Reads (CatchClause.decodeWith Stmt.decode) CatchClause.Spelled :=
  Json.reads_of_below fun bound =>
    (CatchClause.readsBelow_decodeWith (Stmt.reads.below bound)).mono (by omega)

/-! ## Reading declarations -/

theorem reads_arg : Reads (Json.pair? Json.text? Literal.decode) SpelledArg := by
  intro doc arg
  unfold Json.pair? SpelledArg
  split
  · rename_i key value
    simp only [Option.bind_eq_bind, Option.bind_eq_some_iff, Option.pure_def, Option.some.injEq,
      Json.reads_text key, Literal.reads value]
    constructor
    · rintro ⟨k, hkey, v, hvalue, rfl⟩
      exact ⟨hkey, hvalue⟩
    · exact fun h => ⟨arg.1, h.1, arg.2, h.2, rfl⟩
  · simp

theorem Annot.reads : Reads Annot.decode Annot.Spelled := by
  intro doc a
  refine (Json.record₂_eq_some_iff Json.reads_text.required (reads_arg.list.withDefault [])
    (Nat.le_refl _) a).trans ⟨?_, fun ha => ⟨(a.name, a.args), rfl, ha⟩⟩
  rintro ⟨parts, rfl, hparts⟩
  exact hparts

theorem Param.reads : Reads Param.decode Param.Spelled := by
  intro doc p
  refine (Json.record₂_eq_some_iff Json.reads_text.required Json.reads_text.required
    (Nat.le_refl _) p).trans ⟨?_, fun hp => ⟨(p.name, p.type), rfl, hp⟩⟩
  rintro ⟨parts, rfl, hparts⟩
  exact hparts

theorem FieldDecl.reads : Reads FieldDecl.decode FieldDecl.Spelled := by
  intro doc f
  refine (Json.record₄_eq_some_iff Json.reads_text.required Json.reads_text.required
    (Json.reads_bool.withDefault false) (Expr.reads.nullable.withDefault none)
    (Nat.le_refl _) f).trans ⟨?_, fun hf => ⟨(f.name, f.type, f.isStatic, f.init), rfl, hf⟩⟩
  rintro ⟨parts, rfl, hparts⟩
  exact hparts

theorem MethodDecl.reads : Reads MethodDecl.decode MethodDecl.Spelled := by
  intro doc m
  have hread : MethodDecl.decode doc = some m ↔ ∃ m' : MethodDecl, id m' = m ∧ m'.Spelled doc := by
    refine Json.record_eq_some_iff ?_ ?_ (Nat.le_refl _) m
    · exact fun _ => rfl
    · intro slots hlength hslots m
      obtain ⟨name, kind, annotations, isStatic, params, returnType, body, rfl⟩ :
          ∃ s₁ s₂ s₃ s₄ s₅ s₆ s₇, slots = [s₁, s₂, s₃, s₄, s₅, s₆, s₇] :=
        match slots, hlength with
        | [_, _, _, _, _, _, _], _ => ⟨_, _, _, _, _, _, _, rfl⟩
      simp only [Option.bind_eq_bind, Option.bind_eq_some_iff, Option.pure_def, Option.some.injEq,
        Json.reads_text.required name (hslots name (by simp)),
        MethodKind.reads.withDefault .method kind (hslots kind (by simp)),
        Annot.reads.list.withDefault [] annotations (hslots annotations (by simp)),
        Json.reads_bool.withDefault false isStatic (hslots isStatic (by simp)),
        Param.reads.list.withDefault [] params (hslots params (by simp)),
        Json.reads_text.nullable.withDefault none returnType (hslots returnType (by simp)),
        reads_blockOfDocument.nullable.withDefault none body (hslots body (by simp)),
        List.forall₂_cons, List.Forall₂.nil, and_true, id]
      constructor
      · rintro ⟨_, h₁, _, h₂, _, h₃, _, h₄, _, h₅, _, h₆, _, h₇, rfl⟩
        exact ⟨_, rfl, h₁, h₂, h₃, h₄, h₅, h₆, h₇⟩
      · rintro ⟨m, rfl, h₁, h₂, h₃, h₄, h₅, h₆, h₇⟩
        exact ⟨_, h₁, _, h₂, _, h₃, _, h₄, _, h₅, _, h₆, _, h₇, rfl⟩
  rw [hread]
  exact ⟨fun ⟨_, heq, h⟩ => heq ▸ h, fun h => ⟨m, rfl, h⟩⟩

theorem ClassDecl.reads : Reads ClassDecl.decode ClassDecl.Spelled := by
  intro doc c
  refine (Json.record₄_eq_some_iff Json.reads_text.required (Annot.reads.list.withDefault [])
    (FieldDecl.reads.list.withDefault []) (MethodDecl.reads.list.withDefault [])
    (Nat.le_refl _) c).trans ⟨?_, fun hc => ⟨(c.name, c.annotations, c.fields, c.methods), rfl, hc⟩⟩
  rintro ⟨parts, rfl, hparts⟩
  exact hparts

theorem CompilationUnit.reads : Reads CompilationUnit.decode CompilationUnit.Spelled := by
  intro doc u
  refine (Json.record₂_eq_some_iff (Json.reads_text.nullable.withDefault none)
    (ClassDecl.reads.list.withDefault []) (Nat.le_refl _) u).trans
      ⟨?_, fun hu => ⟨(u.package, u.classes), rfl, hu⟩⟩
  rintro ⟨parts, rfl, hparts⟩
  exact hparts

end Code
end TraceWeaving
