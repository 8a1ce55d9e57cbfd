import TraceWeaving.Proofs.Code.Variables
import TraceWeaving.Proofs.Weave.Normal

/-!
# Reserved names

Code that nobody has woven yet has no reserved names.  In woven code a reserved variable is a
returned value, declared in front of the statements of its list that use it, and a reserved
label stands on the block that is an iteration of a loop.  A report uses what the reported code
uses, so reports bring along no uses of their own.
-/

namespace TraceWeaving
namespace Weave

open Code
open Code.Stmt (HoldsHere)

/-! ## Code without reserved names -/

def jumpOf? : Stmt → Option String
  | .breakTo label | .continueTo label => label
  | _ => none

theorem jumpOf?_head (s : Stmt) : jumpOf? s.head = jumpOf? s := by
  cases s <;> rfl

def unreservedName : Expr → Bool
  | .name ident => !isReserved ident
  | _ => true

structure UnreservedHere (s : Stmt) : Prop where
  exprs : HoldsHere (Expr.Every fun e => unreservedName e = true) s
  declared : ∀ ident ∈ s.declared, isReserved ident = false
  clauses : ∀ c ∈ s.clauses, isReserved c.ident = false
  label : ∀ label ∈ labelOf? s, isReserved label = false
  jump : ∀ label ∈ jumpOf? s, isReserved label = false

instance : DecidablePred UnreservedHere :=
  fun s => decidable_of_iff
    (HoldsHere (Expr.Every fun e => unreservedName e = true) s ∧
      (∀ ident ∈ s.declared, isReserved ident = false) ∧
      (∀ c ∈ s.clauses, isReserved c.ident = false) ∧
      (∀ label ∈ labelOf? s, isReserved label = false) ∧
      ∀ label ∈ jumpOf? s, isReserved label = false)
    ⟨fun ⟨exprs, declared, clauses, label, jump⟩ => ⟨exprs, declared, clauses, label, jump⟩,
      fun h => ⟨h.exprs, h.declared, h.clauses, h.label, h.jump⟩⟩

theorem uses_of_unreserved {cls ident : String} (hr : isReserved ident = true) {e : Expr}
    (h : e.Every fun e => unreservedName e = true) : e.uses cls ident = false := by
  induction e using Expr.childInduction with
  | step e ih =>
      rw [Bool.eq_false_iff]
      intro huses
      rcases Expr.uses_iff.mp huses with hvariable | ⟨c, hc, huses⟩
      · have hhere := h.here
        cases e with
        | name other =>
            obtain rfl : other = ident := of_decide_eq_true hvariable
            simp [unreservedName, hr] at hhere
        | lit _ | self | field _ _ | index _ _ | assign _ _ _ | unary _ _ | binary _ _ _
        | conditional _ _ _ | call _ _ _ | new _ _ | newArray _ _ | superCall _ | selfCall _ =>
            exact absurd hvariable Bool.false_ne_true
      · have hchild := e.valueChildren_subset hc
        exact absurd huses (by simp [ih c hchild (h.child hchild)])

theorem unreservedHere_block (stmts : List Stmt) : UnreservedHere (.block stmts) where
  exprs _ he := absurd he List.not_mem_nil
  declared _ hx := absurd hx List.not_mem_nil
  clauses _ hc := absurd hc List.not_mem_nil
  label _ hl := by cases hl
  jump _ hl := by cases hl

theorem normalizeCatches_ident (catches : List CatchClause) :
    (normalizeCatches catches).map CatchClause.ident = catches.map CatchClause.ident := by
  rw [normalizeCatches_eq, List.map_map]
  rfl

theorem unreservedHere_normalize {s : Stmt} (h : UnreservedHere s) :
    UnreservedHere (normalize s) := by
  have hhead := head_normalize s
  constructor
  · exact holdsHere_of_head hhead h.exprs
  · rw [Stmt.declared_of_head hhead]
    exact h.declared
  · cases s with
    | tryCatch body catches cleanup =>
        intro c hc
        have hident := List.mem_map_of_mem (f := CatchClause.ident) hc
        change c.ident ∈ (normalizeCatches catches).map CatchClause.ident at hident
        rw [normalizeCatches_ident] at hident
        rcases List.mem_map.mp hident with ⟨c', hc', hsame⟩
        rw [← hsame]
        exact h.clauses c' hc'
    | block _ | decl _ _ _ | expr _ | ifElse _ _ _ | whileLoop _ _ | doWhile _ _
    | forLoop _ _ _ _ | forEach _ _ _ _ | labeled _ _ | switch _ _ | breakTo _ | continueTo _
    | ret _ | raise _ | sync _ _ | unmodelled _ => exact fun _ hc => absurd hc List.not_mem_nil
  · rw [← labelOf?_head, hhead, labelOf?_head]
    exact h.label
  · rw [← jumpOf?_head, hhead, jumpOf?_head]
    exact h.jump

theorem UnreservedHere.unused {cls ident : String} (hr : isReserved ident = true) {s : Stmt}
    (h : UnreservedHere s) : s.uses cls ident = false :=
  List.any_eq_false.mpr fun e he => by simp [uses_of_unreserved hr (h.exprs e he)]

/-! ## What a report uses -/

section

variable {cls ident : String}

theorem uses_of_writeTo? : ∀ {target : Expr} {write : Write}, writeTo? target = some write →
    write.target.uses cls ident = true → target.uses cls ident = true := by
  intro target write h huses
  fun_induction writeTo? target with
  | case1 target position ih =>
      exact Expr.uses_of_mem_valueChildren List.mem_cons_self (ih h)
  | case2 target _ hs =>
      obtain rfl := Option.some.inj h
      exact huses
  | case3 => exact absurd h (by simp)

mutual

theorem uses_of_mem_writesIn : ∀ (e : Expr) {write : Write}, write ∈ writesIn e →
    write.target.uses cls ident = true → e.uses cls ident = true
  | .assign op target value, write, h, huses => by
      simp only [writesIn, List.mem_append] at h
      rcases h with (h | h) | h
      · exact Expr.uses_of_mem_valueChildren List.mem_cons_self
          (uses_of_mem_writesInPlace target h huses)
      · exact Expr.uses_of_mem_valueChildren (c := value)
          (by simp [Expr.valueChildren, Expr.children]) (uses_of_mem_writesIn value h huses)
      · exact Expr.uses_of_mem_valueChildren List.mem_cons_self
          (uses_of_writeTo? (Option.mem_toList.mp h) huses)
  | .unary op operand, write, h, huses => by
      simp only [writesIn] at h
      refine Expr.uses_of_mem_valueChildren (c := operand) List.mem_cons_self ?_
      split at h
      · rcases List.mem_append.mp h with h | h
        · exact uses_of_mem_writesInPlace operand h huses
        · exact uses_of_writeTo? (Option.mem_toList.mp h) huses
      · exact uses_of_mem_writesIn operand h huses
  | .binary op left right, write, h, huses => by
      simp only [writesIn, List.mem_append] at h
      rcases h with h | h
      · exact Expr.uses_of_mem_valueChildren List.mem_cons_self (uses_of_mem_writesIn left h huses)
      · split at h
        · exact absurd h List.not_mem_nil
        · exact Expr.uses_of_mem_valueChildren (c := right)
            (by simp [Expr.valueChildren, Expr.children]) (uses_of_mem_writesIn right h huses)
  | .conditional cond _ _, write, h, huses =>
      Expr.uses_of_mem_valueChildren List.mem_cons_self
        (uses_of_mem_writesIn cond (by simpa [writesIn] using h) huses)
  | .field target _, write, h, huses =>
      Expr.uses_of_mem_valueChildren List.mem_cons_self
        (uses_of_mem_writesIn target (by simpa [writesIn] using h) huses)
  | .index target position, write, h, huses => by
      simp only [writesIn, List.mem_append] at h
      rcases h with h | h
      · exact Expr.uses_of_mem_valueChildren List.mem_cons_self
          (uses_of_mem_writesIn target h huses)
      · exact Expr.uses_of_mem_valueChildren (c := position)
          (by simp [Expr.valueChildren, Expr.children]) (uses_of_mem_writesIn position h huses)
  | .call none _ args, write, h, huses =>
      have ⟨c, hc, hcuses⟩ := uses_of_mem_writesInAll args
        (by simpa [writesIn, writesInReceiver] using h) huses
      Expr.uses_of_mem_valueChildren (c := c) hc hcuses
  | .call (some receiver) method args, write, h, huses => by
      simp only [writesIn, writesInReceiver, List.mem_append] at h
      have hmem : ∀ c ∈ args, c ∈ (Expr.call (some receiver) method args).valueChildren cls := by
        intro c hc
        cases receiver with
        | name other =>
            show c ∈ if other = cls then args else .name other :: args
            split
            · exact hc
            · exact List.mem_cons_of_mem _ hc
        | lit _ | self | field _ _ | index _ _ | assign _ _ _ | unary _ _ | binary _ _ _
        | conditional _ _ _ | call _ _ _ | new _ _ | newArray _ _ | superCall _ | selfCall _ =>
            exact List.mem_cons_of_mem _ hc
      rcases h with h | h
      · have hreceiver := uses_of_mem_writesIn receiver h huses
        cases receiver with
        | name other => simp [writesIn] at h
        | lit _ | self | field _ _ | index _ _ | assign _ _ _ | unary _ _ | binary _ _ _
        | conditional _ _ _ | call _ _ _ | new _ _ | newArray _ _ | superCall _ | selfCall _ =>
            exact Expr.uses_of_mem_valueChildren List.mem_cons_self hreceiver
      · rcases uses_of_mem_writesInAll args h huses with ⟨c, hc, hcuses⟩
        exact Expr.uses_of_mem_valueChildren (hmem c hc) hcuses
  | .new _ args, write, h, huses | .newArray _ args, write, h, huses
  | .superCall args, write, h, huses | .selfCall args, write, h, huses =>
      have ⟨_, hc, hcuses⟩ := uses_of_mem_writesInAll args (by simpa [writesIn] using h) huses
      Expr.uses_of_mem_valueChildren hc hcuses
  | .lit _, write, h, _ | .name _, write, h, _ | .self, write, h, _ => by
      simp [writesIn] at h

theorem uses_of_mem_writesInPlace : ∀ (e : Expr) {write : Write}, write ∈ writesInPlace e →
    write.target.uses cls ident = true → e.uses cls ident = true
  | .field target _, write, h, huses =>
      Expr.uses_of_mem_valueChildren List.mem_cons_self
        (uses_of_mem_writesIn target (by simpa [writesInPlace] using h) huses)
  | .index target position, write, h, huses => by
      simp only [writesInPlace, List.mem_append] at h
      rcases h with h | h
      · exact Expr.uses_of_mem_valueChildren List.mem_cons_self
          (uses_of_mem_writesIn target h huses)
      · exact Expr.uses_of_mem_valueChildren (c := position)
          (by simp [Expr.valueChildren, Expr.children]) (uses_of_mem_writesIn position h huses)
  | .lit _, _, h, _ | .name _, _, h, _ | .self, _, h, _ | .assign _ _ _, _, h, _
  | .unary _ _, _, h, _ | .binary _ _ _, _, h, _ | .conditional _ _ _, _, h, _
  | .call _ _ _, _, h, _ | .new _ _, _, h, _ | .newArray _ _, _, h, _ | .superCall _, _, h, _
  | .selfCall _, _, h, _ => by
      simp [writesInPlace] at h

theorem uses_of_mem_writesInAll : ∀ (es : List Expr) {write : Write}, write ∈ writesInAll es →
    write.target.uses cls ident = true → ∃ e ∈ es, e.uses cls ident = true
  | [], _, h, _ => by simp [writesInAll] at h
  | e :: rest, write, h, huses => by
      simp only [writesInAll, List.mem_append] at h
      rcases h with h | h
      · exact ⟨e, List.mem_cons_self, uses_of_mem_writesIn e h huses⟩
      · rcases uses_of_mem_writesInAll rest h huses with ⟨c, hc, hcuses⟩
        exact ⟨c, List.mem_cons_of_mem e hc, hcuses⟩

end

end

/-! ## Reports -/

section

variable (hooks : Hooks) (id : String) {ident : String}

theorem uses_text (text : String) : (Expr.text text).uses hooks.runtimeClass ident = false :=
  rfl

theorem uses_call {hook : String} {args : List Expr} :
    (hooks.call hook args).uses hooks.runtimeClass ident =
      args.any (Expr.uses hooks.runtimeClass ident) := by
  have hargs : (hooks.call hook args).valueChildren hooks.runtimeClass = args := by
    show (if hooks.runtimeClass = hooks.runtimeClass then args else _) = args
    rw [if_pos rfl]
  rw [Bool.eq_iff_iff, Expr.uses_iff, hargs, List.any_eq_true]
  constructor
  · exact fun h => h.resolve_left Bool.false_ne_true
  · exact .inr

theorem uses_report (hook : String) (args : List Expr) :
    (hooks.report hook args).uses hooks.runtimeClass ident =
      args.any (Expr.uses hooks.runtimeClass ident) := by
  show ([hooks.call hook args].any _) = _
  rw [List.any_cons, uses_call, List.any_nil, Bool.or_false]

theorem uses_changed (path : String) (target : Expr) :
    (hooks.changed id path target).uses hooks.runtimeClass ident =
      target.uses hooks.runtimeClass ident := by
  refine (uses_report hooks "valueChanged" [.text id, .text path, target]).trans ?_
  simp [uses_text]

theorem reports_unused {writes : List Write}
    (h : ∀ write ∈ writes, write.target.uses hooks.runtimeClass ident = false) :
    ∀ t ∈ reports hooks id writes, t.uses hooks.runtimeClass ident = false := by
  intro t ht
  rcases List.mem_map.mp ht with ⟨write, hwrite, rfl⟩
  exact (uses_changed hooks id write.path write.target).trans (h write hwrite)

theorem reportsOf_unused {e : Expr} (h : e.uses hooks.runtimeClass ident = false) :
    ∀ t ∈ reports hooks id (writesIn e), t.uses hooks.runtimeClass ident = false :=
  reports_unused hooks id fun _ hwrite => by
    rw [Bool.eq_false_iff]
    exact fun huses => absurd (uses_of_mem_writesIn e hwrite huses) (by simp [h])

theorem variable_report_unused {x : String} (hx : x ≠ ident) :
    ∀ t ∈ reports hooks id [Write.ofVariable x], t.uses hooks.runtimeClass ident = false := by
  refine reports_unused hooks id fun write hwrite => ?_
  obtain rfl := List.mem_singleton.mp hwrite
  exact (Expr.uses_name x).trans (decide_eq_false hx)

theorem uses_not (e : Expr) :
    (Expr.unary .not e).uses hooks.runtimeClass ident = e.uses hooks.runtimeClass ident := by
  rw [Bool.eq_iff_iff, Expr.uses_iff]
  simp [Expr.isVariable, Expr.valueChildren, Expr.children]

theorem testInBody_unused {cond : Expr} (h : cond.uses hooks.runtimeClass ident = false) :
    ∀ t ∈ testInBody hooks id cond (writesIn cond), t.uses hooks.runtimeClass ident = false := by
  intro t ht
  rcases List.mem_cons.mp ht with rfl | ht
  · simp [Stmt.uses, Stmt.ownExprs, uses_not, h]
  · exact reportsOf_unused hooks id h t ht

end

/-! ## Settled code -/

/-- What holds of every statement of woven code: a reserved variable that the statement
declares is a returned value, a reserved label makes the statement the iteration of a loop, and
the lists right inside settle the given variable. -/
structure NeatHere (cls ident : String) (s : Stmt) : Prop extends Stmt.SettlesHere cls ident s where
  declared : ∀ x ∈ s.declared, isReserved x = true →
    ∃ n type value, s = .declare type (reservedName "return" n) value
  label : ∀ label inner, s = .labeled label inner → isReserved label = true →
    inner.isBlock = true ∧ ∃ n, label = reservedName "iteration" n
  clauses : ∀ c ∈ s.clauses, isReserved c.ident = false

structure NeatIn (cls ident : String) (stmts : List Stmt) : Prop where
  every : Stmt.EveryIn (NeatHere cls ident) stmts
  settled : Settled cls ident stmts

section

variable {cls ident : String}

theorem declare_of_head {s : Stmt} {type : TypeName} {x : String} {value : Expr}
    (h : s.head = .declare type x value) : s = .declare type x value := by
  cases s <;> first | exact h | cases h

theorem NeatHere.withParts {s t : Stmt} (h : NeatHere cls ident s) (hhead : t.head = s.head)
    (hbodies : ∀ u ∈ t.bodies, u.isSimple = false)
    (hlists : ∀ list ∈ t.lists, Settled cls ident list)
    (hlabel : ∀ label inner, t = .labeled label inner → isReserved label = true →
      inner.isBlock = true)
    (hclauses : ∀ c ∈ t.clauses, ∃ c' ∈ s.clauses, c.ident = c'.ident) : NeatHere cls ident t where
  own hsimple := by
    rw [Stmt.uses_of_head hhead]
    exact h.own (by rwa [← Stmt.isSimple_of_head hhead])
  bodies := hbodies
  lists := hlists
  declared x hx hr := by
    rw [Stmt.declared_of_head hhead] at hx
    rcases h.declared x hx hr with ⟨n, type, value, rfl⟩
    exact ⟨n, type, value, declare_of_head hhead⟩
  label label inner ht hr := by
    refine ⟨hlabel label inner ht hr, ?_⟩
    subst ht
    cases s <;> cases hhead
    exact (h.label _ _ rfl hr).2
  clauses c hc := by
    rcases hclauses c hc with ⟨c', hc', hsame⟩
    rw [hsame]
    exact h.clauses c' hc'

theorem NeatHere.withBodies {s t : Stmt} (h : NeatHere cls ident s) (hhead : t.head = s.head)
    (hbodies : ∀ u ∈ t.bodies, u.isSimple = false) (hkind : t.clauses = [] ∧ t.lists = [])
    (hlabel : labelOf? t = none) : NeatHere cls ident t := by
  refine h.withParts hhead hbodies (fun list hl => ?_) (fun label inner ht => ?_) (fun c hc => ?_)
  · rw [hkind.2] at hl
    exact absurd hl List.not_mem_nil
  · subst ht
    cases hlabel
  · rw [hkind.1] at hc
    exact absurd hc List.not_mem_nil

theorem neatHere_leaf {s : Stmt} (hchildren : s.children = [])
    (hown : s.isSimple = true ∨ s.ownExprs = [])
    (hdeclared : ∀ x ∈ s.declared, isReserved x = true →
      ∃ n type value, s = .declare type (reservedName "return" n) value)
    (hkind : s.clauses = [] ∧ s.lists = []) : NeatHere cls ident s where
  own hsimple := by
    rcases hown with h | h
    · exact absurd h (by simp [hsimple])
    · simp [Stmt.uses, h]
  bodies t ht := by
    have hmem := s.bodies_subset ht
    rw [hchildren] at hmem
    exact absurd hmem List.not_mem_nil
  lists list hl := by
    rw [hkind.2] at hl
    exact absurd hl List.not_mem_nil
  declared := hdeclared
  label label inner hs _ := by
    subst hs
    exact absurd hchildren (List.cons_ne_nil _ _)
  clauses c hc := by
    rw [hkind.1] at hc
    exact absurd hc List.not_mem_nil

theorem every_neat_expr (e : Expr) : (Stmt.expr e).Every (NeatHere cls ident) :=
  (Stmt.every_leaf rfl).mpr
    (neatHere_leaf rfl (.inl rfl) (fun _ h => absurd h List.not_mem_nil) ⟨rfl, rfl⟩)

theorem every_neat_block {stmts : List Stmt} :
    (Stmt.block stmts).Every (NeatHere cls ident) ↔ NeatIn cls ident stmts := by
  rw [Stmt.every_block]
  constructor
  · exact fun h => ⟨h.2, h.1.lists stmts (List.mem_singleton.mpr rfl)⟩
  · intro h
    refine ⟨⟨⟨fun _ => rfl, fun _ ht => absurd ht List.not_mem_nil, fun list hl => ?_⟩,
      fun _ hx => absurd hx List.not_mem_nil, fun _ _ hs => (by cases hs),
      fun _ hc => absurd hc List.not_mem_nil⟩, h.every⟩
    obtain rfl := List.mem_singleton.mp hl
    exact h.settled

end

end Weave
end TraceWeaving
