import TraceWeaving.Proofs.Code.Variables
import TraceWeaving.Proofs.Weave.Shape
import TraceWeaving.Proofs.Weave.Traversal

/-!
# Conditions that the passes keep

Weaving rearranges statements and adds hooks.  A condition on statements that holds of
what is added, and that does not see the rearrangement, holds of all woven code as soon
as it holds of the former code.
-/

namespace TraceWeaving
namespace Weave

open Code
open Code.Stmt (HoldsHere)

/-! ## Conditions that look at a statement only -/

def returnsBare (s : Stmt) : Bool :=
  s.bodies.any isValueReturn

theorem isValueReturn_head (s : Stmt) : isValueReturn s.head = isValueReturn s := by
  cases s with
  | ret value => cases value <;> rfl
  | block _ | decl _ _ _ | expr _ | ifElse _ _ _ | whileLoop _ _ | doWhile _ _
  | forLoop _ _ _ _ | forEach _ _ _ _ | labeled _ _ | switch _ _ | breakTo _ | continueTo _
  | raise _ | tryCatch _ _ _ | sync _ _ | unmodelled _ => rfl

theorem eq_ret_of_isValueReturn {s : Stmt} (h : isValueReturn s = true) :
    ∃ value, s = .ret (some value) := by
  cases s with
  | ret value =>
      cases value with
      | none => cases h
      | some value => exact ⟨value, rfl⟩
  | block _ | decl _ _ _ | expr _ | ifElse _ _ _ | whileLoop _ _ | doWhile _ _
  | forLoop _ _ _ _ | forEach _ _ _ _ | labeled _ _ | switch _ _ | breakTo _ | continueTo _
  | raise _ | tryCatch _ _ _ | sync _ _ | unmodelled _ => cases h

theorem isValueReturn_of_head {s t : Stmt} (h : t.head = s.head) :
    isValueReturn t = isValueReturn s := by
  rw [← isValueReturn_head t, h, isValueReturn_head s]

theorem returnsBare_transformNested (f : List Stmt → Naming (List Stmt)) (s : Stmt) (n : Nat) :
    returnsBare (Stmt.transformNested f s n).1 = returnsBare s := by
  have hsame : ∀ (t : Stmt) (n : Nat),
      isValueReturn (Stmt.transformNested f t n).1 = isValueReturn t :=
    fun t n => isValueReturn_of_head (head_transformNested t n)
  cases s with
  | whileLoop _ body | doWhile body _ | forLoop _ _ _ body | forEach _ _ _ body
  | labeled _ body =>
      show (isValueReturn (Stmt.transformNested f body n).1 || false) = (isValueReturn body || false)
      rw [hsame]
  | ifElse cond ifTrue ifFalse =>
      cases ifFalse with
      | none =>
          show (isValueReturn (Stmt.transformNested f ifTrue n).1 || false) =
            (isValueReturn ifTrue || false)
          rw [hsame]
      | some s =>
          show (isValueReturn (Stmt.transformNested f ifTrue n).1 ||
              (isValueReturn (Stmt.transformNested f s _).1 || false)) =
            (isValueReturn ifTrue || (isValueReturn s || false))
          rw [hsame, hsame]
  | block _ | switch _ _ | tryCatch _ _ _ | sync _ _ | decl _ _ _ | expr _ | breakTo _
  | continueTo _ | ret _ | raise _ | unmodelled _ => rfl

theorem isValueReturn_retarget (loopLabel : Option String) (target : String) (b : Bool)
    (s : Stmt) : isValueReturn (retarget loopLabel target b s) = isValueReturn s := by
  cases s with
  | continueTo label =>
      cases label with
      | none => cases b <;> rfl
      | some label =>
          unfold retarget
          split <;> rfl
  | block _ | decl _ _ _ | expr _ | ifElse _ _ _ | whileLoop _ _ | doWhile _ _
  | forLoop _ _ _ _ | forEach _ _ _ _ | labeled _ _ | switch _ _ | breakTo _ | ret _ | raise _
  | tryCatch _ _ _ | sync _ _ | unmodelled _ => rfl

theorem returnsBare_retarget (loopLabel : Option String) (target : String) (b : Bool)
    (s : Stmt) : returnsBare (retarget loopLabel target b s) = returnsBare s := by
  cases s with
  | whileLoop _ body | doWhile body _ | forLoop _ _ _ body | forEach _ _ _ body
  | labeled _ body => simp [returnsBare, retarget, Stmt.bodies, isValueReturn_retarget]
  | ifElse cond ifTrue ifFalse =>
      cases ifFalse <;>
        simp [returnsBare, retarget, retargetElse, Stmt.bodies, isValueReturn_retarget]
  | continueTo label =>
      cases label with
      | none => cases b <;> rfl
      | some label =>
          unfold retarget
          split <;> rfl
  | block _ | switch _ _ | tryCatch _ _ _ | sync _ _ | decl _ _ _ | expr _ | breakTo _
  | ret _ | raise _ | unmodelled _ => rfl

/-- The expressions of a statement are those of another one, or reports of writes. -/
def OwnOrReport (hooks : Hooks) (id : String) (s t : Stmt) : Prop :=
  ∀ e ∈ t.ownExprs, e ∈ s.ownExprs ∨
    ∃ path target, isStablePath target = true ∧ e = hooks.changedCall id path target

/-- A condition that looks at no statement inside, except for values that are returned in
no list, and that holds of what reports of value changes bring along; iterations are
numbered up to the bound. -/
structure Placeable (hooks : Hooks) (id : String) (bound : Nat) (q : Stmt → Prop) : Prop where
  alike : ∀ {s t : Stmt}, t.head = s.head → (returnsBare t = true → returnsBare s = true) →
    q s → q t
  block : ∀ stmts, q (.block stmts)
  changed : ∀ (path : String) {target : Expr}, isStablePath target = true →
    q (hooks.changed id path target)
  test : ∀ {s : Stmt} {cond : Expr}, q s → cond ∈ s.ownExprs →
    ∀ stmts, q (.ifElse (.unary .not cond) (.block stmts) none)
  forever : ∀ stmts, q (.whileLoop (.bool true) (.block stmts))
  leave : q (.breakTo none)
  iteration : ∀ n < bound, ∀ stmts, q (.labeled (reservedName "iteration" n) (.block stmts))
  next : ∀ n < bound, q (.breakTo (some (reservedName "iteration" n)))
  start : ∀ {type : TypeName} {ident : String} {init : Expr} {cond : Option Expr}
    {update : List Expr} {body : Stmt}, q (.forLoop (.decl type ident init) cond update body) →
      q (.declare type ident init)
  forLoop : ∀ {init init' : ForInit} {cond cond' : Option Expr} {update update' : List Expr}
    {body body' : Stmt}, q (.forLoop init cond update body) →
      OwnOrReport hooks id (.forLoop init cond update body) (.forLoop init' cond' update' body') →
      (isValueReturn body' = true → isValueReturn body = true) →
        q (.forLoop init' cond' update' body')

/-! ## Placing reports -/

def forTest (hooks : Hooks) (id : String) (cond : Option Expr) (body : Stmt) :
    Option Expr × Stmt :=
  match cond with
  | some test =>
      if (writesIn test).isEmpty then (some test, body)
      else (none, prepend (testInBody hooks id test (writesIn test)) body)
  | none => (none, body)

def forStart (hooks : Hooks) (id : String) (init : ForInit) (cond : Option Expr)
    (update : List Expr) (body : Stmt) : Placed :=
  match init with
  | .exprs es =>
      .alone (.forLoop (.exprs (es ++ reportCalls hooks id (es.flatMap writesIn)))
        cond update body)
  | .decl type ident init =>
      { before :=
          .declare type ident init
            :: reports hooks id (writesIn init ++ [Write.ofVariable ident])
        stmt := .forLoop (.exprs []) cond update body
        after := [] }

theorem placeFor_eq (hooks : Hooks) (id : String) (init : ForInit) (cond : Option Expr)
    (update : List Expr) (body : Stmt) :
    placeFor hooks id init cond update body =
      forStart hooks id init (forTest hooks id cond body).1
        (update ++ reportCalls hooks id (update.flatMap writesIn))
        (forTest hooks id cond body).2 := by
  unfold placeFor forStart forTest
  cases cond with
  | none => cases init <;> rfl
  | some test => cases init <;> rfl

theorem isStablePath_of_writeTo? : ∀ {target : Expr} {write : Write},
    writeTo? target = some write → isStablePath write.target = true := by
  intro target write h
  fun_induction writeTo? target with
  | case1 target _ ih => exact ih h
  | case2 target _ hs =>
      obtain rfl := Option.some.inj h
      exact hs
  | case3 => exact absurd h (by simp)

theorem mem_writeTo? {target : Expr} {write : Write} (h : write ∈ (writeTo? target).toList) :
    isStablePath write.target = true :=
  isStablePath_of_writeTo? (Option.mem_toList.mp h)

mutual

theorem isStablePath_of_mem_writesIn : ∀ (e : Expr) {write : Write}, write ∈ writesIn e →
    isStablePath write.target = true
  | .assign _ target value, write, h => by
      simp only [writesIn, List.mem_append] at h
      rcases h with (h | h) | h
      · exact isStablePath_of_mem_writesInPlace target h
      · exact isStablePath_of_mem_writesIn value h
      · exact mem_writeTo? h
  | .unary op operand, write, h => by
      simp only [writesIn] at h
      split at h
      · rcases List.mem_append.mp h with h | h
        · exact isStablePath_of_mem_writesInPlace operand h
        · exact mem_writeTo? h
      · exact isStablePath_of_mem_writesIn operand h
  | .binary op left right, write, h => by
      simp only [writesIn, List.mem_append] at h
      rcases h with h | h
      · exact isStablePath_of_mem_writesIn left h
      · split at h
        · exact absurd h List.not_mem_nil
        · exact isStablePath_of_mem_writesIn right h
  | .conditional cond _ _, write, h => isStablePath_of_mem_writesIn cond (by simpa [writesIn] using h)
  | .field target _, write, h => isStablePath_of_mem_writesIn target (by simpa [writesIn] using h)
  | .index target position, write, h => by
      simp only [writesIn, List.mem_append] at h
      rcases h with h | h
      · exact isStablePath_of_mem_writesIn target h
      · exact isStablePath_of_mem_writesIn position h
  | .call receiver _ args, write, h => by
      simp only [writesIn, List.mem_append] at h
      rcases h with h | h
      · exact isStablePath_of_mem_writesInReceiver receiver h
      · exact isStablePath_of_mem_writesInAll args h
  | .new _ args, write, h | .newArray _ args, write, h | .superCall args, write, h
  | .selfCall args, write, h =>
      isStablePath_of_mem_writesInAll args (by simpa [writesIn] using h)
  | .lit _, write, h | .name _, write, h | .self, write, h => by
      simp [writesIn] at h

theorem isStablePath_of_mem_writesInPlace : ∀ (e : Expr) {write : Write},
    write ∈ writesInPlace e → isStablePath write.target = true
  | .field target _, write, h =>
      isStablePath_of_mem_writesIn target (by simpa [writesInPlace] using h)
  | .index target position, write, h => by
      simp only [writesInPlace, List.mem_append] at h
      rcases h with h | h
      · exact isStablePath_of_mem_writesIn target h
      · exact isStablePath_of_mem_writesIn position h
  | .lit _, _, h | .name _, _, h | .self, _, h | .assign _ _ _, _, h | .unary _ _, _, h
  | .binary _ _ _, _, h | .conditional _ _ _, _, h | .call _ _ _, _, h | .new _ _, _, h
  | .newArray _ _, _, h | .superCall _, _, h | .selfCall _, _, h => by
      simp [writesInPlace] at h

theorem isStablePath_of_mem_writesInReceiver : ∀ (receiver : Option Expr) {write : Write},
    write ∈ writesInReceiver receiver → isStablePath write.target = true
  | none, _, h => by simp [writesInReceiver] at h
  | some e, _, h => isStablePath_of_mem_writesIn e (by simpa [writesInReceiver] using h)

theorem isStablePath_of_mem_writesInAll : ∀ (es : List Expr) {write : Write},
    write ∈ writesInAll es → isStablePath write.target = true
  | [], _, h => by simp [writesInAll] at h
  | e :: rest, write, h => by
      simp only [writesInAll, List.mem_append] at h
      rcases h with h | h
      · exact isStablePath_of_mem_writesIn e h
      · exact isStablePath_of_mem_writesInAll rest h

end

section

variable {hooks : Hooks} {id : String} {bound : Nat} {q : Stmt → Prop}
variable (hq : Placeable hooks id bound q)

include hq

theorem Placeable.transformNested (f : List Stmt → Naming (List Stmt)) (s : Stmt) (n : Nat)
    (h : q s) : q (Stmt.transformNested f s n).1 := by
  refine hq.alike (head_transformNested s n) ?_ h
  rw [returnsBare_transformNested]
  exact fun h => h

theorem reports_every {writes : List Write}
    (h : ∀ write ∈ writes, isStablePath write.target = true) :
    Stmt.EveryIn q (reports hooks id writes) := by
  intro s hs
  rcases List.mem_map.mp hs with ⟨write, hwrite, rfl⟩
  exact (Stmt.every_leaf rfl).mpr (hq.changed write.path (h write hwrite))

theorem reportsOf_every (e : Expr) : Stmt.EveryIn q (reports hooks id (writesIn e)) :=
  reports_every hq fun _ h => isStablePath_of_mem_writesIn e h

theorem reportsOfDecl_every (init : Expr) (ident : String) :
    Stmt.EveryIn q (reports hooks id (writesIn init ++ [Write.ofVariable ident])) := by
  refine reports_every hq fun write h => ?_
  rcases List.mem_append.mp h with h | h
  · exact isStablePath_of_mem_writesIn init h
  · obtain rfl := List.mem_singleton.mp h
    rfl

omit hq in
theorem ownOrReport_reportCalls {s : Stmt} {es : List Expr} (hes : ∀ e ∈ es, e ∈ s.ownExprs) :
    ∀ e ∈ es ++ reportCalls hooks id (es.flatMap writesIn), e ∈ s.ownExprs ∨
      ∃ path target, isStablePath target = true ∧ e = hooks.changedCall id path target := by
  intro e he
  rcases List.mem_append.mp he with he | he
  · exact .inl (hes e he)
  · rcases List.mem_map.mp he with ⟨write, hwrite, rfl⟩
    rcases List.mem_flatMap.mp hwrite with ⟨e', _, hwrite⟩
    exact .inr ⟨write.path, write.target, isStablePath_of_mem_writesIn e' hwrite, rfl⟩

omit hq in
theorem prepend_eq (stmts : List Stmt) (body : Stmt) (hs : stmts ≠ []) :
    ∃ inner, prepend stmts body = .block (stmts ++ inner) ∧
      (body = .block inner ∨ inner = [body]) := by
  cases stmts with
  | nil => exact absurd rfl hs
  | cons s rest =>
      cases body with
      | block inner => exact ⟨inner, rfl, .inl rfl⟩
      | decl _ _ _ | expr _ | ifElse _ _ _ | whileLoop _ _ | doWhile _ _ | forLoop _ _ _ _
      | forEach _ _ _ _ | labeled _ _ | switch _ _ | breakTo _ | continueTo _ | ret _ | raise _
      | tryCatch _ _ _ | sync _ _ | unmodelled _ => exact ⟨_, rfl, .inr rfl⟩

omit hq in
theorem every_prepend (hblock : ∀ stmts, q (.block stmts)) {stmts : List Stmt} {body : Stmt}
    (hs : Stmt.EveryIn q stmts) (hb : body.Every q) : (prepend stmts body).Every q := by
  by_cases hne : stmts = []
  · rw [hne]
    exact hb
  · rcases prepend_eq stmts body hne with ⟨inner, heq, hinner⟩
    rw [heq]
    refine Stmt.every_block.mpr ⟨hblock _, Stmt.everyIn_append.mpr ⟨hs, ?_⟩⟩
    rcases hinner with rfl | rfl
    · exact (Stmt.every_block.mp hb).2
    · exact Stmt.everyIn_singleton.mpr hb

theorem prepend_every {stmts : List Stmt} {body : Stmt} (hs : Stmt.EveryIn q stmts)
    (hb : body.Every q) : (prepend stmts body).Every q :=
  every_prepend hq.block hs hb

omit hq in
theorem isValueReturn_prepend {stmts : List Stmt} {body : Stmt}
    (h : isValueReturn (prepend stmts body) = true) : isValueReturn body = true := by
  by_cases hne : stmts = []
  · rw [hne] at h
    exact h
  · rcases prepend_eq stmts body hne with ⟨inner, heq, _⟩
    rw [heq] at h
    exact absurd h (by simp [isValueReturn])

theorem testInBody_every {s : Stmt} {cond : Expr} (hs : q s) (hc : cond ∈ s.ownExprs) :
    Stmt.EveryIn q (testInBody hooks id cond (writesIn cond)) := by
  have hreports := reportsOf_every hq cond
  refine Stmt.everyIn_cons.mpr ⟨Stmt.every_ifElse.mpr ⟨hq.test hs hc _, ?_, ?_⟩, hreports⟩
  · refine Stmt.every_block.mpr ⟨hq.block _, Stmt.everyIn_append.mpr ⟨hreports, ?_⟩⟩
    exact Stmt.everyIn_singleton.mpr ((Stmt.every_leaf rfl).mpr hq.leave)
  · exact fun _ ht => absurd ht (by simp)

theorem placeIf_every {cond : Expr} {ifTrue : Stmt} {ifFalse : Option Stmt}
    (h : (Stmt.ifElse cond ifTrue ifFalse).Every q) :
    (placeIf hooks id cond ifTrue ifFalse).Every q := by
  have hreports := reportsOf_every hq cond
  unfold placeIf
  simp only
  split
  · exact h
  · rw [Stmt.every_ifElse] at h
    have helse : (ifFalse.getD (.block [])).Every q := by
      cases ifFalse with
      | none => exact Stmt.every_block.mpr ⟨hq.block _, Stmt.everyIn_nil⟩
      | some s => exact h.2.2 s rfl
    refine Stmt.every_ifElse.mpr ⟨hq.alike (s := .ifElse cond ifTrue ifFalse) rfl (fun hb => ?_) h.1,
      prepend_every hq hreports h.2.1, fun t ht => ?_⟩
    · simp only [returnsBare, Stmt.bodies, Option.toList_some, List.any_cons, List.any_nil,
        Bool.or_false, Bool.or_eq_true] at hb ⊢
      rcases hb with hb | hb
      · exact .inl (isValueReturn_prepend hb)
      · have helse := isValueReturn_prepend hb
        cases ifFalse with
        | none => exact absurd helse (by simp [isValueReturn])
        | some s => exact .inr (by simpa using helse)
    · obtain rfl := Option.some.inj ht
      exact prepend_every hq hreports helse

theorem placeWhile_every {cond : Expr} {body : Stmt} (h : (Stmt.whileLoop cond body).Every q) :
    (placeWhile hooks id cond body).Every q := by
  unfold placeWhile
  simp only
  split
  · exact h
  · rw [Stmt.every_whileLoop] at h
    have htest := testInBody_every hq h.1 (List.mem_singleton.mpr rfl : cond ∈ _)
    have hbody := prepend_every hq htest h.2
    rcases prepend_eq (testInBody hooks id cond (writesIn cond)) body (by simp [testInBody]) with
      ⟨inner, heq, _⟩
    rw [heq] at hbody ⊢
    exact Stmt.every_whileLoop.mpr ⟨hq.forever _, hbody⟩

omit hq in
theorem asBlock_eq (s : Stmt) : ∃ stmts, asBlock s = .block stmts := by
  unfold asBlock
  cases s with
  | block stmts => exact ⟨stmts, rfl⟩
  | decl _ _ _ | expr _ | ifElse _ _ _ | whileLoop _ _ | doWhile _ _ | forLoop _ _ _ _
  | forEach _ _ _ _ | labeled _ _ | switch _ _ | breakTo _ | continueTo _ | ret _ | raise _
  | tryCatch _ _ _ | sync _ _ | unmodelled _ => exact ⟨_, rfl⟩

omit hq in
theorem placeDoWhile_of_isEmpty {cond : Expr} (hw : (writesIn cond).isEmpty = true)
    (body : Stmt) (label : Option String) (n : Nat) :
    placeDoWhile hooks id body cond label n = (.doWhile body cond, n) := by
  unfold placeDoWhile
  simp only [hw, if_true]
  rfl

omit hq in
theorem placeDoWhile_of_writes {cond : Expr} (hw : (writesIn cond).isEmpty = false)
    (body : Stmt) (label : Option String) (n : Nat) :
    placeDoWhile hooks id body cond label n =
      (.whileLoop (.bool true) (.block
        (.labeled (reservedName "iteration" n)
            (retarget label (reservedName "iteration" n) false (asBlock body))
          :: testInBody hooks id cond (writesIn cond))), n + 1) := by
  unfold placeDoWhile
  simp only [hw]
  rfl

theorem placeDoWhile_every {cond : Expr} {body : Stmt} (label : Option String)
    (h : (Stmt.doWhile body cond).Every q) (n : Nat)
    (hn : (placeDoWhile hooks id body cond label n).2 ≤ bound) :
    (placeDoWhile hooks id body cond label n).1.Every q := by
  have hloop := Stmt.every_doWhile.mp h
  cases hw : (writesIn cond).isEmpty with
  | true =>
      rw [placeDoWhile_of_isEmpty hw]
      exact h
  | false =>
      rw [placeDoWhile_of_writes hw] at hn ⊢
      have hbound : n < bound := hn
      have hretarget : ∀ b s, q s → q (retarget label (reservedName "iteration" n) b s) := by
        intro b s hs
        rcases head_retarget b s with hhead | hbreak
        · exact hq.alike hhead (by rw [returnsBare_retarget]; exact fun h => h) hs
        · rw [hbreak]
          exact hq.next n hbound
      have hbody := retarget_every label (reservedName "iteration" n) hretarget false
        (asBlock_every hq.block hloop.2)
      rcases asBlock_eq body with ⟨stmts, heq⟩
      rw [heq] at hbody ⊢
      refine Stmt.every_whileLoop.mpr ⟨hq.forever _, Stmt.every_block.mpr ⟨hq.block _, ?_⟩⟩
      refine Stmt.everyIn_cons.mpr ⟨?_, testInBody_every hq hloop.1 (List.mem_singleton.mpr rfl)⟩
      exact Stmt.every_labeled.mpr ⟨hq.iteration n hbound _, hbody⟩

structure Placed.Every (q : Stmt → Prop) (placed : Placed) : Prop where
  before : Stmt.EveryIn q placed.before
  stmt : placed.stmt.Every q
  after : Stmt.EveryIn q placed.after

omit hq in
theorem Placed.Every.alone {s : Stmt} (h : s.Every q) : Placed.Every q (.alone s) :=
  ⟨Stmt.everyIn_nil, h, Stmt.everyIn_nil⟩

omit hq in
theorem Placed.Every.everyIn (hblock : ∀ stmts, q (.block stmts)) {placed : Placed}
    (h : placed.Every q) : Stmt.EveryIn q placed.stmts := by
  have hwhole : Stmt.EveryIn q (placed.stmt :: placed.after) :=
    Stmt.everyIn_cons.mpr ⟨h.stmt, h.after⟩
  unfold Placed.stmts
  split
  · exact hwhole
  · exact Stmt.everyIn_singleton.mpr (Stmt.every_block.mpr
      ⟨hblock _, Stmt.everyIn_append.mpr ⟨h.before, hwhole⟩⟩)

theorem forTest_every {s : Stmt} {cond : Option Expr} {body : Stmt} (hs : q s)
    (hc : ∀ e ∈ cond, e ∈ s.ownExprs) (hb : body.Every q) :
    (forTest hooks id cond body).2.Every q := by
  unfold forTest
  cases cond with
  | none => exact hb
  | some test =>
      by_cases hwrites : (writesIn test).isEmpty = true
      · simp only [hwrites, if_true]
        exact hb
      · simp only [hwrites]
        exact prepend_every hq (testInBody_every hq hs (hc test rfl)) hb

omit hq in
theorem mem_forTest {cond : Option Expr} {body : Stmt} {e : Expr}
    (he : e ∈ (forTest hooks id cond body).1) : e ∈ cond := by
  unfold forTest at he
  cases cond with
  | none => exact he
  | some test =>
      by_cases hwrites : (writesIn test).isEmpty = true
      · simp only [hwrites, if_true] at he
        exact he
      · simp only [hwrites] at he
        exact absurd he (by simp)

omit hq in
theorem isValueReturn_forTest {cond : Option Expr} {body : Stmt}
    (h : isValueReturn (forTest hooks id cond body).2 = true) : isValueReturn body = true := by
  unfold forTest at h
  cases cond with
  | none => exact h
  | some test =>
      by_cases hwrites : (writesIn test).isEmpty = true
      · simp only [hwrites, if_true] at h
        exact h
      · simp only [hwrites] at h
        exact isValueReturn_prepend h

theorem placeFor_every {init : ForInit} {cond : Option Expr} {update : List Expr} {body : Stmt}
    (h : (Stmt.forLoop init cond update body).Every q) :
    (placeFor hooks id init cond update body).Every q := by
  have hloop := Stmt.every_forLoop.mp h
  have hinit : ∀ e ∈ init.operands, e ∈ (Stmt.forLoop init cond update body).ownExprs :=
    fun e he => by simp [Stmt.ownExprs, he]
  have hcond : ∀ e ∈ cond, e ∈ (Stmt.forLoop init cond update body).ownExprs :=
    fun e he => by
      simp only [Stmt.ownExprs, List.mem_append, Option.mem_toList]
      exact .inl (.inr he)
  have hupdate : ∀ e ∈ update, e ∈ (Stmt.forLoop init cond update body).ownExprs :=
    fun e he => by simp [Stmt.ownExprs, he]
  have hbody := forTest_every hq hloop.1 hcond hloop.2
  -- the loop itself, with whatever expressions it starts
  have hplaced : ∀ es : List Expr,
      (∀ e ∈ es, e ∈ (Stmt.forLoop init cond update body).ownExprs ∨
        ∃ path target, isStablePath target = true ∧ e = hooks.changedCall id path target) →
      (Stmt.forLoop (.exprs es) (forTest hooks id cond body).1
        (update ++ reportCalls hooks id (update.flatMap writesIn))
        (forTest hooks id cond body).2).Every q := by
    intro es hes
    refine Stmt.every_forLoop.mpr ⟨hq.forLoop hloop.1 (fun e he => ?_) isValueReturn_forTest, hbody⟩
    simp only [Stmt.ownExprs, ForInit.operands, List.mem_append, Option.mem_toList] at he
    rcases he with (he | he) | he
    · exact hes e he
    · exact .inl (hcond e (mem_forTest he))
    · exact ownOrReport_reportCalls hupdate e (List.mem_append.mpr he)
  rw [placeFor_eq]
  cases init with
  | exprs es => exact .alone (hplaced _ (ownOrReport_reportCalls hinit))
  | decl type ident init =>
      refine ⟨Stmt.everyIn_cons.mpr ⟨?_, reportsOfDecl_every hq init ident⟩,
        hplaced [] (fun _ he => absurd he List.not_mem_nil), Stmt.everyIn_nil⟩
      exact (Stmt.every_leaf rfl).mpr (hq.start hloop.1)

omit hq in
theorem place_labeled {label : String} {body : Stmt}
    (hdo : ∀ inner cond, body ≠ .doWhile inner cond) (n : Nat) :
    place hooks id (.labeled label body) n =
      ({ (place hooks id body n).1 with
          stmt := .labeled label (place hooks id body n).1.stmt }, (place hooks id body n).2) := by
  rw [place]
  · rfl
  · exact hdo

omit hq in
theorem place_labeled_doWhile (label : String) (body : Stmt) (cond : Expr) (n : Nat) :
    place hooks id (.labeled label (.doWhile body cond)) n =
      (.alone (.labeled label (placeDoWhile hooks id body cond (some label) n).1),
        (placeDoWhile hooks id body cond (some label) n).2) :=
  rfl

omit hq in
theorem placeElse_some (s : Stmt) (n : Nat) :
    placeElse hooks id (some s) n =
      if chainsElse s then (some (place hooks id s n).1.stmt, (place hooks id s n).2)
      else (some s, n) := by
  unfold placeElse
  split <;> rfl

omit hq in
theorem le_placeDoWhile (body : Stmt) (cond : Expr) (label : Option String) (n : Nat) :
    n ≤ (placeDoWhile hooks id body cond label n).2 := by
  cases hw : (writesIn cond).isEmpty with
  | true => exact Nat.le_of_eq (congrArg Prod.snd (placeDoWhile_of_isEmpty hw body label n)).symm
  | false =>
      rw [placeDoWhile_of_writes hw]
      exact Nat.le_succ n

omit hq in
theorem isSimple_placeDoWhile (body : Stmt) (cond : Expr) (label : Option String) (n : Nat) :
    (placeDoWhile hooks id body cond label n).1.isSimple = false := by
  cases hw : (writesIn cond).isEmpty with
  | true =>
      rw [placeDoWhile_of_isEmpty hw]
      rfl
  | false =>
      rw [placeDoWhile_of_writes hw]
      rfl

omit hq in
theorem le_place (s : Stmt) (n : Nat) : n ≤ (place hooks id s n).2 := by
  induction s using Stmt.childInduction generalizing n with
  | step s ih =>
      cases s with
      | ifElse cond ifTrue ifFalse =>
          show n ≤ (placeElse hooks id ifFalse n).2
          cases ifFalse with
          | none => exact Nat.le_refl n
          | some s =>
              rw [placeElse_some]
              split
              · exact ih s (by simp [Stmt.children]) n
              · exact Nat.le_refl n
      | doWhile body cond => exact le_placeDoWhile body cond none n
      | labeled label body =>
          by_cases hdo : ∃ inner cond, body = .doWhile inner cond
          · rcases hdo with ⟨inner, cond, rfl⟩
            exact le_placeDoWhile inner cond (some label) n
          · rw [place_labeled fun inner cond hb => hdo ⟨inner, cond, hb⟩]
            exact ih body (List.mem_singleton.mpr rfl) n
      | decl _ _ init => cases init <;> exact Nat.le_refl n
      | block _ | expr _ | whileLoop _ _ | forLoop _ _ _ _ | forEach _ _ _ _ | switch _ _
      | breakTo _ | continueTo _ | ret _ | raise _ | tryCatch _ _ _ | sync _ _ | unmodelled _ =>
          exact Nat.le_refl n

omit hq in
/-- Reports are placed around a simple statement, which stays as it is, and inside any other
one, which does not become simple. -/
theorem place_simple_or_not (s : Stmt) (n : Nat) :
    (place hooks id s n).1.stmt = s ∨
      s.isSimple = false ∧ (place hooks id s n).1.stmt.isSimple = false := by
  cases s with
  | decl _ _ init => cases init <;> exact .inl rfl
  | expr _ | ret _ | raise _ => exact .inl rfl
  | ifElse cond ifTrue ifFalse =>
      refine .inr ⟨rfl, ?_⟩
      show (placeIf hooks id cond ifTrue _).isSimple = false
      unfold placeIf
      simp only
      split <;> rfl
  | whileLoop cond body =>
      refine .inr ⟨rfl, ?_⟩
      show (placeWhile hooks id cond body).isSimple = false
      unfold placeWhile
      simp only
      split <;> rfl
  | doWhile body cond => exact .inr ⟨rfl, isSimple_placeDoWhile body cond none n⟩
  | forLoop init cond update body =>
      refine .inr ⟨rfl, ?_⟩
      show (placeFor hooks id init cond update body).stmt.isSimple = false
      rw [placeFor_eq]
      cases init <;> rfl
  | labeled label body =>
      refine .inr ⟨rfl, ?_⟩
      by_cases hdo : ∃ inner cond, body = .doWhile inner cond
      · rcases hdo with ⟨inner, cond, rfl⟩
        rfl
      · rw [place_labeled fun inner cond hb => hdo ⟨inner, cond, hb⟩]
        rfl
  | block _ | forEach _ _ _ _ | switch _ _ | breakTo _ | continueTo _ | tryCatch _ _ _
  | sync _ _ | unmodelled _ => exact .inr ⟨rfl, rfl⟩

omit hq in
theorem isSimple_place {s : Stmt} (hs : s.isSimple = false) (n : Nat) :
    (place hooks id s n).1.stmt.isSimple = false := by
  rcases place_simple_or_not s n with hsame | ⟨-, hplaced⟩
  · rw [hsame]
    exact hs
  · exact hplaced

omit hq in
theorem isValueReturn_of_not_simple {s : Stmt} (h : s.isSimple = false) :
    isValueReturn s = false := by
  cases s <;> first | rfl | cases h

omit hq in
theorem isValueReturn_place (s : Stmt) (n : Nat) :
    isValueReturn (place hooks id s n).1.stmt = isValueReturn s := by
  rcases place_simple_or_not s n with hsame | ⟨hs, hplaced⟩
  · rw [hsame]
  · rw [isValueReturn_of_not_simple hplaced, isValueReturn_of_not_simple hs]

theorem place_every (s : Stmt) (n : Nat) (h : s.Every q)
    (hn : (place hooks id s n).2 ≤ bound) : (place hooks id s n).1.Every q := by
  induction s using Stmt.childInduction generalizing n with
  | step s ih =>
      cases s with
      | expr e => exact ⟨Stmt.everyIn_nil, h, reportsOf_every hq e⟩
      | decl type ident init =>
          cases init with
          | none => exact .alone h
          | some init => exact ⟨Stmt.everyIn_nil, h, reportsOfDecl_every hq init ident⟩
      | ifElse cond ifTrue ifFalse =>
          have hif := Stmt.every_ifElse.mp h
          cases ifFalse with
          | none => exact .alone (placeIf_every hq h)
          | some s =>
              have hs := hif.2.2 s rfl
              change (placeElse hooks id (some s) n).2 ≤ bound at hn
              show Placed.Every q (.alone (placeIf hooks id cond ifTrue
                (placeElse hooks id (some s) n).1))
              rw [placeElse_some] at hn ⊢
              by_cases hchain : chainsElse s = true
              · rw [if_pos hchain] at hn ⊢
                refine .alone (placeIf_every hq (Stmt.every_ifElse.mpr ⟨?_, hif.2.1, ?_⟩))
                · refine hq.alike (s := .ifElse cond ifTrue (some s)) rfl (fun hb => ?_) hif.1
                  simpa [returnsBare, Stmt.bodies, isValueReturn_place] using hb
                · intro t ht
                  obtain rfl := Option.some.inj ht
                  exact (ih s (by simp [Stmt.children]) n hs hn).stmt
              · rw [if_neg hchain]
                exact .alone (placeIf_every hq h)
      | whileLoop cond body => exact .alone (placeWhile_every hq h)
      | doWhile body cond => exact .alone (placeDoWhile_every hq none h n hn)
      | forLoop init cond update body => exact placeFor_every hq h
      | forEach type ident items body =>
          have hloop := Stmt.every_forEach.mp h
          refine ⟨Stmt.everyIn_nil, Stmt.every_forEach.mpr ⟨?_, prepend_every hq ?_ hloop.2⟩,
            reportsOf_every hq items⟩
          · refine hq.alike (s := .forEach type ident items body) rfl (fun hb => ?_) hloop.1
            simp only [returnsBare, Stmt.bodies, List.any_cons, List.any_nil, Bool.or_false] at hb ⊢
            exact isValueReturn_prepend hb
          · exact reports_every hq fun write hwrite => by
              obtain rfl := List.mem_singleton.mp hwrite
              rfl
      | labeled label body =>
          have hlabel := Stmt.every_labeled.mp h
          by_cases hdo : ∃ inner cond, body = .doWhile inner cond
          · rcases hdo with ⟨inner, cond, rfl⟩
            rw [place_labeled_doWhile] at hn ⊢
            have hloop := placeDoWhile_every hq (some label) hlabel.2 n hn
            refine .alone (Stmt.every_labeled.mpr ⟨?_, hloop⟩)
            refine hq.alike (s := .labeled label (.doWhile inner cond)) rfl (fun hb => ?_) hlabel.1
            exact absurd hb (by
              simp [returnsBare, Stmt.bodies,
                isValueReturn_of_not_simple (isSimple_placeDoWhile _ _ _ _)])
          · have hplace : ∀ inner cond, body ≠ .doWhile inner cond :=
              fun inner cond hb => hdo ⟨inner, cond, hb⟩
            rw [place_labeled hplace] at hn ⊢
            have hbody := ih body (List.mem_singleton.mpr rfl) n hlabel.2 hn
            refine ⟨hbody.before, Stmt.every_labeled.mpr ⟨?_, hbody.stmt⟩, hbody.after⟩
            refine hq.alike (s := .labeled label body) rfl (fun hb => ?_) hlabel.1
            simpa [returnsBare, Stmt.bodies, isValueReturn_place] using hb
      | switch selector cases => exact ⟨Stmt.everyIn_nil, h, reportsOf_every hq selector⟩
      | sync lock body =>
          have hsync := Stmt.every_sync.mp h
          refine .alone (Stmt.every_sync.mpr
            ⟨?_, Stmt.everyIn_append.mpr ⟨reportsOf_every hq lock, hsync.2⟩⟩)
          exact hq.alike (s := .sync lock body) rfl (fun hb => hb) hsync.1
      | block _ | breakTo _ | continueTo _ | ret _ | raise _ | tryCatch _ _ _ | unmodelled _ =>
          exact .alone h

omit hq in
theorem le_placeInList (stmts : List Stmt) (n : Nat) :
    n ≤ (placeInList hooks id stmts n).2 :=
  (mapM_naming stmts n fun s _ k => le_place s k).1

theorem placeInList_every (stmts : List Stmt) (n : Nat)
    (hn : (placeInList hooks id stmts n).2 ≤ bound) (h : Stmt.EveryIn q stmts) :
    Stmt.EveryIn q (placeInList hooks id stmts n).1 := by
  intro s hs
  rcases List.mem_flatMap.mp hs with ⟨placed, hplaced, hs⟩
  rcases (mapM_naming stmts n fun s _ k => le_place s k).2 placed hplaced with ⟨t, ht, k, hk, rfl⟩
  exact (place_every hq t k (h t ht) (Nat.le_trans hk hn)).everyIn hq.block s hs

theorem placeNested_every {s : Stmt} (h : s.Every q) (n : Nat)
    (hn : (Stmt.transformNested (placeInList hooks id) s n).2 ≤ bound) :
    (Stmt.transformNested (placeInList hooks id) s n).1.Every q :=
  transformNested_every le_placeInList (fun s n hs => hq.transformNested _ s n hs)
    (placeInList_every hq) h n hn

theorem reportChanges_every {body : List Stmt} (h : Stmt.EveryIn q body) (n : Nat)
    (hn : (reportChanges hooks id body n).2 ≤ bound) :
    Stmt.EveryIn q (reportChanges hooks id body n).1 :=
  transformLists_every le_placeInList (fun s n hs => hq.transformNested _ s n hs)
    (placeInList_every hq) h n hn

end

/-! ## Returned values -/

theorem le_extractReturn (keep : Expr → Bool) (type : TypeName) (s : Stmt) (n : Nat) :
    n ≤ (extractReturn keep type s n).2 := by
  unfold extractReturn
  split
  · split
    · exact Nat.le_refl n
    · exact Nat.le_succ n
  · exact Nat.le_refl n

theorem le_extractReturnsInList (keep : Expr → Bool) (type : TypeName) (stmts : List Stmt)
    (n : Nat) : n ≤ (extractReturnsInList keep type stmts n).2 :=
  (mapM_naming stmts n fun s _ k => le_extractReturn keep type s k).1

/-- A condition that holds of a `return` holds of the variable that takes its value. -/
structure Extractable (keep : Expr → Bool) (q : Stmt → Prop) : Prop where
  nested : ∀ (type : TypeName) (s : Stmt) (n : Nat), q s →
    q (Stmt.transformNested (extractReturnsInList keep type) s n).1
  declare : ∀ {value : Expr}, q (.retValue value) → ∀ type ident, q (.declare type ident value)
  name : ∀ ident, q (.retValue (.name ident))

section

variable {keep : Expr → Bool} {q : Stmt → Prop} (hq : Extractable keep q)

include hq

theorem extractReturn_every {type : TypeName} {s : Stmt} (h : s.Every q)
    (n : Nat) : Stmt.EveryIn q (extractReturn keep type s n).1 := by
  unfold extractReturn
  split
  · rename_i value
    split
    · exact Stmt.everyIn_singleton.mpr h
    · refine Stmt.everyIn_cons.mpr ⟨?_, Stmt.everyIn_singleton.mpr ?_⟩
      · exact (Stmt.every_leaf rfl).mpr (hq.declare h.here _ _)
      · exact (Stmt.every_leaf rfl).mpr (hq.name _)
  · exact Stmt.everyIn_singleton.mpr h

theorem extractReturnsInList_every {type : TypeName} (stmts : List Stmt) (n : Nat)
    (h : Stmt.EveryIn q stmts) : Stmt.EveryIn q (extractReturnsInList keep type stmts n).1 := by
  intro s hs
  rcases List.mem_flatten.mp hs with ⟨list, hlist, hs⟩
  rcases (mapM_naming stmts n fun s _ k => le_extractReturn keep type s k).2 list hlist with
    ⟨t, ht, k, _, rfl⟩
  exact extractReturn_every hq (h t ht) k s hs

theorem extractNested_every {type : TypeName} {s : Stmt} (h : s.Every q) (n : Nat) :
    (Stmt.transformNested (extractReturnsInList keep type) s n).1.Every q :=
  transformNested_every (le_extractReturnsInList keep type) (hq.nested _)
    (fun stmts k _ => extractReturnsInList_every hq stmts k) h n (Nat.le_refl _)

theorem extractReturns_every {type : TypeName} {body : List Stmt}
    (h : Stmt.EveryIn q body) (n : Nat) :
    Stmt.EveryIn q (transformLists (extractReturnsInList keep type) body n).1 :=
  transformLists_every (le_extractReturnsInList keep type) (hq.nested _)
    (fun stmts k _ => extractReturnsInList_every hq stmts k) h n (Nat.le_refl _)

theorem extracted_every {decl : MethodDecl} {body : List Stmt}
    (h : Stmt.EveryIn q body) (n : Nat) : Stmt.EveryIn q (extracted keep decl body n).1 := by
  rcases extracted_cases keep decl with hpure | ⟨type, hmoved⟩
  · rw [hpure]
    exact h
  · rw [hmoved]
    exact extractReturns_every hq h n

end

theorem every_reportReturns {hooks : Hooks} {id : String} {q : Stmt → Prop}
    (hnested : ∀ (f : List Stmt → Naming (List Stmt)) (s : Stmt) (n : Nat), q s →
      q (Stmt.transformNested f s n).1)
    (hreport : ∀ s : Stmt, s.Every q → Stmt.EveryIn q (reportReturn hooks id s))
    {body : List Stmt} (h : Stmt.EveryIn q body) :
    Stmt.EveryIn q (reportReturns hooks id body) := by
  have hevery := transformLists_every
    (f := fun stmts => (pure (stmts.flatMap (reportReturn hooks id)) : Naming (List Stmt)))
    (fun _ n => Nat.le_refl n) (hnested _)
    (fun stmts _ _ hstmts s hs => by
      rcases List.mem_flatMap.mp hs with ⟨t, ht, hs⟩
      exact hreport t (hstmts t ht) s hs) h 0 (Nat.le_refl _)
  rw [transformLists_pure] at hevery
  exact hevery

/-! ## Conditions on expressions -/

/-- A condition on expressions that holds of everything that a weaver adds to a method. -/
structure Weavable (w : Weaver) (id : String) (q : Expr → Prop) : Prop where
  not : ∀ {e : Expr}, q e → q (.unary .not e)
  bool : ∀ b : Bool, q (.bool b)
  name : ∀ ident : String, q (.name ident)
  changed : w.settings.traceChanges = true → ∀ (path : String) {target : Expr},
    isStablePath target = true → q (w.hooks.changedCall id path target)
  returning : w.settings.traceReturns = true → ∀ {e : Expr}, q e →
    q (w.hooks.call "returning" [.text id, e])

theorem holdsHere_of_head {q : Expr → Prop} {s t : Stmt} (hhead : t.head = s.head)
    (h : HoldsHere q s) : HoldsHere q t := by
  unfold Stmt.HoldsHere
  rw [Stmt.ownExprs_of_head hhead]
  exact h

theorem extractable_holdsHere {q : Expr → Prop} (hname : ∀ ident : String, q (.name ident))
    (keep : Expr → Bool) : Extractable keep (HoldsHere q) where
  nested _ s n h := holdsHere_of_head (head_transformNested s n) h
  declare h _ _ e he := by
    obtain rfl := List.mem_singleton.mp he
    exact h _ (List.mem_singleton.mpr rfl)
  name _ e he := by
    obtain rfl := List.mem_singleton.mp he
    exact hname _

section

variable {w : Weaver} {id : String} {q : Expr → Prop} (hw : Weavable w id q)

include hw

theorem Weavable.placeable (hon : w.settings.traceChanges = true) (bound : Nat) :
    Placeable w.hooks id bound (HoldsHere q) where
  alike hhead _ h := holdsHere_of_head hhead h
  block _ _ he := absurd he List.not_mem_nil
  changed path target ht e he := by
    obtain rfl := List.mem_singleton.mp he
    exact hw.changed hon path ht
  test hs hc _ e he := by
    obtain rfl := List.mem_singleton.mp he
    exact hw.not (hs _ hc)
  forever _ e he := by
    obtain rfl := List.mem_singleton.mp he
    exact hw.bool true
  leave _ he := absurd he List.not_mem_nil
  iteration _ _ _ _ he := absurd he List.not_mem_nil
  next _ _ _ he := absurd he List.not_mem_nil
  start h e he := by
    obtain rfl := List.mem_singleton.mp he
    exact h _ (by simp [Stmt.ownExprs, ForInit.operands])
  forLoop h hown _ e he := by
    rcases hown e he with he | ⟨path, target, ht, rfl⟩
    · exact h e he
    · exact hw.changed hon path ht

theorem Weavable.extractable (keep : Expr → Bool) : Extractable keep (HoldsHere q) :=
  extractable_holdsHere hw.name keep

theorem reportReturn_every (hon : w.settings.traceReturns = true) {s : Stmt}
    (h : s.Every (HoldsHere q)) : Stmt.EveryIn (HoldsHere q) (reportReturn w.hooks id s) := by
  unfold reportReturn
  split
  · rename_i value
    have hvalue : q value := (Stmt.every_leaf rfl).mp h value (List.mem_singleton.mpr rfl)
    refine Stmt.everyIn_cons.mpr ⟨?_, Stmt.everyIn_singleton.mpr h⟩
    refine (Stmt.every_leaf rfl).mpr fun e he => ?_
    obtain rfl := List.mem_singleton.mp he
    exact hw.returning hon hvalue
  · exact Stmt.everyIn_singleton.mpr h

theorem reportReturns_every (hon : w.settings.traceReturns = true) {body : List Stmt}
    (h : Stmt.EveryIn (HoldsHere q) body) :
    Stmt.EveryIn (HoldsHere q) (reportReturns w.hooks id body) :=
  every_reportReturns (fun _ s n hs => holdsHere_of_head (head_transformNested s n) hs)
    (fun _ hs => reportReturn_every hw hon hs) h

end

end Weave
end TraceWeaving
