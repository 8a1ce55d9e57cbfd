import TraceWeaving.Proofs.Eval.Scopes
import TraceWeaving.Proofs.Weave.Effect

/-!
# Tracing without weaving

The run that woven code is measured against.  A tracer executes a body as it stands and
records the values of written places itself: after a statement that ended normally, after
a condition whichever way it goes, after a lock, after the whole start and the whole
update of a `for` loop, and for the variable of a for-each loop at the start of each
iteration.  Labels belong to the statement they stand on.

Expressions are left to a given evaluator.  So is the value that a `return` hands over,
since returned values may be reported as well.
-/

namespace TraceWeaving
namespace Eval

open Code
open Code.Stmt (HoldsHere)
open Weave (Write writesIn)

/-! ## Reports of writes -/

def reportWrites (r : Evaluator) (id : String) : List Write → Action Unit
  | [] => return ()
  | w :: rest => do
      let value ← r.eval w.target
      let copy ← value.snapshot
      Action.record id (.changed w.path copy)
      reportWrites r id rest

/-- What is done about writes. -/
structure Watch where
  report : List Write → Action Unit
  /-- The operation that the fault of a loop's test names. -/
  testName : String → Expr → String

namespace Watch

/-- Writes are recorded.  A test that writes is made by a negation. -/
def reporting (r : Evaluator) (id : String) : Watch where
  report := reportWrites r id
  testName operation cond := if (writesIn cond).isEmpty then operation else "!"

def idle : Watch where
  report _ := pure ()
  testName operation _ := operation

end Watch

section

variable (r : Evaluator) (watch : Watch)

def reportAfter (writes : List Write) (x : Action Flow) : Action Flow :=
  x >>= ifNormal (watch.report writes >>= fun _ => pure .normal)

def tracedTest (operation : String) (cond : Expr) : Action Bool := do
  let holds ← r.evalBool cond operation
  watch.report (writesIn cond)
  return holds

def tracedForTest : Option Expr → Action Bool
  | some cond => tracedTest r watch (watch.testName "for" cond) cond
  | none => return true

/-! ## Loops -/

def tracedRound (label : Option String) (loop : Loop) (goOn : Action Flow) : Action Flow :=
  match loop with
  | .whileLoop cond body => do
      if ← tracedTest r watch (watch.testName "while" cond) cond then afterBody r label body goOn
      else return .normal
  | .doWhile body cond =>
      afterBody r label body do
        if ← tracedTest r watch (watch.testName "do-while" cond) cond then goOn
        else return .normal
  | .forLoop cond update body => do
      if ← tracedForTest r watch cond then
        afterBody r label body do
          r.evalEach update
          watch.report (update.flatMap writesIn)
          goOn
      else return .normal

def initWrites : ForInit → List Write
  | .exprs es => es.flatMap writesIn
  | .decl _ ident init => writesIn init ++ [.ofVariable ident]

def Evaluator.preceded (r : Evaluator) (x : Action Unit) : Evaluator :=
  { r with exec := fun s => x >>= fun _ => r.exec s }

def tracedLoop (label : Option String) : Stmt → Action Flow
  | .forLoop init cond update body =>
      .inScope do
        execForInit r init
        watch.report (initWrites init)
        r.iterate label (.forLoop cond update body)
  | .forEach _ ident items body =>
      execForEach (r.preceded (watch.report [.ofVariable ident])) label ident items body
  | s => execLoop r label s

/-! ## Statements -/

/-- What a label that no loop takes does to the end of its statement. -/
def Flow.leaveLabel (label : String) : Flow → Flow
  | .broke (some target) => if target = label then .normal else .broke (some target)
  | flow => flow

/-- The writes that are reported once a statement ended normally. -/
def endWrites : Stmt → List Write
  | .expr e => writesIn e
  | .decl _ ident (some init) => writesIn init ++ [.ofVariable ident]
  | .switch selector _ => writesIn selector
  | .forEach _ _ items _ => writesIn items
  | .labeled _ body => endWrites body
  | _ => []

variable (returnBy : Expr → Action Value)

/-- Executes a statement with the reports that it makes before its end. -/
def tracedCore : Stmt → Action Flow
  | .ifElse cond ifTrue ifFalse => do
      if ← tracedTest r watch "if" cond then r.exec ifTrue
      else
        match ifFalse with
        | some s => r.exec s
        | none => return .normal
  | .sync lock body => do
      let _ ← r.eval lock
      watch.report (writesIn lock)
      r.execBlock body
  | .labeled label body =>
      if body.isLoop then tracedLoop r watch (some label) body
      else tracedCore body >>= fun flow => pure (flow.leaveLabel label)
  | .ret (some value) => returnBy value >>= fun value => pure (.returned value)
  | s => if s.isLoop then tracedLoop r watch none s else execStep r s

def tracedStep (s : Stmt) : Action Flow :=
  reportAfter watch (endWrites s) (tracedCore r watch returnBy s)

/-- Executes a statement without reports, but for those of returned values. -/
def plainStep (s : Stmt) : Action Flow :=
  match s with
  | .ret (some value) => returnBy value >>= fun value => pure (.returned value)
  | s => execStep r s

end

/-! ## Properties that tracing keeps -/

namespace ClosedHere

variable {ι : Type} {P : ∀ {α : Type}, (ι → Action α) → Prop} (h : ClosedHere P)
variable {r : ι → Evaluator}

include h

theorem reportWrites (he : ∀ e, P fun i => (r i).eval e)
    (hrecord : ∀ id report, P fun _ => Action.record id report) (id : String)
    (writes : List Write) : P fun i => reportWrites (r i) id writes := by
  induction writes with
  | nil => exact h.pure ()
  | cons w rest ih =>
      exact h.bind (he w.target) fun value => h.bind (h.snapshot value) fun copy =>
        h.bind (hrecord id _) fun _ => ih

variable {watch : Watch} (hreport : ∀ writes, P fun _ => watch.report writes)

include hreport

theorem tracedTest {cond : Expr} (he : P fun i => (r i).eval cond) (operation : String) :
    P fun i => tracedTest (r i) watch operation cond :=
  h.bind (h.evalBool he operation) fun _ => h.bind (hreport _) fun _ => h.pure _

theorem tracedForTest {cond : Option Expr} (he : ∀ e ∈ cond, P fun i => (r i).eval e) :
    P fun i => tracedForTest (r i) watch cond := by
  cases cond with
  | none => exact h.pure true
  | some cond => exact h.tracedTest hreport (he cond rfl) _

theorem tracedRound (label : Option String) {loop : Loop}
    (he : ∀ e ∈ loop.exprs, P fun i => (r i).eval e) (hx : P fun i => (r i).exec loop.body)
    {g : ι → Action Flow} (hg : P g) :
    P fun i => tracedRound (r i) watch label loop (g i) := by
  cases loop with
  | whileLoop cond body =>
      have hcond : P fun i => (r i).eval cond := he cond (List.mem_singleton_self cond)
      refine h.bind (h.tracedTest hreport hcond _) fun holds => ?_
      cases holds with
      | false => exact h.pure _
      | true => exact h.afterBody hx hg
  | doWhile body cond =>
      have hcond : P fun i => (r i).eval cond := he cond (List.mem_singleton_self cond)
      refine h.afterBody hx (h.bind (h.tracedTest hreport hcond _) fun holds => ?_)
      cases holds with
      | false => exact h.pure _
      | true => exact hg
  | forLoop cond update body =>
      have hcond : ∀ e ∈ cond, P fun i => (r i).eval e := fun e hm =>
        he e (List.mem_append_left _ (Option.mem_toList.mpr hm))
      have hupdate : ∀ e ∈ update, P fun i => (r i).eval e := fun e hm =>
        he e (List.mem_append_right _ hm)
      refine h.bind (h.tracedForTest hreport hcond) fun holds => ?_
      cases holds with
      | false => exact h.pure _
      | true =>
          exact h.afterBody hx (h.bind (h.evalEach hupdate) fun _ =>
            h.bind (hreport _) fun _ => hg)

end ClosedHere

/-- What a property needs of an evaluator for code with expressions of a kind. -/
structure Evaluator.HasOn {ι : Type} (P : ∀ {α : Type}, (ι → Action α) → Prop)
    (q : Expr → Prop) (r : ι → Evaluator) : Prop where
  eval : ∀ e, q e → P fun i => (r i).eval e
  exec : ∀ s : Stmt, s.Every (HoldsHere q) → P fun i => (r i).exec s
  iterate : ∀ (label : Option String) (loop : Loop), (∀ e ∈ loop.exprs, q e) →
    loop.body.Every (HoldsHere q) → P fun i => (r i).iterate label loop

theorem Evaluator.Has.on {ι : Type} {P : ∀ {α : Type}, (ι → Action α) → Prop}
    {r : ι → Evaluator} (hr : Evaluator.Has P r) (q : Expr → Prop) : Evaluator.HasOn P q r :=
  ⟨fun e _ => hr.eval e, fun s _ => hr.exec s, fun label loop _ _ => hr.iterate label loop⟩

namespace ClosedStmtHere

variable {ι : Type} {P : ∀ {α : Type}, (ι → Action α) → Prop} (h : ClosedStmtHere P)
variable {r : ι → Evaluator}

include h

theorem plainStep_of_has (hr : Evaluator.Has P r) {returnBy : Expr → Action Value}
    (hret : ∀ e, P fun _ => returnBy e) (s : Stmt) : P fun i => plainStep (r i) returnBy s := by
  have hstep : P fun i => Eval.execStep (r i) s :=
    h.execStep (fun e _ => hr.eval e) (fun t _ => hr.exec t) fun loop _ l => hr.iterate l loop
  cases s with
  | ret value =>
      cases value with
      | none => exact hstep
      | some value => exact h.bind (hret value) fun _ => h.pure _
  | block _ | decl _ _ _ | expr _ | ifElse _ _ _ | whileLoop _ _ | doWhile _ _
  | forLoop _ _ _ _ | forEach _ _ _ _ | labeled _ _ | switch _ _ | breakTo _ | continueTo _
  | raise _ | tryCatch _ _ _ | sync _ _ | unmodelled _ => exact hstep

variable {q : Expr → Prop} (hr : Evaluator.HasOn P q r)
variable {watch : Watch} (hreport : ∀ writes, P fun _ => watch.report writes)

include hr hreport

theorem tracedLoop (label : Option String) {s : Stmt} (hs : s.isLoop = true)
    (hq : s.Every (HoldsHere q)) : P fun i => tracedLoop (r i) watch label s := by
  have hloop : P fun i => Eval.execLoop (r i) label s :=
    h.execLoop hs (fun e he => hr.eval e (hq.here e (s.headerExprs_subset he)))
      (fun t ht => hr.exec t (hq.child (s.ownBodies_subset ht)))
      fun loop hl => hr.iterate label loop (hq.ofLoop hl).1 (hq.ofLoop hl).2
  cases s with
  | forLoop init cond update body =>
      have hiterate : (∀ e ∈ (Loop.forLoop cond update body).exprs, q e) ∧
        body.Every (HoldsHere q) := hq.ofLoop rfl
      exact h.inScope (h.bind (h.execForInit fun e he => hr.eval e (hq.exprs e he)) fun _ =>
        h.bind (hreport _) fun _ => hr.iterate label _ hiterate.1 hiterate.2)
  | forEach type ident items body =>
      have hbody := hr.exec body (Stmt.every_forEach.mp hq).2
      exact h.execForEach (r := fun i => (r i).preceded (watch.report [.ofVariable ident]))
        (hr.eval items (hq.here items (List.mem_singleton_self items)))
        (h.bind (hreport _) fun _ => hbody)
  | block _ | decl _ _ _ | expr _ | ifElse _ _ _ | whileLoop _ _ | doWhile _ _ | labeled _ _
  | switch _ _ | breakTo _ | continueTo _ | ret _ | raise _ | tryCatch _ _ _ | sync _ _
  | unmodelled _ => exact hloop

variable {returnBy : ι → Expr → Action Value} (hret : ∀ e, q e → P fun i => returnBy i e)

include hret

theorem tracedCore {s : Stmt} (hq : s.Every (HoldsHere q)) :
    P fun i => tracedCore (r i) watch (returnBy i) s := by
  have hplain : ∀ {s : Stmt}, s.Every (HoldsHere q) → P fun i =>
      if s.isLoop then Eval.tracedLoop (r i) watch none s else Eval.execStep (r i) s := by
    intro s hq
    by_cases hs : s.isLoop = true
    · simp only [hs, if_true]
      exact h.tracedLoop hr hreport none hs hq
    · simp only [hs]
      exact h.execStep (fun e he => hr.eval e (hq.exprs e he))
        (fun t ht => hr.exec t (hq.stmts t ht))
        fun loop hl l => hr.iterate l loop (hq.startedLoop hl).1 (hq.startedLoop hl).2
  induction s using Stmt.childInduction with
  | step s ih =>
      cases s with
      | ifElse cond ifTrue ifFalse =>
          have hcond := hr.eval cond (hq.here cond (List.mem_singleton_self cond))
          refine h.bind (h.tracedTest hreport hcond _) fun holds => ?_
          cases holds with
          | true => exact hr.exec ifTrue (hq.child List.mem_cons_self)
          | false =>
              cases ifFalse with
              | none => exact h.pure _
              | some s =>
                  exact hr.exec s (hq.child (List.mem_cons_of_mem _ (List.mem_singleton_self s)))
      | sync lock body =>
          have hlock := hr.eval lock (hq.here lock (List.mem_singleton_self lock))
          exact h.bind hlock fun _ => h.bind (hreport _) fun _ =>
            h.execBlock fun t ht => hr.exec t (hq.child ht)
      | labeled label body =>
          have hbody := (Stmt.every_labeled.mp hq).2
          simp only [Eval.tracedCore]
          by_cases hb : body.isLoop = true
          · simp only [hb, if_true]
            exact h.tracedLoop hr hreport (some label) hb hbody
          · simp only [hb]
            exact h.bind (ih body (List.mem_singleton_self body) hbody) fun _ => h.pure _
      | ret value =>
          cases value with
          | none => exact hplain hq
          | some value =>
              have hvalue := hret value (hq.here value (List.mem_singleton_self value))
              exact h.bind hvalue fun _ => h.pure _
      | block _ | decl _ _ _ | expr _ | whileLoop _ _ | doWhile _ _ | forLoop _ _ _ _
      | forEach _ _ _ _ | switch _ _ | breakTo _ | continueTo _ | raise _ | tryCatch _ _ _
      | unmodelled _ => exact hplain hq

theorem tracedStep {s : Stmt} (hq : s.Every (HoldsHere q)) :
    P fun i => tracedStep (r i) watch (returnBy i) s := by
  refine h.bind (h.tracedCore hr hreport hret hq) fun flow => ?_
  cases flow with
  | normal => exact h.bind (hreport _) fun _ => h.pure _
  | returned _ | broke _ | continued _ => exact h.pure _

end ClosedStmtHere

theorem every_true (s : Stmt) : s.Every (HoldsHere fun _ => True) :=
  fun _ _ _ _ => trivial

/-! ## Rules -/

def plainRules (E : Evaluator) (returnBy : Expr → Action Value) : Rules where
  eval _ := E.eval
  exec r := plainStep r returnBy
  round := loopRound

def tracedRules (E : Evaluator) (watch : Watch) (returnBy : Expr → Action Value) : Rules where
  eval _ := E.eval
  exec r := tracedStep r watch returnBy
  round r := tracedRound r watch

section

variable (E : Evaluator) (watch : Watch) (id : String) (returnBy : Expr → Action Value)

theorem regular_plainRules : (plainRules E returnBy).Regular where
  eval _ hconst _ _ _ := hconst _
  exec h hconst _ hr s := h.plainStep_of_has hr (fun _ => hconst _) s
  round h _ _ hr _ loop _ hg :=
    h.loopRound (fun e _ => hr.eval e) (hr.exec loop.body) hg

theorem regular_tracedRules : (tracedRules E watch returnBy).Regular where
  eval _ hconst _ _ _ := hconst _
  exec {ι P} h hconst _ hr s := by
    have hret : ∀ e, True → P fun _ => returnBy e := fun e _ => hconst (returnBy e)
    exact h.tracedStep (hr.on fun _ => True) (fun _ => hconst _) hret (every_true s)
  round h hconst _ hr label loop _ hg :=
    h.tracedRound (fun _ => hconst _) label (fun e _ => hr.eval e) (hr.exec loop.body) hg

noncomputable def plain : Evaluator :=
  (plainRules E returnBy).meaning

noncomputable def tracer : Evaluator :=
  (tracedRules E (.reporting E id) returnBy).meaning

theorem eval_plain : (plain E returnBy).eval = E.eval :=
  funext fun e => (regular_plainRules E returnBy).eval_meaning e

theorem exec_plain (s : Stmt) :
    (plain E returnBy).exec s = plainStep (plain E returnBy) returnBy s :=
  (regular_plainRules E returnBy).exec_meaning s

theorem iterate_plain (label : Option String) (loop : Loop) :
    (plain E returnBy).iterate label loop =
      loopRound (plain E returnBy) label loop ((plain E returnBy).iterate label loop) :=
  (regular_plainRules E returnBy).iterate_meaning label loop

theorem eval_tracer : (tracer E id returnBy).eval = E.eval :=
  funext fun e => (regular_tracedRules E (.reporting E id) returnBy).eval_meaning e

theorem exec_tracer (s : Stmt) :
    (tracer E id returnBy).exec s =
      tracedStep (tracer E id returnBy) (.reporting E id) returnBy s :=
  (regular_tracedRules E (.reporting E id) returnBy).exec_meaning s

end

/-! ## Runs of a tracer -/

section

variable {ι : Type} {P : ∀ {α : Type}, (ι → Action α) → Prop} (h : ClosedStmtHere P)
variable (hlimit : ∀ {α : Type} {x : Nat → ι → Action α} {y : ι → Action α}, (∀ n, P (x n)) →
  (∀ i, Tends (withLimit (fun n => x n i) (y i))) → P y)
variable {E : ι → Evaluator} {watch : Watch} {returnBy : ι → Expr → Action Value}
variable {q : Expr → Prop} (heval : ∀ e, q e → P fun i => (E i).eval e)
variable (hreport : ∀ writes, P fun _ => watch.report writes)
variable (hret : ∀ e, q e → P fun i => returnBy i e)

include h heval hreport hret

theorem ClosedStmtHere.hasOn_traced (n : Nat) :
    Evaluator.HasOn P q fun i => (tracedRules (E i) watch (returnBy i)).within n := by
  induction n with
  | zero => exact ⟨fun _ _ => h.exhausted, fun _ _ => h.exhausted, fun _ _ _ _ => h.exhausted⟩
  | succ n ih =>
      exact ⟨heval, fun s hq => h.tracedStep ih hreport hret hq, fun label loop hexprs hbody =>
        h.tracedRound hreport label (fun e he => ih.eval e (hexprs e he)) (ih.exec _ hbody)
          (ih.iterate label loop hexprs hbody)⟩

include hlimit

/-- A property that expressions of some kind, their `return` statements and the reports have
is one of all code with such expressions. -/
theorem ClosedStmtHere.exec_traced {s : Stmt} (hs : s.Every (HoldsHere q)) :
    P fun i => (tracedRules (E i) watch (returnBy i)).meaning.exec s :=
  hlimit (fun n => (h.hasOn_traced heval hreport hret n).exec s hs) fun i =>
    (regular_tracedRules (E i) watch (returnBy i)).tends_exec s

theorem ClosedStmtHere.execAll_traced {stmts : List Stmt}
    (hs : Stmt.EveryIn (HoldsHere q) stmts) :
    P fun i => (tracedRules (E i) watch (returnBy i)).meaning.execAll stmts :=
  h.execAll fun s hm => h.exec_traced hlimit heval hreport hret (hs s hm)

end

/-! ## The end of an iteration -/

def LoopStep.proceed (goOn : Action Flow) : LoopStep → Action Flow
  | .next => goOn
  | .stop => pure .normal
  | .leave flow => pure flow

theorem afterBody_eq (r : Evaluator) (label : Option String) (body : Stmt)
    (goOn : Action Flow) :
    afterBody r label body goOn =
      r.exec body >>= fun flow => (LoopStep.ofFlow label flow).proceed goOn :=
  rfl

theorem execForItems_cons (r : Evaluator) (label : Option String) (ident : String)
    (body : Stmt) (item : Value) (rest : List Value) :
    execForItems r label ident body (item :: rest) =
      Action.inScope (Action.modify (fun s => s.declare ident item) >>= fun _ => r.exec body) >>=
        fun flow => (LoopStep.ofFlow label flow).proceed
          (execForItems r label ident body rest) :=
  rfl

/-! ## Evaluators with the same expressions -/

section

variable {r r' : Evaluator} (h : r.eval = r'.eval)

include h

theorem evalBool_congr (e : Expr) (operation : String) :
    r.evalBool e operation = r'.evalBool e operation := by
  unfold Evaluator.evalBool
  rw [h]

theorem evalEach_congr (es : List Expr) : r.evalEach es = r'.evalEach es := by
  induction es with
  | nil => rfl
  | cons e es ih =>
      unfold Evaluator.evalEach
      rw [h, ih]

theorem execForInit_congr (init : ForInit) : execForInit r init = execForInit r' init := by
  cases init with
  | exprs es => exact evalEach_congr h es
  | decl type ident init =>
      unfold execForInit
      rw [h]

omit h in
theorem execForItems_congr (label : Option String) (ident : String) {body body' : Stmt}
    (hb : r.exec body = r'.exec body') (items : List Value) :
    execForItems r label ident body items = execForItems r' label ident body' items := by
  induction items with
  | nil => rfl
  | cons item items ih =>
      unfold execForItems
      rw [hb, ih]

theorem execForEach_congr (label : Option String) (ident : String) (items : Expr)
    {body body' : Stmt} (hb : r.exec body = r'.exec body') :
    execForEach r label ident items body = execForEach r' label ident items body' := by
  unfold execForEach
  rw [h]
  congr 1
  funext value
  cases value with
  | array address =>
      simp only [execForItems_congr label ident hb]
  | null | int _ | bool _ | str _ | object _ | throwable _ => rfl

end

theorem afterBody_congr {r r' : Evaluator} {body body' : Stmt} (h : r.exec body = r'.exec body')
    (label : Option String) (goOn : Action Flow) :
    afterBody r label body goOn = afterBody r' label body' goOn := by
  unfold afterBody
  rw [h]

/-! ## Evaluators that report -/

/-- An evaluator whose expressions include the reports of a method, the truth values and
negations, and do not see empty scopes. -/
structure Reporting (hooks : Hooks) (id : String) (E : Evaluator) : Prop where
  changed : ∀ path target, E.eval (hooks.changedCall id path target) = (do
    let value ← E.eval target
    let copy ← value.snapshot
    Action.record id (.changed path copy)
    return .null)
  bool : ∀ b, E.eval (.bool b) = pure (.bool b)
  not : ∀ e, E.eval (.unary .not e) = E.evalBool e "!" >>= fun b => pure (.bool !b)
  passes : ∀ e, PassesFrom 0 (E.eval e)

theorem Hosts.reporting {p : Program} {E : Evaluator} (hE : Hosts p E)
    (hpasses : ∀ e, PassesFrom 0 (E.eval e)) {hooks : Hooks}
    (hp : p.runtimeClass = hooks.runtimeClass) (id : String) : Reporting hooks id E where
  changed path target := by
    unfold Hooks.changedCall
    rw [hE.eval_hook hp, evalHook_of_ne E (by decide)]
    simp only [Evaluator.evalAll_cons, Evaluator.evalAll_nil, hE.eval_text, bind_assoc, pure_bind]
    congr 1
    funext value
    rw [callHook_str]
    show (((Value.str path).snapshot >>= fun copy => pure copy.text) >>= fun path =>
      value.snapshot >>= fun copy => pure (Trace.Report.changed path copy)) >>= _ = _
    rw [snapshot_str]
    simp only [bind_assoc, pure_bind]
    rfl
  bool b := hE.eval (.bool b) rfl
  not e := hE.eval (.unary .not e) rfl
  passes := hpasses

section

variable {hooks : Hooks} {id : String} {E : Evaluator} (hE : Reporting hooks id E)

include hE

theorem Reporting.evalBool_not (e : Expr) (operation : String) :
    E.evalBool (.unary .not e) operation = E.evalBool e "!" >>= fun b => pure (!b) := by
  show E.eval (.unary .not e) >>= _ = _
  rw [hE.not, bind_assoc]
  rfl

theorem Reporting.passes_reportWrites (writes : List Write) :
    PassesFrom 0 (reportWrites E id writes) := by
  have hrecord : ∀ id report, PassesFrom 0 (Action.record id report) :=
    fun _ _ _ _ _ => .modify fun _ => ⟨_, _, _, rfl, fun _ _ => rfl⟩
  exact (closed_passes 0).reportWrites (r := fun _ => E) hE.passes hrecord id writes

theorem Reporting.evalEach_reportCalls (writes : List Write) :
    E.evalEach (Weave.reportCalls hooks id writes) = reportWrites E id writes := by
  induction writes with
  | nil => rfl
  | cons w rest ih =>
      show E.eval (hooks.changedCall id w.path w.target) >>=
        (fun _ => E.evalEach (Weave.reportCalls hooks id rest)) = _
      rw [hE.changed, ih]
      simp only [bind_assoc, pure_bind]
      rfl

omit hE in
theorem evalEach_append (r : Evaluator) (es es' : List Expr) :
    r.evalEach (es ++ es') = r.evalEach es >>= fun _ => r.evalEach es' := by
  induction es with
  | nil => rfl
  | cons e es ih =>
      show r.eval e >>= (fun _ => r.evalEach (es ++ es')) =
        (r.eval e >>= fun _ => r.evalEach es) >>= _
      rw [ih, bind_assoc]

omit hE in
theorem reportWrites_append (r : Evaluator) (writes writes' : List Write) :
    reportWrites r id (writes ++ writes') =
      reportWrites r id writes >>= fun _ => reportWrites r id writes' := by
  induction writes with
  | nil => rfl
  | cons w writes ih =>
      simp only [List.cons_append, reportWrites, ih, bind_assoc]

theorem Reporting.execAll_reports (returnBy : Expr → Action Value) (writes : List Write) :
    (plain E returnBy).execAll (Weave.reports hooks id writes) =
      reportWrites E id writes >>= fun _ => pure .normal := by
  induction writes with
  | nil => rfl
  | cons w rest ih =>
      show (plain E returnBy).execAll
        (hooks.changed id w.path w.target :: Weave.reports hooks id rest) = _
      rw [Evaluator.execAll_cons, exec_plain, ih]
      show ((plain E returnBy).eval (hooks.changedCall id w.path w.target) >>=
        fun _ => pure Flow.normal) >>= _ = _
      rw [eval_plain, hE.changed]
      simp only [reportWrites, bind_assoc, pure_bind]
      rfl

end

/-! ## Empty scopes -/

theorem passes_plain {E : Evaluator} {returnBy : Expr → Action Value}
    (hE : ∀ e, PassesFrom 0 (E.eval e)) (hret : ∀ e, PassesFrom 0 (returnBy e)) :
    (plain E returnBy).Passes :=
  (regular_plainRules E returnBy).passes_meaning fun r hr =>
    { eval := hE
      exec := fun s => closedStmt_passes.plainStep_of_has (r := fun _ => r)
        ⟨fun e => (hr.eval e).weaken 1, hr.exec, hr.iterate⟩ (fun e => (hret e).weaken 1) s
      iterate := fun label loop => hr.loopRound label loop (hr.iterate label loop) }

theorem passes_iterate_plain {E : Evaluator} {returnBy : Expr → Action Value}
    (hE : ∀ e, PassesFrom 0 (E.eval e)) (label : Option String) {loop : Loop}
    (hbody : PassesFrom 0 ((plain E returnBy).exec loop.body)) :
    PassesFrom 0 ((plain E returnBy).iterate label loop) := by
  have heval : ∀ e, PassesFrom 0 ((plain E returnBy).eval e) := by
    rw [eval_plain]
    exact hE
  refine .limit (fun n => ?_) ((regular_plainRules E returnBy).tends_rounds label loop)
  induction n with
  | zero => exact fun _ _ _ _ _ => ⟨rfl, trivial⟩
  | succ n ih =>
      exact (closed_passes 0).loopRound (r := fun _ => plain E returnBy)
        (g := fun _ => (plainRules E returnBy).rounds (plain E returnBy) label loop n)
        (fun e _ => heval e) hbody ih

/-! ## Execution by the rules -/

section

variable {R : Rules} (hR : R.Regular) (hexec : R.exec = execStep) (hround : R.round = loopRound)

include hR hexec hround

theorem Rules.Regular.plain_below :
    Evaluator.Has (ι := Bool) Below fun larger =>
      if larger then R.meaning else plain R.meaning R.meaning.eval := by
  have hstmt : (fun s => plainStep R.meaning R.meaning.eval s) = R.meaning.exec := by
    funext s
    rw [hR.exec_meaning s, hexec]
    unfold plainStep
    split <;> rfl
  have hloop : (fun label loop => loopRound R.meaning label loop
      (R.meaning.iterate label loop)) = R.meaning.iterate := by
    funext label loop
    rw [← hround]
    exact (hR.iterate_meaning label loop).symm
  apply (regular_plainRules R.meaning R.meaning.eval).meaning_below
  show Evaluator.mk R.meaning.eval (fun s => plainStep R.meaning R.meaning.eval s)
    (fun label loop => loopRound R.meaning label loop (R.meaning.iterate label loop)) = _
  rw [hstmt, hloop]

theorem Rules.Regular.below_plain (n : Nat) :
    Evaluator.Has (ι := Bool) Below fun unbounded =>
      if unbounded then plain R.meaning R.meaning.eval else R.within n := by
  induction n with
  | zero => exact ⟨fun _ _ => .inl rfl, fun _ _ => .inl rfl, fun _ _ _ => .inl rfl⟩
  | succ n ih =>
      refine ⟨fun e st => ?_, fun s st => ?_, fun label loop st => ?_⟩
      · have h := (hR.below_meaning (n + 1)).eval e st
        simp only [if_true, eval_plain] at h ⊢
        exact h
      · have h : Below fun unbounded => execStep _ s :=
          closed_below.execStep (fun e _ => ih.eval e) (fun t _ => ih.exec t)
            fun loop _ label => ih.iterate label loop
        have hsame : execStep (plain R.meaning R.meaning.eval) s =
            (plain R.meaning R.meaning.eval).exec s := by
          rw [exec_plain]
          unfold plainStep
          split
          · show (plain R.meaning R.meaning.eval).eval _ >>= _ = _
            rw [eval_plain]
          · rfl
        have hst := h st
        simp only [if_true, hsame] at hst
        simp only [if_true]
        show R.exec (R.within n) s st = _ ∨ R.exec (R.within n) s st = _
        rw [hexec]
        exact hst
      · have h : Below fun unbounded => loopRound _ label loop _ :=
          closed_below.loopRound (fun e _ => ih.eval e) (ih.exec loop.body) (ih.iterate label loop)
        have hst := h st
        simp only [if_true, ← iterate_plain] at hst ⊢
        show R.round (R.within n) label loop _ st = _ ∨ R.round (R.within n) label loop _ st = _
        rw [hround]
        exact hst

/-- Rules that execute statements in the usual way execute them like this, given their
expressions. -/
theorem Rules.Regular.plain_meaning : plain R.meaning R.meaning.eval = R.meaning := by
  have hbelow := hR.plain_below hexec hround
  have hexec' : (plain R.meaning R.meaning.eval).exec = R.meaning.exec := funext fun s =>
    Within.antisymm (hbelow.exec s)
      (Within.limit (hR.tends_exec s) fun n => (hR.below_plain hexec hround n).exec s)
  have hiterate : (plain R.meaning R.meaning.eval).iterate = R.meaning.iterate :=
    funext fun label => funext fun loop => Within.antisymm (hbelow.iterate label loop)
      (Within.limit (hR.tends_iterate label loop)
        fun n => (hR.below_plain hexec hround n).iterate label loop)
  have heval := eval_plain R.meaning R.meaning.eval
  have h : Evaluator.mk (plain R.meaning R.meaning.eval).eval (plain R.meaning R.meaning.eval).exec
      (plain R.meaning R.meaning.eval).iterate =
        ⟨R.meaning.eval, R.meaning.exec, R.meaning.iterate⟩ := by
    rw [heval, hexec', hiterate]
  exact h

end

end Eval
end TraceWeaving
