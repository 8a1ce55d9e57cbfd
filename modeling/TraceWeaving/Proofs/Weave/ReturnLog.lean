import TraceWeaving.Proofs.Weave.Blocks
import TraceWeaving.Proofs.Weave.Chronicle

/-!
# The log of returned values

The former body of a method is executed once more beside the woven one, and this time
nothing is recorded but the value of every `return` that is executed, right when it is
handed over.  The log that results is what the woven activation reports directly about
returned values.
-/

namespace TraceWeaving
namespace Eval

open Code
open Code.Stmt (HoldsHere)
open Trace (Event Recorder Bracketed directReturns)

/-! ## Words and logs -/

/-- The log holds the returned values that a word reports directly, and nothing if they are
not to be reported. -/
structure Logs (reported : Bool) (w v : List Event) : Prop where
  returns : directReturns w = v
  silent : reported = false → v = []

def LogsWhole (id : String) (reported : Bool) (w v : List Event) : Prop :=
  Bracketed (some id) w ∧ Logs reported w v

theorem chronicle_logs (id : String) (reported : Bool) :
    Chronicle id (LogsWhole id reported) (Logs reported) := by
  have h : Chronicle id (fun w v => Bracketed (some id) w ∧ directReturns w = v)
      fun w v => directReturns w = v := chronicle_direct id fun _ => .inl
  have hnone : ∀ {w : List Event}, Bracketed (some id) w ∧ directReturns w = [] →
      LogsWhole id reported w [] := fun hw => ⟨hw.1, hw.2, fun _ => rfl⟩
  refine
    { nil := hnone h.nil
      append := ?_
      cut := fun h => h.2
      append_cut := ?_
      nested := fun hw => hnone (h.nested hw)
      nested_cut := fun hw => ⟨h.nested_cut hw, fun _ => rfl⟩
      deadline := fun millis => hnone (h.deadline millis)
      failed := fun error => hnone (h.failed error)
      exiting := fun hw hlate => ⟨h.exiting ⟨hw.1, hw.2.returns⟩ hlate, hw.2.silent⟩ }
  · rintro w v w' v' ⟨hw, hreturns, hsilent⟩ ⟨hw', hreturns', hsilent'⟩
    rcases h.append ⟨hw, hreturns⟩ ⟨hw', hreturns'⟩ with ⟨hword, hboth⟩
    exact ⟨hword, hboth, fun hoff => by rw [hsilent hoff, hsilent' hoff]; rfl⟩
  · rintro w v w' v' ⟨hw, hreturns, hsilent⟩ ⟨hreturns', hsilent'⟩
    exact ⟨h.append_cut ⟨hw, hreturns⟩ hreturns', fun hoff => by
      rw [hsilent hoff, hsilent' hoff]; rfl⟩

/-! ## Logging runs -/

noncomputable def Evaluator.logging (E : Evaluator) (id : String) (reported : Bool) : Evaluator :=
  plain E.quiet (returnRule E.quiet id reported)

section

variable {hooks : Hooks} {errors : Bool} {p : Program} (hp : Orderly hooks errors p)
variable {id : String} {reported : Bool}

theorem accompanied_handOver (value : Value) :
    Accompanied Anywhere (LogsWhole id reported) (Logs reported) fun _ =>
      handOver id reported value := by
  have h := (chronicle_logs id reported).closed_accompanied (I := Anywhere)
  cases reported with
  | false => exact h.pure value
  | true =>
      refine h.bind (h.snapshot value) fun copy => h.bind ?_ fun _ => h.pure value
      intro s k hs
      have hword : LogsWhole id true [.returning id copy] [.returning id copy] :=
        ⟨.single rfl rfl, rfl, fun h => nomatch h⟩
      exact ⟨hs, _, _, k.receive id (.returning copy), Recorder.events_receive _ _ _,
        Recorder.events_receive _ _ _, hword, rfl⟩

include hp in
theorem accompanied_execAll {stmts : List Stmt}
    (hs : Stmt.EveryIn (HoldsHere (Expr.Avoids hooks.runtimeClass)) stmts) :
    Accompanied Anywhere (LogsWhole id reported) (Logs reported) fun i =>
      (plain (if i then p.meaning.quiet else p.meaning)
        (returnRule (if i then p.meaning.quiet else p.meaning) id reported)).execAll stmts := by
  have hlog := chronicle_logs id reported
  have h := hlog.closed_accompanied (I := Anywhere)
  have heval : ∀ e, e.Avoids hooks.runtimeClass →
      Accompanied Anywhere (LogsWhole id reported) (Logs reported) fun i =>
        (if i then p.meaning.quiet else p.meaning).eval e :=
    fun e he => hlog.accompanied_eval hp he
  simp only [← tracedRules_idle]
  exact h.execAll_traced Accompanied.limit heval (fun _ => h.pure ())
    (fun e he => h.bind (heval e he) fun value => accompanied_handOver value) hs

end

def Logged (reported : Bool) (before : List Event) (k k' : Recorder) : Prop :=
  ∃ w, k.events = before ++ w ∧ Logs reported w k'.events

/-- A call of a method with a given body that logs the values it returns. -/
noncomputable def loggedCall (E : Evaluator) (id : String) (reported : Bool) (c : ClassDecl)
    (m : MethodDecl) (body : List Stmt) (args : List Value) : Action Value := do
  (prepareCall E c m).quietly
  let flow ← Action.inFrame (callFrame c m args) ((E.logging id reported).execBlock body)
  resultOf flow

theorem execBlock_logging {p : Program} (id : String) (reported : Bool) (front : Option Expr)
    (rest : List Stmt) :
    (p.meaning.logging id reported).execBlock (front.toList.map .expr ++ rest) =
      p.meaning.quiet.evalEach front.toList >>= fun _ =>
        (p.meaning.logging id reported).execBlock rest := by
  have hexprs : (p.meaning.logging id reported).execAll (front.toList.map .expr ++ rest) =
      p.meaning.quiet.evalEach front.toList >>= fun _ =>
        (p.meaning.logging id reported).execAll rest := by
    cases front with
    | none => rfl
    | some e =>
        show (p.meaning.logging id reported).execAll (.expr e :: rest) = _
        unfold Evaluator.logging
        rw [Evaluator.execAll_cons, exec_plain]
        show ((plain p.meaning.quiet (returnRule p.meaning.quiet id reported)).eval e >>= fun _ =>
          Pure.pure Flow.normal) >>= _ = (p.meaning.quiet.eval e >>= fun _ => _) >>= _
        rw [eval_plain]
        simp only [bind_assoc, pure_bind]
        rfl
  have hpasses : PassesFrom 0 (p.meaning.quiet.evalEach front.toList) :=
    (closed_passes 0).evalEach (r := fun _ => p.meaning.quiet) fun e _ =>
      (p.passes_meaning.eval e).quietly
  unfold Evaluator.execBlock
  rw [hexprs, inScope_bind hpasses]

end Eval

namespace Weave

open Code
open Code.Stmt (HoldsHere ScopesHere)
open Eval (Program Evaluator Action State Value Flow Accompanied Anywhere LogsWhole Logs Logged
  Noted returnRule)
open Trace (Event Recorder)

/-- Without reports of value changes, the log of a call holds what its activation reports
directly about returned values. -/
theorem agrees_loggedCall {w : Weaver} (hoff : w.settings.traceChanges = false) {s : Session}
    {p : Program} (hp : Eval.Orderly w.hooks w.settings.traceErrors p) {c : ClassDecl}
    {body : List Stmt} (havoid : Stmt.EveryIn (HoldsHere (Expr.Avoids w.hooks.runtimeClass)) body)
    (hscopes : Stmt.EveryIn ScopesHere body) {args : List Value} {st st' : State}
    (h : Eval.Opened p.meaning w.hooks s.id c s.decl (splitStart s.decl body).1 args st st') :
    (w.observedCall s p.meaning c body args st).Agrees (Logged (w.reportsReturns s) st'.events)
      (Eval.loggedCall p.meaning s.id (w.reportsReturns s) c s.decl body args
        (st.recording .empty)) := by
  have hE := Eval.runs_meaning p
  let rule : Expr → Action Value := returnRule p.meaning s.id (w.reportsReturns s)
  have hnormal : (Eval.plain p.meaning rule).execAll (normalizeAll (splitStart s.decl body).2) =
      (Eval.plain p.meaning rule).execAll (splitStart s.decl body).2 :=
    Eval.execAll_plain_normalize hE.passes (Eval.passes_returnRule hE.passes s.id _)
      (splitStart_every s.decl hscopes).2
  have hobserved : w.observedCall s p.meaning c body args =
      w.callOver s p.meaning c (splitStart s.decl body).1
        ((Eval.plain p.meaning rule).execAll (splitStart s.decl body).2) args := by
    unfold Weaver.observedCall Weaver.observedRun Weaver.startWrites Weaver.observing
      Weaver.observed Eval.observer
    rw [hoff, ← hnormal]
    rfl
  have hlogging := Eval.execBlock_logging (p := p) s.id (w.reportsReturns s)
    (splitStart s.decl body).1 (splitStart s.decl body).2
  rw [splitStart_append] at hlogging
  rw [hobserved]
  exact agrees_quietCall (Eval.chronicle_logs s.id (w.reportsReturns s)) hp.runtimeClass h
    (Eval.accompanied_execAll hp (splitStart_every s.decl havoid).2) hlogging

/-! ## Reports of value changes beside the log -/

open Eval (Comparison SameBut Heap)

theorem reports_of_bracket_or_returning {t : Toggles} (ht : t.returns = true) {e : Event}
    (he : e.isBracket = true ∨ e.isReturning = true) : t.reports e = true := by
  cases e with
  | returning _ _ => exact ht
  | entering _ _ | exiting _ | deadlineSet _ _ | timedOut _ _ => rfl
  | changed _ _ _ | failed _ _ => exact absurd he (by simp [Event.isBracket, Event.isReturning])

theorem matched_of_below {α : Type} {I : Eval.Proviso} {κ : Recorder → Recorder → Prop}
    {x y : Action α} (hxy : Eval.Within x y) {st : State} {o : Eval.Outcome α}
    (h : (y st).Matched I κ o) : (x st).Matched I κ o := by
  rcases hxy st with hcut | hsame
  · rw [hcut]
    trivial
  · rw [hsame]
    exact h

section

variable {w : Weaver} {s : Session} {p : Program} (hp : p.runtimeClass = w.hooks.runtimeClass)
variable {c : ClassDecl} (hc : Eval.OwnNamed p c.name) {body : List Stmt}
variable (harranged : Arranged s.decl body)
variable (hown : Stmt.EveryIn (Eval.ReportsHere s.decl.returnsValue) body)
variable {args : List Value} {st : State}

include hp hc harranged hown

theorem matched_observedCall {t t' : Toggles} (hle : t ≤ t')
    (hacyclic : p.RunStaysAcyclic c
      { s.decl with body := some ((w.tracing t').bodyOf s body) } args st) :
    ((w.tracing t').observedCall s p.meaning c body args st).Matched (Eval.Good Heap.isAcyclic)
      (SameReports t) ((w.tracing t).observedCall s p.meaning c body args st) := by
  let C : Comparison := .careful p Heap.isAcyclic (SameBut.kept fun e => !t.reports e)
  have hfollowed := followed_observedCall (C := C) (w := w)
    (switched_of_le (Toggles.le_ite t.le_refl hle) (.inl rfl) p) hp hc harranged.1 hown args
  have hrun : ∀ E, Eval.Runs p E → Eval.runMethod E c
      { s.decl with body := some ((w.tracing t).bodyOf s body) } args =
        (w.tracing t).observedCall s E c body args :=
    fun E hE => runMethod_bodyOf (w := w.tracing t) hE hp c harranged.1 harranged.2 args
  have hwithin : Eval.Within ((w.tracing t).observedCall s C.evaluator c body args)
      ((w.tracing t).observedCall s p.meaning c body args) := by
    rw [← hrun _ C.runs, ← hrun _ (Eval.runs_meaning p)]
    exact Eval.closed_below.runMethod_of_has (p.careful_meaning_below Heap.isAcyclic) c _ args
  exact matched_of_followed (w := w.tracing t')
    (x := fun E => (w.tracing t).observedCall s E c body args) hp harranged hacyclic (.refl _)
    (fun st k hst hk => hfollowed st k hst hk) hwithin

end

/-- Beside a call that gets past its entry, a log of the values it returns can be kept. -/
theorem matched_loggedCall {w : Weaver} (hon : w.settings.traceReturns = true) {s : Session}
    {p : Program} (hp : Eval.Orderly w.hooks w.settings.traceErrors p) {c : ClassDecl}
    (hc : Eval.OwnNamed p c.name) {body : List Stmt} (harranged : Arranged s.decl body)
    (hown : Stmt.EveryIn (Eval.ReportsHere s.decl.returnsValue) body)
    (havoid : Stmt.EveryIn (HoldsHere (Expr.Avoids w.hooks.runtimeClass)) body)
    (hscopes : Stmt.EveryIn ScopesHere body) {args : List Value} {st st' : State}
    (hacyclic : p.RunStaysAcyclic c { s.decl with body := some (w.bodyOf s body) } args st)
    (h : Eval.Opened p.meaning w.hooks s.id c s.decl (splitStart s.decl body).1 args st st') :
    (Eval.runMethod p.meaning c { s.decl with body := some (w.bodyOf s body) } args st).Matched
      Anywhere (Logged s.decl.returnsValue st'.events)
      (Eval.loggedCall p.meaning s.id s.decl.returnsValue c s.decl body args
        (st.recording .empty)) := by
  let t : Toggles := ⟨false, true, w.settings.traceErrors⟩
  let t' : Toggles := ⟨w.settings.traceChanges, w.settings.traceReturns, w.settings.traceErrors⟩
  have hle : t ≤ t' := ⟨Bool.noConfusion, fun _ => hon, fun herrors => herrors⟩
  have hrun : Eval.runMethod p.meaning c { s.decl with body := some (w.bodyOf s body) } args =
      w.observedCall s p.meaning c body args :=
    runMethod_bodyOf (Eval.runs_meaning p) hp.runtimeClass c harranged.1 harranged.2 args
  have hadds := adds_bodyOf harranged.2 h
  rw [hrun] at hadds
  have hfewer : ((w.tracing t').observedCall s p.meaning c body args st).Matched
      (Eval.Good Heap.isAcyclic) (SameReports t)
      ((w.tracing t).observedCall s p.meaning c body args st) :=
    matched_observedCall hp.runtimeClass hc harranged hown hle hacyclic
  rw [hrun]
  exact matched_noted (fun _ => reports_of_bracket_or_returning rfl)
    (fun _ _ _ hsame hlogs => ⟨hsame.trans hlogs.returns, hlogs.silent⟩) hadds hfewer
    (agrees_loggedCall (w := w.tracing t) rfl hp havoid hscopes h)

theorem exec_observing_ret {w : Weaver} {s : Session} (h : w.reportsReturns s = true)
    (E : Evaluator) (e : Expr) :
    (w.observing s E).exec (.ret (some e)) = do
      let value ← E.eval e
      let copy ← value.snapshot
      Action.record s.id (.returning copy)
      return .returned value := by
  have hhand : (returnRule E s.id (w.reportsReturns s) e >>= fun value =>
      Pure.pure (Flow.returned value)) = do
        let value ← E.eval e
        let copy ← value.snapshot
        Action.record s.id (.returning copy)
        return .returned value := by
    rw [h]
    simp only [returnRule, Eval.handOver, if_true, bind_assoc, pure_bind]
  unfold Weaver.observing Eval.observer
  cases w.settings.traceChanges with
  | false => exact (Eval.exec_plain E _ _).trans hhand
  | true =>
      refine (Eval.exec_tracer E s.id _ _).trans (Eq.trans ?_ hhand)
      exact Eval.reportAfter_nil E s.id _

/-- Every executed return of a value is reported once.  With reports of returned values, a
call of a woven method that gets past its entry reports directly, in order, what the log
holds that is kept when the former body is executed beside it: one report for every executed
`return` of a value, and none if the method returns no value.  The call ends in the way of
that execution and leaves the same state.  It is an observed run, which makes each report
right before the value is handed over.  Classes must be found under their own names. -/
theorem returns_reported_once {w : Weaver} {u : CompilationUnit}
    (hu : u.Avoids w.hooks.runtimeClass) (hr : Reportable u)
    (hscopes : u.EveryBody fun _ body => Stmt.EveryIn ScopesHere body)
    (hon : w.settings.traceReturns = true) :
    ∀ u' report, w.weaveUnit u = .ok (u', report) →
    ∀ c ∈ u.classes, ∀ m ∈ c.methods, ∀ c' reports m' methodReport,
      w.weaveClass u c = .ok (c', reports) →
      w.weaveMethod (w.session u c m) = .ok (m', methodReport) →
      methodReport.isWoven = true →
      ∃ body front rest, m.body = some body ∧
        m'.body = some (front ++ w.hooks.entering (w.session u c m).id m.params :: rest) ∧
        (∀ args s, (⟨u', w.hooks.runtimeClass⟩ : Program).RunStaysAcyclic c' m' args s →
          ∀ steps value s₀,
          Eval.runMethod ((⟨u', w.hooks.runtimeClass⟩ : Program).evaluator steps) c'
            { m' with body := some (front ++ [w.hooks.entering (w.session u c m).id m.params]) }
              args s = .done value s₀ →
          (Eval.runMethod ((⟨u', w.hooks.runtimeClass⟩ : Program).evaluator steps) c' m' args
            s).Matched Anywhere (Logged m.returnsValue s₀.events)
              (Eval.loggedCall (⟨u', w.hooks.runtimeClass⟩ : Program).meaning
                (w.session u c m).id m.returnsValue c' m body args (s.recording .empty))) ∧
        (∀ args s, ∃ bound, ∀ steps ≥ bound,
          Eval.runMethod ((⟨u', w.hooks.runtimeClass⟩ : Program).evaluator steps) c' m' args s =
            w.observedCall (w.session u c m) (⟨u', w.hooks.runtimeClass⟩ : Program).meaning c body
              args s) ∧
        (m.returnsValue = true → ∀ E e,
          (w.observing (w.session u c m) E).exec (.ret (some e)) = do
            let value ← E.eval e
            let copy ← value.snapshot
            Action.record (w.session u c m).id (.returning copy)
            return .returned value) := by
  intro u' report hw c hc m hm c' reports m' methodReport hc' hm' hwoven
  let p : Program := ⟨u', w.hooks.runtimeClass⟩
  rcases runMethod_observed u' hc' hm' hwoven with ⟨body, hbody, hobserved⟩
  rcases bodies_of_isWoven hm' hwoven with ⟨body', hbody', rfl⟩
  obtain rfl : body' = body := Option.some.inj (hbody'.symm.trans hbody)
  obtain rfl : c' = c.withBodies (w.bodies u c) := weaveClass_ok hc'
  have hmem : body' ∈ m.body.toList := Option.mem_toList.mpr hbody
  have harranged : Arranged m body' := hr.arranged c hc m hm body' hmem
  rcases exists_bodyOf w (w.session u c m) harranged.2 with ⟨rest, hrest⟩
  refine ⟨body', _, rest, hbody, congrArg some hrest, ?_, hobserved harranged,
    fun hreturns => exec_observing_ret ?_⟩
  · intro args s hacyclic steps value s₀ hopening
    have hprogram : p = w.program u := weaveUnit_ok hw _
    have hp : Eval.Orderly w.hooks w.settings.traceErrors p := by
      rw [hprogram]
      exact orderly_bodies w hu
    have hown : Eval.OwnNamed p c.name := by
      rw [hprogram]
      exact hr.names.ownNamed (p := ⟨u, w.hooks.runtimeClass⟩) (w.bodies u) hc
    rcases Eval.exists_opened_of_within rfl hopening with ⟨s', hopened, hevents⟩
    have hmatched := matched_loggedCall (s := w.session u c m) hon hp hown harranged
      (hr.own c hc m hm body' hmem) ((hu c hc).2 m hm body' hmem) (hscopes c hc m hm body' hmem)
      hacyclic hopened
    rw [hevents] at hmatched
    exact matched_of_below (p.runMethod_below _ _ args steps) hmatched
  · unfold Weaver.reportsReturns
    rw [hon]
    exact hreturns

theorem returns_reported_once_drain :
    drainUnit.Avoids (Weaver.ofSettings .standard).hooks.runtimeClass ∧ Reportable drainUnit ∧
    (drainUnit.EveryBody fun _ body => Stmt.EveryIn ScopesHere body) ∧
    ∃ u' report c' reports m' methodReport body front rest,
      (Weaver.ofSettings .standard).weaveUnit drainUnit = .ok (u', report) ∧
      (Weaver.ofSettings .standard).weaveClass drainUnit drainClass = .ok (c', reports) ∧
      (Weaver.ofSettings .standard).weaveMethod ((Weaver.ofSettings .standard).session drainUnit
        drainClass drainMethod) = .ok (m', methodReport) ∧
      drainMethod.body = some body ∧
      m'.body = some (front ++ (Weaver.ofSettings .standard).hooks.entering "Tank.drain"
        drainMethod.params :: rest) ∧
      (⟨u', (Weaver.ofSettings .standard).hooks.runtimeClass⟩ : Program).RunStaysAcyclic c' m'
        [.int 5] .initial ∧
      ∀ steps value s₀,
        Eval.runMethod ((⟨u', (Weaver.ofSettings .standard).hooks.runtimeClass⟩ :
          Program).evaluator steps) c' { m' with body := some (front ++
            [(Weaver.ofSettings .standard).hooks.entering "Tank.drain" drainMethod.params]) }
              [.int 5] .initial = .done value s₀ →
        (Eval.runMethod ((⟨u', (Weaver.ofSettings .standard).hooks.runtimeClass⟩ :
          Program).evaluator steps) c' m' [.int 5] .initial).Matched Anywhere
            (Logged true s₀.events)
            (Eval.loggedCall (⟨u', (Weaver.ofSettings .standard).hooks.runtimeClass⟩ :
              Program).meaning "Tank.drain" true c' drainMethod body [.int 5]
                (State.initial.recording .empty)) := by
  have hu : drainUnit.Avoids (Weaver.ofSettings .standard).hooks.runtimeClass := by decide
  have hr : Reportable drainUnit := ⟨by decide, by decide, by decide⟩
  have hscopes : drainUnit.EveryBody fun _ body => Stmt.EveryIn ScopesHere body := by decide
  have hw : ∃ result, (Weaver.ofSettings .standard).weaveUnit drainUnit = .ok result := ⟨_, rfl⟩
  rcases hw with ⟨⟨u', report⟩, hw⟩
  have hclass : drainClass ∈ drainUnit.classes := List.mem_singleton_self _
  have hmethod : drainMethod ∈ drainClass.methods := List.mem_singleton_self _
  rcases exists_woven hw hclass hmethod rfl with ⟨c', reports, m', methodReport, hc, hm, hwoven⟩
  rcases returns_reported_once hu hr hscopes rfl u' report hw drainClass hclass drainMethod hmethod
    c' reports m' methodReport hc hm hwoven with
    ⟨body, front, rest, hbody, hbody', hlogged, -, -⟩
  have hacyclic : (⟨u', (Weaver.ofSettings .standard).hooks.runtimeClass⟩ :
      Program).RunStaysAcyclic c' m' [.int 5] .initial := by
    rw [weaveUnit_ok hw]
    rcases bodies_of_isWoven hm hwoven with ⟨body', hbody'', rfl⟩
    obtain rfl := Option.some.inj hbody''
    obtain rfl : c' = drainClass.withBodies _ := weaveClass_ok hc
    exact Program.runStaysAcyclic_of_isDone rfl (n := 30) (by decide +kernel)
  exact ⟨hu, hr, hscopes, u', report, c', reports, m', methodReport, body, front, rest, hw, hc,
    hm, hbody, hbody', hacyclic, hlogged [.int 5] .initial hacyclic⟩

/-- The second class goes by the full name of the first one, and returns what it writes. -/
def shadowReturnUnit : CompilationUnit where
  package := some "p"
  classes :=
    [ClassDecl.empty "A",
     (ClassDecl.empty "p.A").withField ⟨"f", "int", false, some (.int 0)⟩
      |>.withMethod (((MethodDecl.procedure "run").returning "int").withBody
          [.retValue (.set (.field .self "f") (.int 1))])]

def faultsUnreturned {α : Type} : Eval.Outcome α → Bool
  | .fault _ s => s.events.all fun e => !e.isReturning
  | .done _ _ | .thrown _ _ | .exhausted => false

/-- Where a class is found in place of another one, the report of what a returned expression
writes can read a field that is not there: the value that the method returns is then neither
reported nor returned. -/
theorem shadowed_return_unreported :
    shadowReturnUnit.Avoids (Weaver.ofSettings .standard).hooks.runtimeClass ∧
    shadowReturnUnit.EveryBody Arranged ∧
    (shadowReturnUnit.EveryBody fun _ body => Stmt.EveryIn (HoldsHere Eval.ReportsOwn) body) ∧
    (shadowReturnUnit.EveryBody fun _ body => Stmt.EveryIn ScopesHere body) ∧
    ¬ Eval.OwnNames shadowReturnUnit ∧
    ∃ u' report, (Weaver.ofSettings .standard).weaveUnit shadowReturnUnit = .ok (u', report) ∧
      ((⟨shadowReturnUnit, (Weaver.ofSettings .standard).hooks.runtimeClass⟩ : Program).call 20
        "p.p.A" "run" [] .initial).isDone = true ∧
      faultsUnreturned ((⟨u', (Weaver.ofSettings .standard).hooks.runtimeClass⟩ : Program).call 20
        "p.p.A" "run" [] .initial) = true := by
  have hw : ∃ result, (Weaver.ofSettings .standard).weaveUnit shadowReturnUnit = .ok result :=
    ⟨_, rfl⟩
  rcases hw with ⟨⟨u', report⟩, hw⟩
  refine ⟨by decide, by decide, by decide, by decide, by decide, u', report, hw,
    by decide +kernel, ?_⟩
  rw [weaveUnit_ok hw]
  decide +kernel

end Weave
end TraceWeaving
