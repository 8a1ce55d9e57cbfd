import TraceWeaving.Proofs.Eval.Quiet
import TraceWeaving.Proofs.Weave.Deadlines
import TraceWeaving.Proofs.Weave.Filtering

/-!
# Logs beside activations

The former body of a method is executed once more beside the woven one, from the state in
which the woven activation got past its entry.  Its expressions are quiet, and it keeps a
log of its own.  What the activation reports directly and what is logged then belong
together, while the entry, the deadline, errors and the exit leave no trace in the log.
-/

namespace TraceWeaving
namespace Eval

open Code
open Trace (Event Recorder Bracketed Cut directEvents)

/-! ## Words and logs -/

/-- Words of an activation that belong together with logs.  Nothing is logged of other
activations, nor of what the wrapper reports. -/
structure Chronicle (id : String) (whole broken : List Event → List Event → Prop) : Prop
    extends Pairing whole broken where
  nested : ∀ {w : List Event}, Bracketed none w → whole w []
  nested_cut : ∀ {w : List Event}, Cut none w → broken w []
  deadline : ∀ millis, whole [.deadlineSet id millis] []
  failed : ∀ error, whole [.failed id error] []
  exiting : ∀ {w v late : List Event}, whole w v → Late id late →
    broken (w ++ (late ++ [.exiting id])) v

theorem chronicle_direct (id : String) {kind : Event → Bool}
    (hkind : ∀ e, kind e = true → e.isReturning = true ∨ e.isChanged = true) :
    Chronicle id (fun w v => Bracketed (some id) w ∧ (directEvents w).filter kind = v)
      fun w v => (directEvents w).filter kind = v := by
  have hother : ∀ e : Event, e.isReturning = false → e.isChanged = false → kind e = false := by
    intro e hr hc
    refine Bool.eq_false_iff.mpr fun he => ?_
    rcases hkind e he with h | h
    · exact absurd (hr.symm.trans h) Bool.false_ne_true
    · exact absurd (hc.symm.trans h) Bool.false_ne_true
  have hsingle : ∀ e : Event, e.isBracket = false → kind e = false →
      (directEvents [e]).filter kind = [] := by
    intro e hb he
    show (Trace.directAt 0 [e]).filter kind = []
    rw [Trace.directAt_zero_cons hb, List.filter_cons_of_neg (by simp [he])]
    rfl
  refine
    { nil := ⟨.nil, rfl⟩
      append := ?_
      cut := fun h => h.2
      append_cut := ?_
      nested := fun h => ⟨h.inside (some id), by rw [h.directEvents_eq_nil]; rfl⟩
      nested_cut := fun h => by rw [h.directEvents_eq_nil]; rfl
      deadline := fun millis => ⟨.single rfl rfl, hsingle _ rfl (hother _ rfl rfl)⟩
      failed := fun error => ⟨.single rfl rfl, hsingle _ rfl (hother _ rfl rfl)⟩
      exiting := ?_ }
  · rintro w v w' v' ⟨hw, rfl⟩ ⟨hw', rfl⟩
    exact ⟨hw.append hw', hw.filter_directEvents_append kind w'⟩
  · rintro w v w' v' ⟨hw, rfl⟩ rfl
    exact hw.filter_directEvents_append kind w'
  · rintro w v late ⟨hw, rfl⟩ hlate
    rw [hw.filter_directEvents_append]
    rcases hlate with rfl | ⟨millis, rfl⟩
    · exact List.append_nil _
    · show _ ++ List.filter kind (directEvents [.timedOut id millis]) = _
      rw [hsingle _ rfl (hother _ rfl rfl), List.append_nil]

def Noted (broken : List Event → List Event → Prop) (before : List Event) (k k' : Recorder) :
    Prop :=
  ∃ w, k.events = before ++ w ∧ broken w k'.events

/-! ## Quiet evaluation -/

abbrev Anywhere : Proviso :=
  Good fun _ => true

theorem followed_meaning (p : Program) :
    Evaluator.Has (Followed Anywhere fun _ _ => True) fun _ => p.meaning := by
  have hcareful := followed_careful kept_true p fun _ => true
  rw [p.careful_true] at hcareful
  exact hcareful

theorem quietly_of_done {α : Type} {x : Action α}
    (hx : Followed Anywhere (fun _ _ => True) fun _ => x) {s s' : State} {a : α}
    (h : x s = .done a s') (k : Recorder) :
    x.quietly (s.recording k) = .done a (s'.recording k) := by
  have hmatched : (x s).Matched Anywhere _ (x (s.recording k)) := hx s k rfl trivial
  rw [h] at hmatched
  rcases hmatched with ⟨-, k', ho, -⟩
  show (x (s.recording k)).mapState _ = _
  rw [ho]
  rfl

theorem emits_meaning {hooks : Hooks} {errors : Bool} {p : Program} (hp : Orderly hooks errors p)
    {own : Option String} {e : Expr} (he : CalmExpr hooks.runtimeClass own e) :
    Emits errors own (p.meaning.eval e) :=
  Speaks.limit (fun n => (hp.emitsCalm n).eval own e he) (p.has_tends.eval e)

section

variable {id : String} {whole broken : List Event → List Event → Prop}
variable (hlog : Chronicle id whole broken)

include hlog

/-- What an expression reports is reported by activations inside it. -/
theorem Chronicle.accompanied_eval {hooks : Hooks} {errors : Bool} {p : Program}
    (hp : Orderly hooks errors p) {e : Expr} (he : e.Avoids hooks.runtimeClass) :
    Accompanied Anywhere whole broken fun i =>
      (if i then p.meaning.quiet else p.meaning).eval e := by
  have hemits := emits_meaning hp (Weave.calmExpr_of_avoids he none)
  have hquiet : Accompanied Anywhere whole broken fun i =>
      if i then (p.meaning.eval e).quietly else p.meaning.eval e := by
    apply accompanied_quietly ((followed_meaning p).eval e) hemits
    · exact fun hw => hlog.nested hw.bracketed
    · exact fun hw => hlog.nested_cut hw.cut
  exact fun s k hs => hquiet s k hs

theorem Chronicle.noted_exiting {before w : List Event} {k k' : Recorder}
    (hk : k.events = before ++ w) (hw : whole w k'.events) :
    Noted broken before (k.receive id .exiting) k' := by
  rcases late_eventsOf_exiting k id with ⟨late, hlate, hexit⟩
  refine ⟨w ++ (late ++ [.exiting id]), ?_, hlog.exiting hw hlate⟩
  rw [Recorder.events_receive, hexit, hk, List.append_assoc]

theorem Chronicle.agrees_guarding {errors : Bool} {x : Action Flow} {s : State}
    {o : Outcome Flow} (h : (x s).Accompanied Anywhere whole broken s.events [] o) :
    (guarding errors id x s).Agrees (Noted broken s.events) o := by
  unfold guarding Action.andThen
  cases ho : x s with
  | done flow s' =>
      rw [ho] at h
      rcases h with ⟨-, w, v, k, hs', rfl, hw, rfl⟩
      exact ⟨k, rfl, hlog.noted_exiting hs' hw⟩
  | thrown t s' =>
      rw [ho] at h
      rcases h with ⟨-, w, v, k, hs', rfl, hw, rfl⟩
      cases errors with
      | false => exact ⟨k, rfl, hlog.noted_exiting hs' hw⟩
      | true =>
          have hfailed : (s'.recorder.receive id (.failed (.error t))).events =
              s.events ++ (w ++ [.failed id (.error t)]) := by
            rw [Recorder.events_receive, ← List.append_assoc, ← hs']
            rfl
          have hword := hlog.append hw (hlog.failed (.error t))
          rw [List.append_nil] at hword
          exact ⟨k, rfl, hlog.noted_exiting hfailed hword⟩
  | fault e s' =>
      rw [ho] at h
      rcases h with ⟨w, v, k, e', hs', rfl, hw, rfl⟩
      exact ⟨e', k, rfl, w, hs', hw⟩
  | exhausted =>
      rw [ho] at h
      exact h

end

/-! ## Ends of calls -/

theorem Outcome.Agrees.mapState {α : Type} {κ : Recorder → Recorder → Prop} {o o' : Outcome α}
    (h : o.Agrees κ o') {f : State → State} (hkept : ∀ s, (f s).recorder = s.recorder)
    (hf : ∀ s k, f (s.recording k) = (f s).recording k) :
    (o.mapState f).Agrees κ (o'.mapState f) := by
  cases o with
  | done _ s | thrown _ s =>
      rcases h with ⟨k, rfl, hk⟩
      refine ⟨k, ?_, ?_⟩
      · rw [← hf]
        rfl
      · rw [hkept]
        exact hk
  | fault _ s =>
      rcases h with ⟨e, k, rfl, hk⟩
      refine ⟨e, k, ?_, ?_⟩
      · rw [← hf]
        rfl
      · rw [hkept]
        exact hk
  | exhausted =>
      have ho' : o' = .exhausted := h
      rw [ho']
      rfl

theorem Outcome.Agrees.result {κ : Recorder → Recorder → Prop} {o o' : Outcome Flow}
    (h : o.Agrees κ o') :
    ((o.mapState State.popFrame).andThen resultOf Action.raiseValue).Agrees κ
      ((o'.mapState State.popFrame).andThen resultOf Action.raiseValue) := by
  have hpopped := h.mapState recorder_popFrame recording_popFrame
  generalize o.mapState State.popFrame = o, o'.mapState State.popFrame = o' at hpopped
  cases o with
  | done flow s =>
      rcases hpopped with ⟨k, rfl, hk⟩
      cases flow with
      | normal | returned _ => exact ⟨k, rfl, hk⟩
      | broke _ | continued _ => exact ⟨_, k, rfl, hk⟩
  | thrown t s =>
      rcases hpopped with ⟨k, rfl, hk⟩
      exact ⟨k, rfl, hk⟩
  | fault e s =>
      rcases hpopped with ⟨e', k, rfl, hk⟩
      exact ⟨e', k, rfl, hk⟩
  | exhausted =>
      have ho' : o' = .exhausted := hpopped
      rw [ho']
      rfl

/-- A run of a method during which no array ever contains itself. -/
def Program.RunStaysAcyclic (p : Program) (c : ClassDecl) (m : MethodDecl) (args : List Value)
    (s : State) : Prop :=
  s.heap.isAcyclic = true ∧
    runMethod (p.careful Heap.isAcyclic).meaning c m args s = runMethod p.meaning c m args s

theorem Program.runStaysAcyclic_of_isDone {p : Program} {n : Nat} {c : ClassDecl}
    {m : MethodDecl} {args : List Value} {s : State} (hs : s.heap.isAcyclic = true)
    (h : (runMethod ((p.careful Heap.isAcyclic).within n) c m args s).isDone = true) :
    p.RunStaysAcyclic c m args s :=
  ⟨hs, Within.eq_of_isDone
    (closed_below.runMethod_of_has ((p.regular_careful Heap.isAcyclic).below_meaning n) c m args)
    (closed_below.runMethod_of_has (p.careful_meaning_below Heap.isAcyclic) c m args) h⟩

/-! ## Behind the entry -/

/-- A call that gets past its entry: it is prepared, then comes what stands in front of the
entry, and then the entry, which changes the recorder alone. -/
def Opened (E : Evaluator) (hooks : Hooks) (id : String) (c : ClassDecl) (m : MethodDecl)
    (front : Option Expr) (args : List Value) (s s₃ : State) : Prop :=
  ∃ s₁ s₂ k, prepareCall E c m s = .done () s₁ ∧
    E.evalEach front.toList (s₁.pushFrame (callFrame c m args)) = .done () s₂ ∧
    E.exec (hooks.entering id m.params) s₂ = .done .normal s₃ ∧ s₃ = s₂.recording k

section

variable {p : Program} {E : Evaluator} (hE : Runs p E) {hooks : Hooks}
variable (hp : p.runtimeClass = hooks.runtimeClass) {id : String} {c : ClassDecl}
variable {m : MethodDecl} {front : Option Expr} {args : List Value} {s : State}

include hE hp

theorem exec_entering_state {params : List Param} {s s' : State} {flow : Flow}
    (h : E.exec (hooks.entering id params) s = .done flow s') :
    flow = .normal ∧ ∃ k, s' = s.recording k := by
  rw [hE.toHosts.exec_entering hp] at h
  rcases Action.of_bind_eq_done h with ⟨report, s₁, hreport, hrest⟩
  have hstill := Still.entryReport hE.toHosts params s
  rw [hreport] at hstill
  rcases hstill with ⟨-, rfl⟩
  obtain ⟨rfl, rfl⟩ := Outcome.done.inj hrest
  exact ⟨rfl, _, rfl⟩

theorem exists_opened {s₀ : State} {value : Value}
    (h : runMethod E c { m with
      body := some (front.toList.map .expr ++ [hooks.entering id m.params]) } args s =
        .done value s₀) :
    ∃ s₃, Opened E hooks id c m front args s s₃ ∧ s₃.recorder = s₀.recorder := by
  rw [runMethod_eq, Weave.execAll_exprs hE, Evaluator.execAll_singleton] at h
  rcases Action.of_bind_eq_done h with ⟨_, s₁, hprepare, hrun⟩
  rcases Action.of_bind_eq_done hrun with ⟨flow, s', hframe, hresult⟩
  cases hbody : (E.evalEach front.toList >>= fun _ => E.exec (hooks.entering id m.params))
      (s₁.pushFrame (callFrame c m args)) with
  | done flow' s₃ =>
      have hpopped : Outcome.done flow' s₃.popFrame = .done flow s' := by
        rw [← hframe]
        show _ = Outcome.mapState State.popFrame _
        rw [hbody]
        rfl
      obtain ⟨rfl, rfl⟩ := Outcome.done.inj hpopped
      rcases Action.of_bind_eq_done hbody with ⟨_, s₂, hfront, hentry⟩
      rcases exec_entering_state hE hp hentry with ⟨rfl, k, hk⟩
      obtain ⟨-, rfl⟩ := Outcome.done.inj hresult
      exact ⟨s₃, ⟨s₁, s₂, k, hprepare, hfront, hentry, hk⟩, (recorder_popFrame s₃).symm⟩
  | thrown _ _ | fault _ _ | exhausted =>
      change Outcome.mapState State.popFrame _ = _ at hframe
      rw [hbody] at hframe
      exact nomatch hframe

omit hE in
theorem exists_opened_of_within {steps : Nat} {s₀ : State} {value : Value}
    (h : runMethod (p.evaluator steps) c { m with
      body := some (front.toList.map .expr ++ [hooks.entering id m.params]) } args s =
        .done value s₀) :
    ∃ s₃, Opened p.meaning hooks id c m front args s s₃ ∧ s₃.events = s₀.events := by
  rcases p.runMethod_below _ _ args steps s with hcut | hends
  · exact nomatch hcut.symm.trans h
  rcases exists_opened (runs_meaning p) hp (hends.symm.trans h) with ⟨s₃, hopened, hrecorder⟩
  exact ⟨s₃, hopened, congrArg Recorder.events hrecorder⟩

variable {s₃ : State} (h : Opened E hooks id c m front args s s₃)

include h

omit hp in
/-- A call that gets past its entry goes on with what follows. -/
theorem runMethod_of_opened (rest : List Stmt) :
    runMethod E c { m with
      body := some (front.toList.map .expr ++ hooks.entering id m.params :: rest) } args s =
        ((E.execAll rest s₃).mapState State.popFrame).andThen resultOf Action.raiseValue := by
  rcases h with ⟨s₁, s₂, k, hprepare, hfront, hentry, -⟩
  have hbody : E.execAll (front.toList.map .expr ++ hooks.entering id m.params :: rest)
      (s₁.pushFrame (callFrame c m args)) = E.execAll rest s₃ := by
    rw [Weave.execAll_exprs hE, Evaluator.execAll_cons, Action.bind_of_eq_done hfront,
      Action.bind_of_eq_done hentry]
    rfl
  rw [runMethod_eq, Action.bind_of_eq_done hprepare, Action.bind_eq_andThen]
  show Outcome.andThen (Outcome.mapState State.popFrame _) _ _ = _
  rw [hbody]

end

/-- A call of which nothing is recorded but what its body logs. -/
def quietCall (E : Evaluator) (c : ClassDecl) (m : MethodDecl) (body : Action Flow)
    (args : List Value) : Action Value := do
  (prepareCall E c m).quietly
  let flow ← Action.inFrame (callFrame c m args) body
  resultOf flow

theorem followed_prepareCall {E : Bool → Evaluator}
    (hE : ∀ e, Followed Anywhere (fun _ _ => True) fun i => (E i).eval e) (c : ClassDecl)
    (m : MethodDecl) : Followed Anywhere (fun _ _ => True) fun i => prepareCall (E i) c m := by
  have h : ClosedStmt (ι := Bool) (Followed Anywhere fun _ _ => True) :=
    closed_followed_heap kept_true
  exact h.prepareCall (h.useClass fun _ _ e _ => hE e) m

theorem quietCall_of_opened {p : Program} {hooks : Hooks} {id : String} {c : ClassDecl}
    {m : MethodDecl} {front : Option Expr} {args : List Value} {s s₃ : State}
    (h : Opened p.meaning hooks id c m front args s s₃) {body rest : Action Flow}
    (hbody : body = p.meaning.quiet.evalEach front.toList >>= fun _ => rest) (k : Recorder) :
    quietCall p.meaning c m body args (s.recording k) =
      ((rest (s₃.recording k)).mapState State.popFrame).andThen resultOf Action.raiseValue := by
  rcases h with ⟨s₁, s₂, k', hprepare, hfront, -, rfl⟩
  have hprepared : (prepareCall p.meaning c m).quietly (s.recording k) =
      .done () (s₁.recording k) :=
    quietly_of_done (followed_prepareCall (E := fun _ => p.meaning) (followed_meaning p).eval c m)
      hprepare k
  have hstarted : p.meaning.quiet.evalEach front.toList
      ((s₁.recording k).pushFrame (callFrame c m args)) = .done () (s₂.recording k) := by
    cases front with
    | none =>
        obtain ⟨-, rfl⟩ := Outcome.done.inj hfront
        rfl
    | some e =>
        rcases Action.of_bind_eq_done hfront with ⟨value, s', he, hrest⟩
        obtain ⟨-, rfl⟩ := Outcome.done.inj hrest
        exact Action.bind_of_eq_done (quietly_of_done ((followed_meaning p).eval e) he k) _
  unfold quietCall
  rw [Action.bind_of_eq_done hprepared, hbody, Action.bind_eq_andThen]
  show Outcome.andThen (Outcome.mapState State.popFrame _) _ _ = _
  rw [Action.bind_of_eq_done hstarted]
  rfl

end Eval

namespace Weave

open Code
open Code.Stmt (HoldsHere)
open Eval (Program Evaluator Action State Value Flow Heap Accompanied Anywhere Chronicle Noted)
open Trace (Event Recorder)

/-- A call of a woven method whose activation is about something. -/
def Weaver.callOver (w : Weaver) (s : Session) (E : Evaluator) (c : ClassDecl)
    (start : Option Expr) (inner : Action Flow) (args : List Value) : Action Value := do
  Eval.prepareCall E c s.decl
  let flow ← Action.inFrame (Eval.callFrame c s.decl args) (w.activation s E start inner)
  Eval.resultOf flow

theorem callOver_of_opened {w : Weaver} {s : Session} {E : Evaluator} {c : ClassDecl}
    {start : Option Expr} {args : List Value} {st st' : State}
    (h : Eval.Opened E w.hooks s.id c s.decl start args st st') (inner : Action Flow) :
    w.callOver s E c start inner args st =
      ((Eval.guarding w.settings.traceErrors s.id (.inScope (E.execAll (w.deadline s) >>=
        Eval.ifNormal inner)) st').mapState State.popFrame).andThen Eval.resultOf
          Action.raiseValue := by
  rcases h with ⟨s₁, s₂, k, hprepare, hfront, hentry, -⟩
  have hrun : w.activation s E start inner (s₁.pushFrame (Eval.callFrame c s.decl args)) =
      Eval.guarding w.settings.traceErrors s.id (.inScope (E.execAll (w.deadline s) >>=
        Eval.ifNormal inner)) st' := by
    unfold Weaver.activation
    rw [Action.bind_of_eq_done hfront, Action.bind_of_eq_done hentry]
    rfl
  unfold Weaver.callOver
  rw [Action.bind_of_eq_done hprepare, Action.bind_eq_andThen]
  show Eval.Outcome.andThen (Eval.Outcome.mapState State.popFrame _) _ _ = _
  rw [hrun]

section

variable {w : Weaver} {s : Session} {p : Program}
variable {whole broken : List Event → List Event → Prop} (hlog : Chronicle s.id whole broken)

include hlog

theorem accompanied_deadline (hp : p.runtimeClass = w.hooks.runtimeClass) :
    Accompanied Anywhere whole broken fun i =>
      if i then Pure.pure Flow.normal else p.meaning.execAll (w.deadline s) := by
  have h := hlog.closed_accompanied (I := Anywhere)
  unfold Weaver.deadline
  cases s.markers.timeout with
  | none => exact fun st k hst => h.pure Flow.normal st k hst
  | some millis =>
      have hexec : p.meaning.execAll [w.hooks.timeout s.id millis] =
          Action.record s.id (.deadline (min millis Hooks.longestMillis)) >>= fun _ =>
            Pure.pure .normal := by
        rw [Evaluator.execAll_singleton]
        exact (Eval.hosts_meaning p).exec_timeout hp s.id millis
      intro st k hst
      show Eval.Outcome.Accompanied _ _ _ _ _ (p.meaning.execAll [w.hooks.timeout s.id millis] st) _
      rw [hexec]
      refine ⟨hst, _, [], k, Recorder.events_receive _ _ _, ?_, hlog.deadline _, rfl⟩
      rw [List.append_nil]

/-- What an activation is about is accompanied by a log, and so is the call, once it got past
its entry. -/
theorem agrees_quietCall (hp : p.runtimeClass = w.hooks.runtimeClass) {c : ClassDecl}
    {start : Option Expr} {args : List Value} {st st' : State}
    (h : Eval.Opened p.meaning w.hooks s.id c s.decl start args st st') {inner : Bool → Action Flow}
    (hinner : Accompanied Anywhere whole broken inner) {body : Action Flow}
    (hbody : body = p.meaning.quiet.evalEach start.toList >>= fun _ => .inScope (inner true)) :
    (w.callOver s p.meaning c start (inner false) args st).Agrees (Noted broken st'.events)
      (Eval.quietCall p.meaning c s.decl body args (st.recording .empty)) := by
  have hclosed := hlog.closed_accompanied (I := Anywhere)
  have hguarded : Accompanied Anywhere whole broken fun i =>
      Action.inScope ((if i then Pure.pure Flow.normal else p.meaning.execAll (w.deadline s)) >>=
        Eval.ifNormal (inner i)) := by
    apply hclosed.inScope
    apply hclosed.bind (accompanied_deadline hlog hp)
    intro flow
    cases flow with
    | normal => exact hinner
    | returned _ | broke _ | continued _ => exact hclosed.pure _
  rw [callOver_of_opened h, Eval.quietCall_of_opened h hbody]
  apply Eval.Outcome.Agrees.result
  apply hlog.agrees_guarding
  exact hguarded st' .empty rfl

end

/-! ## More reports beside the log -/

theorem records_execAll (p : Program) (stmts : List Stmt) :
    Eval.Records (Toggles.reports ⟨true, true, true⟩) (p.meaning.execAll stmts) := by
  have hexpr : ∀ e, Eval.WithoutHooks [] p.runtimeClass e :=
    fun _ _ _ _ _ _ => List.not_mem_nil
  have hstmt : ∀ s : Stmt, s.Every (HoldsHere (Eval.WithoutHooks [] p.runtimeClass)) :=
    fun _ _ _ e _ => hexpr e
  have hwithout : p.Without [] := ⟨fun _ _ _ _ e _ => hexpr e, fun _ _ _ _ _ _ s _ => hstmt s⟩
  have hexec : ∀ s, Eval.Records (Toggles.reports ⟨true, true, true⟩) (p.meaning.exec s) :=
    fun s => Eval.Speaks.limit (fun n => (Eval.recordsOn_evaluator
      (Toggles.silences ⟨true, true, true⟩) hwithout n).exec s (hstmt s)) (p.has_tends.exec s)
  exact (Eval.closed_records _).execAll (r := fun _ => p.meaning) fun s _ => hexec s

theorem adds_of_opened {p : Program} {hooks : Hooks} {id : String} {c : ClassDecl}
    {m : MethodDecl} {front : Option Expr} {args : List Value} {st st' : State}
    (h : Eval.Opened p.meaning hooks id c m front args st st') (rest : List Stmt) :
    (Eval.runMethod p.meaning c { m with
      body := some (front.toList.map .expr ++ hooks.entering id m.params :: rest) } args st).Adds
        st'.events (fun _ => True) fun _ => True := by
  rw [Eval.runMethod_of_opened (Eval.runs_meaning p) h rest]
  have hpopped := (records_execAll p rest st').mapState Eval.events_popFrame
  cases ho : (p.meaning.execAll rest st').mapState State.popFrame with
  | done flow s =>
      rw [ho] at hpopped
      rcases hpopped with ⟨w, hw, -⟩
      cases flow <;> exact ⟨w, hw, trivial⟩
  | thrown _ s | fault _ s =>
      rw [ho] at hpopped
      rcases hpopped with ⟨w, hw, -⟩
      exact ⟨w, hw, trivial⟩
  | exhausted => trivial

theorem exists_bodyOf (w : Weaver) (s : Session) {body : List Stmt}
    (h : DelegatesFirst s.decl body) :
    ∃ rest, w.bodyOf s body = (splitStart s.decl body).1.toList.map .expr ++
      w.hooks.entering s.id s.decl.params :: rest := by
  rw [Weaver.bodyOf_eq, (bodyOf_split w s h).1]
  exact ⟨_, rfl⟩

theorem adds_bodyOf {w : Weaver} {s : Session} {p : Program} {c : ClassDecl} {body : List Stmt}
    (hfirst : DelegatesFirst s.decl body) {args : List Value} {st st' : State}
    (h : Eval.Opened p.meaning w.hooks s.id c s.decl (splitStart s.decl body).1 args st st') :
    (Eval.runMethod p.meaning c { s.decl with body := some (w.bodyOf s body) } args st).Adds
      st'.events (fun _ => True) fun _ => True := by
  rcases exists_bodyOf w s hfirst with ⟨rest, hbody⟩
  rw [hbody]
  exact adds_of_opened h rest

section

variable {t : Toggles} {kind : Event → Bool}
variable (hkeep : ∀ e : Event, e.isBracket = true ∨ kind e = true → t.reports e = true)
variable {broken : List Event → List Event → Prop}
variable (hbroken : ∀ w w' v, (Trace.directEvents w).filter kind =
  (Trace.directEvents w').filter kind → broken w' v → broken w v)

include hkeep hbroken

theorem noted_of_sameReports {before w : List Event} {k k' k'' : Recorder}
    (h : SameReports t k k') (hk : k.events = before ++ w) (h' : Noted broken before k' k'') :
    Noted broken before k k'' := by
  rcases h' with ⟨w', hk', hlogs⟩
  have hfilter : w.filter t.reports = w'.filter t.reports := by
    have hevents := h.events
    simp only [Bool.not_not] at hevents
    rw [hk, hk', List.filter_append, List.filter_append] at hevents
    exact List.append_cancel_left hevents
  have hdirect : (Trace.directEvents w).filter kind = (Trace.directEvents w').filter kind := by
    rw [← Trace.filter_directEvents_filter hkeep w, hfilter,
      Trace.filter_directEvents_filter hkeep w']
  exact ⟨w, hk, hbroken w w' k''.events hdirect hlogs⟩

theorem matched_noted {α : Type} {I : Eval.Proviso} {before : List Event}
    {o o' o'' : Eval.Outcome α} (hadds : o.Adds before (fun _ => True) fun _ => True)
    (h : o.Matched I (SameReports t) o') (hlogged : o'.Agrees (Noted broken before) o'') :
    o.Matched Anywhere (Noted broken before) o'' := by
  cases o with
  | done _ _ | thrown _ _ =>
      rcases hadds with ⟨w, hw, -⟩
      rcases h with ⟨-, k, rfl, hk⟩
      rcases hlogged with ⟨k', rfl, hk'⟩
      exact ⟨rfl, k', rfl, noted_of_sameReports hkeep hbroken hk hw hk'⟩
  | fault _ _ =>
      rcases hadds with ⟨w, hw, -⟩
      rcases h with ⟨e, k, rfl, hk⟩
      rcases hlogged with ⟨e', k', rfl, hk'⟩
      exact ⟨e', k', rfl, noted_of_sameReports hkeep hbroken hk hw hk'⟩
  | exhausted => trivial

end

/-- A call that puts no array into itself goes the way of what careful evaluation follows. -/
theorem matched_of_followed {w : Weaver} {s : Session} {p : Program}
    (hp : p.runtimeClass = w.hooks.runtimeClass) {c : ClassDecl} {body : List Stmt}
    (harranged : Arranged s.decl body) {args : List Value} {st : State}
    (hacyclic : p.RunStaysAcyclic c { s.decl with body := some (w.bodyOf s body) } args st)
    {κ : Recorder → Recorder → Prop} (hκ : κ st.recorder st.recorder)
    {x : Evaluator → Action Value}
    (hx : Eval.Followed (Eval.Good Heap.isAcyclic) κ fun i =>
      if i then x (p.careful Heap.isAcyclic).meaning
      else w.observedCall s (p.careful Heap.isAcyclic).meaning c body args)
    (hwithin : Eval.Within (x (p.careful Heap.isAcyclic).meaning) (x p.meaning)) :
    (w.observedCall s p.meaning c body args st).Matched (Eval.Good Heap.isAcyclic) κ
      (x p.meaning st) := by
  have hrun : ∀ E, Eval.Runs p E → Eval.runMethod E c
      { s.decl with body := some (w.bodyOf s body) } args = w.observedCall s E c body args :=
    fun E hE => runMethod_bodyOf hE hp c harranged.1 harranged.2 args
  have hcareful : Eval.Runs p (p.careful Heap.isAcyclic).meaning :=
    (Eval.Comparison.careful p Heap.isAcyclic Eval.kept_true).runs
  have hsame : w.observedCall s (p.careful Heap.isAcyclic).meaning c body args st =
      w.observedCall s p.meaning c body args st := by
    rw [← hrun _ hcareful, ← hrun _ (Eval.runs_meaning p)]
    exact hacyclic.2
  have hmatched : (w.observedCall s (p.careful Heap.isAcyclic).meaning c body args st).Matched _ _
      (x (p.careful Heap.isAcyclic).meaning st) :=
    hx st st.recorder hacyclic.1 hκ
  rw [hsame] at hmatched
  exact hmatched.of_within hwithin

end Weave
end TraceWeaving
