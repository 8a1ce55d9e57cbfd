import TraceWeaving.Proofs.Trace.Deadlines
import TraceWeaving.Proofs.Weave.Omitted
import TraceWeaving.Proofs.Weave.Refusal

/-!
# Deadlines of activations

An activation that sets a deadline judges it at its own exit, provided that methods which
share an identifier agree on having one.  The exit of a method takes back the latest
deadline with its identifier, so the proof follows the pending deadlines of timed methods
through a run: every stretch of code leaves them as they were.

Where methods of one name disagree, the exit of the one without deadline judges the
deadline of the other.
-/

namespace TraceWeaving
namespace Eval

open Code
open Code.Stmt (HoldsHere)
open Weave (wrapped)
open Trace (Throwable Report Event Recorder Bracketed directEvents pendingOf)

/-! ## Actions that keep deadlines in order -/

def Outcome.Keeps {α : Type} (timed : List String) (before : Recorder) : Outcome α → Prop
  | .done _ s | .thrown _ s => before.Later timed s.recorder
  | .fault _ _ | .exhausted => True

def Steady {α : Type} (timed : List String) (x : Action α) : Prop :=
  ∀ s, (x s).Keeps timed s.recorder

section

variable {α β : Type} {timed : List String}

theorem Outcome.Keeps.mapState {o : Outcome α} {before : Recorder} {f : State → State}
    (hf : ∀ s, (f s).recorder = s.recorder) (ho : o.Keeps timed before) :
    (o.mapState f).Keeps timed before := by
  cases o with
  | done a s | thrown t s =>
      show before.Later timed (f s).recorder
      rw [hf]
      exact ho
  | fault _ _ | exhausted => trivial

theorem Outcome.Keeps.after {o : Outcome α} {k k' : Recorder} (hk : k.Later timed k')
    (ho : o.Keeps timed k') : o.Keeps timed k := by
  cases o with
  | done _ _ | thrown _ _ => exact hk.trans ho
  | fault _ _ | exhausted => trivial

theorem Steady.andThen {x : Action α} {f : α → Action β} {g : Throwable → Action β}
    (hx : Steady timed x) (hf : ∀ a, Steady timed (f a)) (hg : ∀ t, Steady timed (g t)) :
    Steady timed (x.andThen f g) := by
  intro s
  have hxs := hx s
  show ((x s).andThen f g).Keeps timed s.recorder
  cases ho : x s with
  | done a s' =>
      rw [ho] at hxs
      exact (hf a s').after hxs
  | thrown t s' =>
      rw [ho] at hxs
      exact (hg t s').after hxs
  | fault _ _ | exhausted => trivial

theorem Steady.bind {x : Action α} {f : α → Action β} (hx : Steady timed x)
    (hf : ∀ a, Steady timed (f a)) : Steady timed (x >>= f) := by
  rw [Action.bind_eq_andThen]
  exact hx.andThen hf fun t s => .refl timed s.recorder

theorem Steady.pure (a : α) : Steady timed (Pure.pure a : Action α) :=
  fun s => .refl timed s.recorder

theorem Steady.of_done {x : Action α}
    (h : ∀ s, ∃ a s', x s = .done a s' ∧ s'.recorder = s.recorder) : Steady timed x := by
  intro s
  rcases h s with ⟨a, s', hx, hs⟩
  rw [hx]
  show s.recorder.Later timed s'.recorder
  rw [hs]
  exact .refl timed s.recorder

theorem Steady.of_within {x y : Action α} (h : Within x y) (hy : Steady timed y) :
    Steady timed x := by
  intro s
  rcases h s with hx | hx
  · rw [hx]
    trivial
  · rw [hx]
    exact hy s

theorem Steady.record {id : String} {report : Report}
    (h : ∀ k : Recorder, k.Later timed (k.receive id report)) :
    Steady timed (Action.record id report) :=
  fun s => h s.recorder

theorem closed_steady (timed : List String) :
    ClosedStmt (ι := Unit) fun x => Steady timed (x ()) where
  look g := .of_done fun s => ⟨g s.view, s, rfl, rfl⟩
  raise t s := .refl timed s.recorder
  fail _ _ := trivial
  exhausted _ := trivial
  andThen := .andThen
  inScope hx s := (hx s.pushScope).mapState fun _ => rfl
  inFrame frame hx s := (hx (s.pushFrame frame)).mapState recorder_popFrame
  declare name value := .of_done fun s => ⟨(), s.declare name value, rfl, rfl⟩
  assign name value s := by
    show Outcome.Keeps timed s.recorder (Place.write (.named name) value s)
    rw [place_write_named]
    cases s.frame.assign? name value with
    | none => trivial
    | some frame => exact .refl timed s.recorder
  setField cls name value := .of_done fun s => ⟨(), s.setField cls name value, rfl, rfl⟩
  openNew cls := .of_done fun s => by
    show ∃ a s', (if s.hasClass cls then Outcome.done false s else .done true (s.openClass cls)) =
      .done a s' ∧ _
    split
    · exact ⟨false, s, rfl, rfl⟩
    · exact ⟨true, s.openClass cls, rfl, rfl⟩
  invoking cls method s := by
    show s.recorder.Later timed (s.recorder.keepInvoking cls method)
    have hevents : (s.recorder.keepInvoking cls method).events = s.recorder.events ++ [] := by
      rw [Recorder.events_keepInvoking, List.append_nil]
    exact .of_same rfl hevents fun _ he => absurd he List.not_mem_nil
  advance millis s :=
    .of_same rfl (List.append_nil _).symm fun _ he => absurd he List.not_mem_nil

theorem finish_steady (timed : List String) :
    Finish (ι := Unit) (fun x => Steady timed (x ())) fun x => Steady timed (x ()) :=
  (closed_steady timed).finish
    (fun address index value => .of_done fun s =>
      ⟨(), { s with heap := s.heap.store address index value }, rfl, rfl⟩)
    fun items => .of_done fun s =>
      ⟨.array s.heap.size, { s with heap := s.heap.push items }, rfl, rfl⟩

end

/-! ## Code without deadlines of its own -/

def deadlineHooks : List String :=
  ["timeout", "exiting"]

def TimelessExpr (runtimeClass : String) : Expr → Prop :=
  Expr.Every fun e => ∀ hook args, e = .call (some (.name runtimeClass)) hook args →
    hook ∉ deadlineHooks

def Timeless (runtimeClass : String) : Stmt → Prop :=
  Stmt.Every (HoldsHere (TimelessExpr runtimeClass))

theorem steady_callHook {hook : String} (hhook : hook ∉ deadlineHooks) (timed : List String)
    (values : List Value) : Steady timed (callHook hook values) := by
  have hclosed := closed_steady timed
  have hsnapshot : ∀ value : Value, Steady timed value.snapshot := hclosed.snapshot
  have htext : ∀ value : Value, Steady timed value.text := hclosed.text
  have hreceive : ∀ id {report : Report}, report ≠ .exiting →
      (∀ millis, report ≠ .deadline millis) →
      Steady timed (Action.record id report >>= fun _ => Pure.pure Value.null) := by
    intro id report hexit hdeadline
    apply Steady.bind
    · exact .record fun k => Recorder.later_receive report hexit hdeadline timed k id
    · exact fun _ => .pure _
  apply Steady.bind
  · exact hclosed.methodIdOf values
  intro id
  show Steady timed (reportOf hook values >>= fun report =>
    Action.record id report >>= fun _ => Pure.pure Value.null)
  unfold reportOf
  split
  · simp only [elementsOf_eq, bind_assoc, pure_bind]
    refine (hclosed.look _).bind fun names => (hclosed.texts names).bind fun names => ?_
    refine (hclosed.look _).bind fun items => (hclosed.snapshots items).bind fun values => ?_
    exact hreceive id (fun h => nomatch h) fun _ h => nomatch h
  · exact absurd hhook (by simp [deadlineHooks])
  · simp only [bind_assoc, pure_bind]
    exact (hsnapshot _).bind fun _ => hreceive id (fun h => nomatch h) fun _ h => nomatch h
  · simp only [bind_assoc, pure_bind]
    refine (htext _).bind fun _ => (hsnapshot _).bind fun _ => ?_
    exact hreceive id (fun h => nomatch h) fun _ h => nomatch h
  · simp only [bind_assoc, pure_bind]
    exact (hsnapshot _).bind fun _ => hreceive id (fun h => nomatch h) fun _ h => nomatch h
  · exact absurd hhook (by simp [deadlineHooks])
  · exact fun _ => trivial

/-- An evaluator that keeps deadlines in order wherever code has none of its own. -/
structure SteadyEvaluator (runtimeClass : String) (timed : List String) (r : Evaluator) :
    Prop where
  eval : ∀ e, TimelessExpr runtimeClass e → Steady timed (r.eval e)
  exec : ∀ s, Timeless runtimeClass s → Steady timed (r.exec s)
  iterate : ∀ label loop, (∀ e ∈ loop.exprs, TimelessExpr runtimeClass e) →
    Timeless runtimeClass loop.body → Steady timed (r.iterate label loop)

theorem SteadyEvaluator.execAll {runtimeClass : String} {timed : List String} {r : Evaluator}
    (h : SteadyEvaluator runtimeClass timed r) {stmts : List Stmt}
    (hs : ∀ s ∈ stmts, Timeless runtimeClass s) : Steady timed (r.execAll stmts) :=
  (closed_steady timed).execAll (r := fun _ => r) fun s hm => h.exec s (hs s hm)

/-! ## Activations -/

/-- Durations are cut to what a literal can hold, so they never turn negative. -/
theorem toInt64_longestMillis_nonneg (millis : UInt64) :
    (0 : Int64) ≤ (min millis Hooks.longestMillis).toInt64 := by
  have hle : (min millis Hooks.longestMillis).toNat ≤ Hooks.longestMillis.toNat :=
    UInt64.le_iff_toNat_le.mp Std.min_le_right
  have hlongest : Hooks.longestMillis.toNat < 2 ^ 63 := by decide
  have hint : (min millis Hooks.longestMillis).toInt64.toInt =
      (min millis Hooks.longestMillis).toNat := by
    show (min millis Hooks.longestMillis).toBitVec.toInt = _
    rw [BitVec.toInt_eq_toNat_of_lt]
    · rfl
    · show 2 * (min millis Hooks.longestMillis).toNat < 2 ^ 64
      omega
  rw [Int64.le_iff_toInt_le, hint]
  exact Int.natCast_nonneg _

theorem Hosts.exec_timeout {p : Program} {E : Evaluator} (hE : Hosts p E) {hooks : Hooks}
    (hp : p.runtimeClass = hooks.runtimeClass) (id : String) (millis : UInt64) :
    E.exec (hooks.timeout id millis) =
      Action.record id (.deadline (min millis Hooks.longestMillis)) >>= fun _ =>
        Pure.pure .normal := by
  have hargs : E.evalAll
      [.text id, .long (min millis Hooks.longestMillis).toInt64] =
      Pure.pure [.str id, .int (min millis Hooks.longestMillis).toInt64] := by
    unfold Evaluator.evalAll Evaluator.evalAll Evaluator.evalAll
    rw [hE.eval_text, hE.eval _ rfl]
    rfl
  unfold Hooks.timeout
  rw [hE.exec_report hp (by decide), hargs, pure_bind, callHook_str]
  show (Pure.pure (Report.deadline (if (0 : Int64) ≤ (min millis Hooks.longestMillis).toInt64 then
    (min millis Hooks.longestMillis).toInt64.toUInt64 else 0)) >>= _) >>= _ = _
  rw [if_pos (toInt64_longestMillis_nonneg millis)]
  rfl

/-- What happens from the report that sets a deadline to the exit of the same activation:
the deadline is judged right before that exit, and nowhere else by this activation. -/
structure Judged (timed : List String) (id : String) (millis : UInt64) (k k' : Recorder) :
    Prop where
  later : k.Later timed k'
  word : ∃ inner, k'.events = k.events ++ .deadlineSet id millis :: (inner ++
      ((if millis.toNat < k'.clock - k.clock then [.timedOut id millis] else [])
        ++ [.exiting id])) ∧
    Bracketed (some id) inner ∧ ∀ e ∈ directEvents inner, e.isTimedOut = false

theorem judged_exit {timed : List String} {id : String} {millis : UInt64} {k k' : Recorder}
    (hid : id ∈ timed) (h : (k.receive id (.deadline millis)).Later timed k')
    {inner : List Event}
    (hevents : k'.events = (k.receive id (.deadline millis)).events ++ inner)
    (hinner : Bracketed (some id) inner) :
    Judged timed id millis k (k'.receive id .exiting) where
  later := Recorder.later_exit_timed hid h
  word := by
    refine ⟨inner, ?_, hinner, ?_⟩
    · rw [Recorder.events_receive, Recorder.eventsOf_exiting_of_deadline hid h, hevents,
        Recorder.events_receive, Recorder.clock_receive]
      simp only [Recorder.eventsOf, List.append_assoc, List.cons_append, List.nil_append]
    · rcases h.word with ⟨w, hw, hprompt⟩
      obtain rfl : w = inner := List.append_cancel_left (hw.symm.trans hevents)
      exact hprompt.direct_of_bracketed hinner

def Outcome.Judged {α : Type} (timed : List String) (id : String) (millis : UInt64)
    (before : Recorder) : Outcome α → Prop
  | .done _ s | .thrown _ s => Eval.Judged timed id millis before s.recorder
  | .fault _ _ | .exhausted => True

section

variable {p : Program} {hooks : Hooks} (hp : p.runtimeClass = hooks.runtimeClass)
variable {r : Evaluator} (hr : Approximates p r) {timed : List String} {errors : Bool}
variable {id : String}

theorem steady_passOn (t : Throwable) : Steady timed (passOn errors id t) := by
  have hraise : Steady timed (Action.raiseValue t : Action Flow) :=
    fun s => .refl timed s.recorder
  unfold passOn
  split
  · apply Steady.bind
    · exact .record fun k => Recorder.later_receive (.failed (.error t)) (fun h => nomatch h)
        (fun _ h => nomatch h) timed k id
    · exact fun _ => hraise
  · exact hraise

theorem steady_guarded (hid : id ∉ timed) {inner : List Stmt}
    (hinner : Steady timed (r.execBlock inner)) :
    Steady timed (guarded r errors id inner) := by
  have hexit : Steady timed (Action.record id .exiting) :=
    .record fun _ => Recorder.later_exit_untimed hid
  unfold guarded guarding
  apply Steady.andThen
  · exact hinner.andThen (fun _ => .pure _) steady_passOn
  · exact fun flow => hexit.bind fun _ => .pure flow
  · exact fun t => hexit.bind fun _ s => .refl timed s.recorder

include hp hr in
/-- The deadline is set before anything else happens in the body. -/
theorem execBlock_timeout_within (id : String) (millis : UInt64) (rest : List Stmt) :
    Within (r.execBlock (hooks.timeout id millis :: rest))
      (Action.inScope (Action.record id (.deadline (min millis Hooks.longestMillis)) >>= fun _ =>
        r.execAll rest)) := by
  have hset : Within (r.exec (hooks.timeout id millis))
      (Action.record id (.deadline (min millis Hooks.longestMillis)) >>= fun _ =>
        Pure.pure .normal) := by
    rw [← (hosts_meaning p).exec_timeout hp id millis]
    exact hr.below.exec (hooks.timeout id millis)
  have hall : Within (r.execAll (hooks.timeout id millis :: rest))
      (Action.record id (.deadline (min millis Hooks.longestMillis)) >>= fun _ =>
        r.execAll rest) := by
    have hbind := hset.bind fun flow => Within.refl (ifNormal (r.execAll rest) flow)
    rw [bind_assoc] at hbind
    rw [Evaluator.execAll_cons]
    exact hbind
  intro s
  exact Within.mapState _ (hall s.pushScope)

include hp hr in
theorem judged_guarded (hid : id ∈ timed) (millis : UInt64) {rest : List Stmt}
    (hrest : Steady timed (r.execAll rest)) (hemits : Emits errors (some id) (r.execAll rest))
    (s : State) :
    (guarded r errors id (hooks.timeout id millis :: rest) s).Judged timed id
      (min millis Hooks.longestMillis) s.recorder := by
  rcases execBlock_timeout_within hp hr id millis rest s with hbody | hbody
  · unfold guarded guarding Action.andThen
    rw [hbody]
    trivial
  · let k := s.recorder.receive id (.deadline (min millis Hooks.longestMillis))
    have hsteady := hrest { s.pushScope with recorder := k }
    have hword := hemits { s.pushScope with recorder := k }
    unfold guarded guarding Action.andThen
    rw [hbody]
    show Outcome.Judged timed id _ s.recorder
      (((((r.execAll rest { s.pushScope with recorder := k }).mapState State.popScope).andThen
        Pure.pure (passOn errors id))).andThen _ _)
    cases ho : r.execAll rest { s.pushScope with recorder := k } with
    | done flow s' =>
        rw [ho] at hsteady hword
        rcases hword with ⟨w, hevents, hw⟩
        exact judged_exit hid hsteady hevents hw.bracketed
    | thrown t s' =>
        rw [ho] at hsteady hword
        rcases hword with ⟨w, hevents, hw⟩
        cases errors with
        | false => exact judged_exit hid hsteady hevents hw.bracketed
        | true =>
            have hlater := hsteady.trans (Recorder.later_receive (.failed (.error t))
              (fun h => nomatch h) (fun _ h => nomatch h) timed s'.recorder id)
            have hfailed : (s'.recorder.receive id (.failed (.error t))).events =
                k.events ++ (w ++ [.failed id (.error t)]) := by
              rw [Recorder.events_receive, ← List.append_assoc]
              exact congrArg (· ++ _) hevents
            exact judged_exit hid hlater hfailed
              (hw.bracketed.append (.single rfl rfl))
    | fault _ _ | exhausted => trivial

theorem Steady.ifNormal {x : Action Flow} (hx : Steady timed x) (flow : Flow) :
    Steady timed (ifNormal x flow) := by
  cases flow with
  | normal => exact hx
  | returned _ | broke _ | continued _ => exact .pure _

/-! ### Whole wrappers -/

include hp hr in
theorem steady_entering (params : List Param) : Steady timed (r.exec (hooks.entering id params)) := by
  intro s
  have henter := exec_entering_entered hp hr params id s
  cases ho : r.exec (hooks.entering id params) s with
  | done flow s' =>
      rw [ho] at henter
      rcases henter with ⟨-, names, values, hs'⟩
      show s.recorder.Later timed s'.recorder
      rw [hs']
      exact Recorder.later_receive (.entering names values) (fun h => nomatch h)
        (fun _ h => nomatch h) timed s.recorder id
  | thrown t s' =>
      rw [ho] at henter
      exact absurd henter not_false
  | fault _ _ | exhausted => trivial

def timedBody (hooks : Hooks) (id : String) (millis : Option UInt64) (rest : List Stmt) :
    List Stmt :=
  (millis.map (hooks.timeout id)).toList ++ rest

include hp hr in
theorem steady_wrapped (params : List Param) {millis : Option UInt64}
    (hmillis : millis.isSome = true ↔ id ∈ timed) {rest : List Stmt}
    (hrest : Steady timed (r.execAll rest)) (hemits : Emits errors (some id) (r.execAll rest)) :
    Steady timed (r.execAll (wrapped hooks id params errors (timedBody hooks id millis rest))) := by
  apply Steady.of_within (execAll_wrapped_within hp hr params errors id _)
  apply Steady.bind
  · exact steady_entering hp hr params
  · intro flow
    apply Steady.ifNormal
    cases millis with
    | none =>
        have hid : id ∉ timed := fun h => absurd (hmillis.mpr h) (by simp)
        exact steady_guarded hid fun s => (hrest s.pushScope).mapState fun _ => rfl
    | some millis =>
        intro s
        have hjudged := judged_guarded hp hr (hmillis.mp rfl) millis hrest hemits s
        show Outcome.Keeps timed s.recorder
          (guarded r errors id (hooks.timeout id millis :: rest) s)
        cases ho : guarded r errors id (hooks.timeout id millis :: rest) s with
        | done _ _ | thrown _ _ =>
            rw [ho] at hjudged
            exact hjudged.later
        | fault _ _ | exhausted => trivial

/-- The outcome of a wrapper with a deadline: the entry, the deadline, what the activation
does, and the judgement of the deadline right before the exit. -/
def Outcome.JudgedEntry {α : Type} (id : String) (millis : UInt64) (before : Recorder) :
    Outcome α → Prop
  | .done _ s | .thrown _ s => ∃ values inner,
      s.events = before.events ++ .entering id values :: .deadlineSet id millis :: (inner ++
        ((if millis.toNat < s.recorder.clock - before.clock then [.timedOut id millis] else [])
          ++ [.exiting id])) ∧
      Bracketed (some id) inner ∧ ∀ e ∈ directEvents inner, e.isTimedOut = false
  | .fault _ _ | .exhausted => True

include hp hr in
theorem judgedEntry_wrapped (params : List Param) (hid : id ∈ timed) (millis : UInt64)
    {rest : List Stmt} (hrest : Steady timed (r.execAll rest))
    (hemits : Emits errors (some id) (r.execAll rest)) (s : State) :
    (r.execAll (wrapped hooks id params errors (timedBody hooks id (some millis) rest))
      s).JudgedEntry id (min millis Hooks.longestMillis) s.recorder := by
  rcases execAll_wrapped_within hp hr params errors id (timedBody hooks id (some millis) rest) s
    with hx | hx
  · rw [hx]
    trivial
  · rw [hx]
    have henter := exec_entering_entered hp hr params id s
    show (Action.bind _ _ s).JudgedEntry id _ s.recorder
    unfold Action.bind
    cases ho : r.exec (hooks.entering id params) s with
    | done flow s' =>
        rw [ho] at henter
        rcases henter with ⟨rfl, names, values, hs'⟩
        have hjudged := judged_guarded hp hr hid millis hrest hemits s'
        show Outcome.JudgedEntry id _ s.recorder
          (guarded r errors id (hooks.timeout id millis :: rest) s')
        cases ho' : guarded r errors id (hooks.timeout id millis :: rest) s' with
        | done _ s'' | thrown _ s'' =>
            rw [ho'] at hjudged
            rcases hjudged.word with ⟨inner, hevents, hinner⟩
            refine ⟨names.zip values, inner, ?_, hinner⟩
            show s''.recorder.events = _
            rw [hevents, hs', Recorder.events_receive, Recorder.clock_receive,
              List.append_assoc]
            rfl
        | fault _ _ | exhausted => trivial
    | thrown t s' =>
        rw [ho] at henter
        exact absurd henter not_false
    | fault _ _ | exhausted => trivial

end

/-! ## Punctual programs -/

/-- The body of a method: without deadlines, or a wrapper with a deadline exactly when the
method is timed. -/
inductive PunctualBody (hooks : Hooks) (errors : Bool) (timed : List String) :
    List Stmt → Prop where
  | plain {body : List Stmt} :
      (∀ s ∈ body, Timeless hooks.runtimeClass s) → PunctualBody hooks errors timed body
  | woven {id : String} {params : List Param} {front : Option Expr} {millis : Option UInt64}
      {rest : List Stmt} :
      (∀ e ∈ front, TimelessExpr hooks.runtimeClass e) →
      (∀ s ∈ rest, Timeless hooks.runtimeClass s) →
      (∀ s ∈ rest, Calm hooks.runtimeClass (some id) s) →
      (millis.isSome = true ↔ id ∈ timed) →
        PunctualBody hooks errors timed
          (front.toList.map .expr ++
            wrapped hooks id params errors (timedBody hooks id millis rest))

structure Punctual (hooks : Hooks) (errors : Bool) (timed : List String) (p : Program) :
    Prop where
  orderly : Orderly hooks errors p
  fields : ∀ c ∈ p.unit.classes, ∀ f ∈ c.fields, ∀ e ∈ f.init,
    TimelessExpr hooks.runtimeClass e
  methods : ∀ c ∈ p.unit.classes, ∀ m ∈ c.methods, ∀ body ∈ m.body,
    PunctualBody hooks errors timed body

section

variable {hooks : Hooks} {errors : Bool} {timed : List String} {p : Program}
variable (hp : Punctual hooks errors timed p) {r : Evaluator} (hr : Approximates p r)
variable (hemits : EmitsCalm hooks.runtimeClass errors r)
variable (h : SteadyEvaluator hooks.runtimeClass timed r)

include hp hr hemits h

theorem steady_body {body : List Stmt} (hbody : PunctualBody hooks errors timed body) :
    Steady timed (r.execAll body) := by
  cases hbody with
  | plain hplain => exact h.execAll hplain
  | @woven id params front millis rest hfront hrest hcalm hmillis =>
      rw [Evaluator.execAll_append]
      apply Steady.bind
      · apply h.execAll
        intro s hs
        rcases List.mem_map.mp hs with ⟨e, he, rfl⟩
        have hhere : HoldsHere (TimelessExpr hooks.runtimeClass) (.expr e) := by
          intro e' he'
          obtain rfl := List.mem_singleton.mp he'
          exact hfront e' (Option.mem_toList.mp he)
        exact (Stmt.every_leaf rfl).mpr hhere
      · intro flow
        apply Steady.ifNormal
        exact steady_wrapped hp.orderly.runtimeClass hr params hmillis (h.execAll hrest)
          (hemits.execAll hcalm)

theorem callees_steady :
    Callees (ι := Unit) (fun x => Steady timed (x ())) p (fun _ => .own) fun _ => r where
  use c hc := (closed_steady timed).useClass (r := fun _ => r) fun f hf e he =>
    h.eval e (hp.fields c hc f hf e he)
  run c hc m hm args _ := by
    apply (closed_steady timed).runMethod (r := fun _ => r)
    · exact (closed_steady timed).useClass (r := fun _ => r) fun f hf e he =>
        h.eval e (hp.fields c hc f hf e he)
    · intro body hbody frame
      exact (closed_steady timed).inFrame (x := fun _ => r.execAll body) frame
        (steady_body hp hr hemits h (hp.methods c hc m hm body hbody))

theorem steadyEvaluator_step :
    SteadyEvaluator hooks.runtimeClass timed ⟨evalStep p r, execStep r, iterateStep r⟩ where
  eval e he := by
    have hstep := (closed_steady timed).evalStep (callees_steady hp hr hemits h)
      (finish_steady timed) (e := e) (fun e' hm => h.eval e' (he.operand hm))
      fun hook args hcall => by
        subst hcall
        rw [hp.orderly.runtimeClass] at he
        have hargs : ∀ e' ∈ args, TimelessExpr hooks.runtimeClass e' := fun e' hm =>
          he.child (by simp [Expr.children, hm])
        apply (closed_steady timed).evalHook (r := fun _ => r)
        · exact fun e' hm => h.eval e' (hargs e' hm)
        · exact fun e' hm e'' hm' => h.eval e'' ((hargs e' hm).operand hm')
        · exact fun id names values => .record fun k =>
            Recorder.later_receive (.entering names values) (by simp) (by simp) timed k id
        · exact steady_callHook (he.here hook args rfl) timed
    simpa only [Program.withBodies_own] using hstep
  exec s hs :=
    (closed_steady timed).execStep (r := fun _ => r) (fun e hm => h.eval e (hs.exprs e hm))
      (fun t hm => h.exec t (hs.stmts t hm))
      fun loop hl label => h.iterate label loop (hs.startedLoop hl).1 (hs.startedLoop hl).2
  iterate label loop he hb := by
    have hround : Steady timed (loopRound r label loop (r.iterate label loop)) :=
      (closed_steady timed).loopRound (r := fun _ => r) (g := fun _ => r.iterate label loop)
        (fun e hm => h.eval e (he e hm)) (h.exec _ hb) (h.iterate label loop he hb)
    show Steady timed (iterateStep r label loop)
    rw [iterateStep_eq]
    exact hround

end

/-- In a punctual program every run keeps deadlines in order, with any bound. -/
theorem Punctual.steadyEvaluator {hooks : Hooks} {errors : Bool} {timed : List String}
    {p : Program} (hp : Punctual hooks errors timed p) (n : Nat) :
    SteadyEvaluator hooks.runtimeClass timed (p.evaluator n) := by
  induction n with
  | zero => exact ⟨fun _ _ _ => trivial, fun _ _ _ => trivial, fun _ _ _ _ _ => trivial⟩
  | succ n ih =>
      exact steadyEvaluator_step hp (approximates_evaluator p n) (hp.orderly.emitsCalm n) ih

theorem Punctual.steady_call {hooks : Hooks} {errors : Bool} {timed : List String}
    {p : Program} (hp : Punctual hooks errors timed p) (steps : Nat) (cls method : String)
    (args : List Value) : Steady timed (p.call steps cls method args) := by
  have hcall := callees_steady hp (approximates_evaluator p steps) (hp.orderly.emitsCalm steps)
    (hp.steadyEvaluator steps)
  have hfind := (closed_steady timed).call hcall cls method args
  simp only [Program.withBodies_own] at hfind
  exact hfind

/-- A run of a timed method that gets to its entry is judged at its own exit. -/
theorem Punctual.judgedEntry_runMethod {hooks : Hooks} {errors : Bool} {timed : List String}
    {p : Program} (hp : Punctual hooks errors timed p) (steps : Nat) (c : ClassDecl)
    (m : MethodDecl) {id : String} (hid : id ∈ timed) (params : List Param)
    (front : Option Expr) (millis : UInt64) {rest : List Stmt}
    (hrest : ∀ s ∈ rest, Timeless hooks.runtimeClass s)
    (hcalm : ∀ s ∈ rest, Calm hooks.runtimeClass (some id) s) (args : List Value) (s : State) :
    match runMethod (p.evaluator steps) c
      { m with body := some (front.toList.map .expr) } args s with
    | .done _ s₀ => (runMethod (p.evaluator steps) c
        { m with body := some (front.toList.map .expr ++ wrapped hooks id params errors
          (timedBody hooks id (some millis) rest)) } args s).JudgedEntry id
            (min millis Hooks.longestMillis) s₀.recorder
    | .thrown _ _ | .fault _ _ | .exhausted => True := by
  have hr := approximates_evaluator p steps
  have hrun := runMethod_front hr c m front
    (wrapped hooks id params errors (timedBody hooks id (some millis) rest)) args s
  cases ho : runMethod (p.evaluator steps) c
      { m with body := some (front.toList.map .expr) } args s with
  | done value s₀ =>
      rw [ho] at hrun
      rcases hrun with ⟨s₁, hs, hrun⟩
      have hjudged := judgedEntry_wrapped hp.orderly.runtimeClass hr params hid millis
        ((hp.steadyEvaluator steps).execAll hrest) ((hp.orderly.emitsCalm steps).execAll hcalm) s₁
      rw [hs] at hjudged
      show Outcome.JudgedEntry id _ s₀.recorder _
      rw [hrun]
      cases ho' : (p.evaluator steps).execAll (wrapped hooks id params errors
          (timedBody hooks id (some millis) rest)) s₁ with
      | done flow s' =>
          rw [ho'] at hjudged
          have hpop : s'.popFrame.recorder = s'.recorder := recorder_popFrame s'
          cases flow with
          | normal | returned _ =>
              show ∃ values inner, s'.popFrame.recorder.events = _ ∧ _
              rw [hpop]
              exact hjudged
          | broke _ | continued _ => trivial
      | thrown t s' =>
          rw [ho'] at hjudged
          show ∃ values inner, s'.popFrame.recorder.events = _ ∧ _
          rw [recorder_popFrame]
          exact hjudged
      | fault _ _ | exhausted => trivial
  | thrown _ _ | fault _ _ | exhausted => trivial

end Eval

namespace Weave

open Code
open Code.Stmt (HoldsHere)
open Eval (Program Calm CalmExpr Timeless TimelessExpr Punctual PunctualBody timedBody)
open Trace (Event)

/-! ## Woven code is punctual -/

/-- Code that reports nothing outside of activations touches no deadline. -/
theorem timelessExpr_of_calm {runtimeClass : String} {e : Expr}
    (h : CalmExpr runtimeClass none e) : TimelessExpr runtimeClass e := by
  intro e' he' hook args hcall
  rcases h e' he' hook args hcall with ⟨_, hid, _⟩
  exact absurd hid (by simp)

theorem timelessExpr_of_avoids {runtimeClass : String} {e : Expr} (h : e.Avoids runtimeClass) :
    TimelessExpr runtimeClass e :=
  timelessExpr_of_calm (calmExpr_of_avoids h none)

theorem weavable_timelessExpr (w : Weaver) (id : String) :
    Weavable w id (TimelessExpr w.hooks.runtimeClass) :=
  Eval.weavable_withoutHooks w id (fun _ => by simp [Eval.deadlineHooks])
    fun _ => by simp [Eval.deadlineHooks]

namespace Weaver

def restBehindDeadline (w : Weaver) (s : Session) (body : List Stmt) : List Stmt :=
  let reporting := ((w.changed s (normalizeAll body) >>= w.returned s).run 0).1
  if s.decl.isConstructor then reporting.eraseP Stmt.isDelegation else reporting

theorem rest_eq (w : Weaver) (s : Session) (body : List Stmt) :
    w.rest s body = timedBody w.hooks s.id s.markers.timeout (w.restBehindDeadline s body) := by
  unfold rest innerBody restBehindDeadline timedBody deadline
  simp only
  split
  · rw [List.eraseP_append_right]
    intro t ht
    rcases Option.map_eq_some_iff.mp (Option.mem_toList.mp ht) with ⟨millis, -, rfl⟩
    simp [Hooks.timeout, Hooks.report, Hooks.call, Expr.callOn, Stmt.isDelegation,
      Expr.isDelegation]
  · rfl

theorem timeless_restBehindDeadline (w : Weaver) (s : Session) {body : List Stmt}
    (h : Stmt.EveryIn (HoldsHere (Expr.Avoids w.hooks.runtimeClass)) body) :
    ∀ t ∈ w.restBehindDeadline s body, Timeless w.hooks.runtimeClass t := by
  have hreporting := reporting_every (weavable_timelessExpr w s.id) fun t ht =>
    (h t ht).mono fun _ hq e he => timelessExpr_of_avoids (hq e he)
  intro t ht
  unfold restBehindDeadline at ht
  simp only at ht
  split at ht
  · exact hreporting t (List.mem_of_mem_eraseP ht)
  · exact hreporting t ht

def timedIds (w : Weaver) (u : CompilationUnit) : List String :=
  ((methodsOf u).map fun cm => w.session u cm.1 cm.2).filterMap fun s =>
    if w.decide s = .weave ∧ s.markers.timeout.isSome = true then some s.id else none

/-- Woven methods that share an identifier all have a deadline, or none of them has. -/
def DeadlinesAgree (w : Weaver) (u : CompilationUnit) : Prop :=
  ∀ cm ∈ methodsOf u, w.decide (w.session u cm.1 cm.2) = .weave →
    (w.session u cm.1 cm.2).id ∈ w.timedIds u → (w.methodMarkers cm.2).timeout.isSome = true

instance (w : Weaver) (u : CompilationUnit) : Decidable (w.DeadlinesAgree u) :=
  inferInstanceAs (Decidable (∀ cm ∈ methodsOf u, w.decide (w.session u cm.1 cm.2) = .weave →
    (w.session u cm.1 cm.2).id ∈ w.timedIds u →
      (w.methodMarkers cm.2).timeout.isSome = true))

end Weaver

theorem mem_methodsOf {u : CompilationUnit} {c : ClassDecl} {m : MethodDecl}
    (hc : c ∈ u.classes) (hm : m ∈ c.methods) : (c, m) ∈ methodsOf u :=
  List.mem_flatMap.mpr ⟨c, hc, List.mem_map.mpr ⟨m, hm, rfl⟩⟩

theorem mem_timedIds {w : Weaver} {u : CompilationUnit} {c : ClassDecl} {m : MethodDecl}
    (hc : c ∈ u.classes) (hm : m ∈ c.methods) (hdec : w.decide (w.session u c m) = .weave)
    (htimed : (w.methodMarkers m).timeout.isSome = true) :
    (w.session u c m).id ∈ w.timedIds u := by
  apply List.mem_filterMap.mpr
  refine ⟨w.session u c m, List.mem_map.mpr ⟨(c, m), mem_methodsOf hc hm, rfl⟩, ?_⟩
  exact if_pos ⟨hdec, htimed⟩

theorem punctualBody_bodyOf {w : Weaver} {s : Session} {body : List Stmt} {timed : List String}
    (h : Stmt.EveryIn (HoldsHere (Expr.Avoids w.hooks.runtimeClass)) body)
    (htimed : s.markers.timeout.isSome = true ↔ s.id ∈ timed) :
    PunctualBody w.hooks w.settings.traceErrors timed (w.bodyOf s body) := by
  rw [Weaver.bodyOf_eq, Weaver.rest_eq]
  apply PunctualBody.woven
  · intro e he
    exact timelessExpr_of_calm (calmExpr_front w s h e he)
  · exact w.timeless_restBehindDeadline s h
  · intro t ht
    apply calm_rest w s h
    rw [Weaver.rest_eq]
    exact List.mem_append_right _ ht
  · exact htimed

theorem punctual_bodies {w : Weaver} {u : CompilationUnit} (h : u.Avoids w.hooks.runtimeClass)
    (hagree : w.DeadlinesAgree u) :
    Punctual w.hooks w.settings.traceErrors (w.timedIds u) (w.program u) where
  orderly := orderly_bodies w h
  fields c' hc' f hf e he := timelessExpr_of_avoids (avoids_of_mem_fields h hc' hf he)
  methods c' hc' m' hm' body hbody := by
    rcases woven_of_mem_methods h hc' hm' hbody with
      hplain | ⟨c, hc, m, hm, former, hdec, hformer, rfl⟩
    · apply PunctualBody.plain
      intro t ht
      exact (hplain t ht).mono fun _ hq e he => timelessExpr_of_avoids (hq e he)
    · apply punctualBody_bodyOf hformer
      constructor
      · exact mem_timedIds hc hm hdec
      · exact hagree (c, m) (mem_methodsOf hc hm) hdec

/-! ## Deadlines of woven methods -/

/-- Each deadline is judged at the exit of the activation that set it, provided that woven
methods which share an identifier agree on having one.  An activation of a method with a
deadline sets it right behind its entry, and reports that it is missed right before its
exit, exactly when the time in between is longer; nowhere else does it report a missed
deadline.  For a method without deadline none is ever reported as missed. -/
theorem deadlines_judged_at_own_exit {w : Weaver} {u u' : CompilationUnit}
    {report : UnitReport} (hu : u.Avoids w.hooks.runtimeClass)
    (hw : w.weaveUnit u = .ok (u', report)) (hagree : w.DeadlinesAgree u) :
    (∀ c ∈ u.classes, ∀ m ∈ c.methods, ∀ c' reports m' methodReport millis,
      w.weaveClass u c = .ok (c', reports) →
      w.weaveMethod (w.session u c m) = .ok (m', methodReport) →
      methodReport.isWoven = true → (w.methodMarkers m).timeout = some millis →
      ∃ front rest,
        m'.body = some (front ++ w.hooks.entering (w.session u c m).id m.params :: rest) ∧
        ∀ steps args s,
          match Eval.runMethod ((⟨u', w.hooks.runtimeClass⟩ : Program).evaluator steps) c'
            { m' with body := some front } args s with
          | .done _ s₀ =>
              (Eval.runMethod ((⟨u', w.hooks.runtimeClass⟩ : Program).evaluator steps) c' m'
                args s).JudgedEntry (w.session u c m).id (min millis Hooks.longestMillis)
                  s₀.recorder
          | .thrown _ _ | .fault _ _ | .exhausted => True) ∧
    ∀ c ∈ u.classes, ∀ m ∈ c.methods, ∀ m' methodReport,
      w.weaveMethod (w.session u c m) = .ok (m', methodReport) →
      methodReport.isWoven = true → (w.methodMarkers m).timeout = none →
      ∀ steps cls method args (s : Eval.State),
        match (⟨u', w.hooks.runtimeClass⟩ : Program).call steps cls method args
          { s with recorder := .empty } with
        | .done _ s' | .thrown _ s' =>
            ∀ millis, Event.timedOut (w.session u c m).id millis ∉ s'.recorder.events
        | .fault _ _ | .exhausted => True := by
  have hprogram : (⟨u', w.hooks.runtimeClass⟩ : Program) = w.program u := weaveUnit_ok hw _
  have hpunctual := punctual_bodies hu hagree
  rw [hprogram]
  constructor
  · intro c hc m hm c' reports m' methodReport millis hc' hm' hwoven hmillis
    rcases bodies_of_isWoven hm' hwoven with ⟨body, hbody, rfl⟩
    have hdec := (weaveMethod_woven hm' hwoven).1
    have havoid := (hu c hc).2 m hm body (Option.mem_toList.mpr hbody)
    have htimed : (w.session u c m).id ∈ w.timedIds u :=
      mem_timedIds hc hm hdec (by rw [hmillis]; rfl)
    have hmarkers : (w.session u c m).markers.timeout = some millis := hmillis
    rw [Weaver.bodyOf_eq, Weaver.rest_eq, hmarkers]
    refine ⟨_, _, rfl, fun steps args s => ?_⟩
    apply hpunctual.judgedEntry_runMethod steps c' m htimed m.params
    · exact w.timeless_restBehindDeadline _ havoid
    · intro t ht
      apply calm_rest w _ havoid
      rw [Weaver.rest_eq]
      exact List.mem_append_right _ ht
  · intro c hc m hm m' methodReport hm' hwoven hnone steps cls method args s
    have hdec := (weaveMethod_woven hm' hwoven).1
    have huntimed : (w.session u c m).id ∉ w.timedIds u := by
      intro hmem
      have hsome := hagree (c, m) (mem_methodsOf hc hm) hdec hmem
      simp only [hnone] at hsome
      exact absurd hsome (by simp)
    have hsteady := hpunctual.steady_call steps cls method args { s with recorder := .empty }
    cases ho : (w.program u).call steps cls method args { s with recorder := .empty } with
    | done _ s' | thrown _ s' =>
        rw [ho] at hsteady
        intro millis hmem
        rcases hsteady.word with ⟨v, hevents, hv⟩
        have hv' : s'.recorder.events = v := hevents
        rw [hv'] at hmem
        rcases hv.may_of_mem hmem with hid | ⟨d, hd, -⟩
        · exact huntimed hid
        · exact absurd hd List.not_mem_nil
    | fault _ _ | exhausted => trivial

def timedRun (body : List Stmt) : MethodDecl :=
  { ((MethodDecl.procedure "run").withParam "amount" "int").withBody body with
    annotations := [(Annot.marker "Timeout").withArg "value" (.int 5)] }

def pauseMethod : MethodDecl :=
  timedRun [.expr (.callOn (.name "Thread") "sleep" [.name "amount"])]

def pauseClass : ClassDecl :=
  (ClassDecl.empty "Task").withMethod pauseMethod

def pauseUnit : CompilationUnit where
  package := none
  classes := [pauseClass]

theorem deadlines_judged_at_own_exit_pause :
    pauseUnit.Avoids (Weaver.ofSettings .standard).hooks.runtimeClass ∧
    (Weaver.ofSettings .standard).DeadlinesAgree pauseUnit ∧
    ∃ u' report c' reports m' methodReport front rest,
      (Weaver.ofSettings .standard).weaveUnit pauseUnit = .ok (u', report) ∧
      (Weaver.ofSettings .standard).weaveClass pauseUnit pauseClass = .ok (c', reports) ∧
      (Weaver.ofSettings .standard).weaveMethod ((Weaver.ofSettings .standard).session pauseUnit
        pauseClass pauseMethod) = .ok (m', methodReport) ∧
      m'.body = some (front ++ (Weaver.ofSettings .standard).hooks.entering "Task.run"
        pauseMethod.params :: rest) ∧
      ∀ steps args s,
        match Eval.runMethod ((⟨u', (Weaver.ofSettings .standard).hooks.runtimeClass⟩ :
          Program).evaluator steps) c' { m' with body := some front } args s with
        | .done _ s₀ =>
            (Eval.runMethod ((⟨u', (Weaver.ofSettings .standard).hooks.runtimeClass⟩ :
              Program).evaluator steps) c' m' args s).JudgedEntry "Task.run" 5 s₀.recorder
        | .thrown _ _ | .fault _ _ | .exhausted => True := by
  have hu : pauseUnit.Avoids (Weaver.ofSettings .standard).hooks.runtimeClass := by decide
  have hagree : (Weaver.ofSettings .standard).DeadlinesAgree pauseUnit := by decide
  have hw : ∃ result, (Weaver.ofSettings .standard).weaveUnit pauseUnit = .ok result := ⟨_, rfl⟩
  rcases hw with ⟨⟨u', report⟩, hw⟩
  have hclass : pauseClass ∈ pauseUnit.classes := List.mem_singleton_self _
  have hmethod : pauseMethod ∈ pauseClass.methods := List.mem_singleton_self _
  rcases exists_woven hw hclass hmethod rfl with ⟨c', reports, m', methodReport, hc, hm, hwoven⟩
  rcases (deadlines_judged_at_own_exit hu hw hagree).1 pauseClass hclass pauseMethod hmethod c'
    reports m' methodReport 5 hc hm hwoven rfl with ⟨front, rest, hbody, hjudged⟩
  exact ⟨hu, hagree, u', report, c', reports, m', methodReport, front, rest, hw, hc, hm, hbody,
    hjudged⟩

/-- Two methods of one name: the one with a deadline calls the one without, which pauses. -/
def overloadUnit : CompilationUnit where
  package := none
  classes :=
    [(ClassDecl.empty "Task")
      |>.withMethod (timedRun [.expr (.callOwn "run" [])])
      |>.withMethod ((MethodDecl.procedure "run").withBody
          [.expr (.callOn (.name "Thread") "sleep" [.int 50])])]

def logged {α : Type} : Eval.Outcome α → List LogEvent
  | .done _ s | .thrown _ s | .fault _ s => s.recorder.log
  | .exhausted => []

/-- The inner exit is that of the method without deadline, and it judges the deadline that
the outer one has set; the outer exit finds none. -/
theorem overload_exit_judges_caller_deadline :
    overloadUnit.Avoids (Weaver.ofSettings .standard).hooks.runtimeClass ∧
    ¬ (Weaver.ofSettings .standard).DeadlinesAgree overloadUnit ∧
    ∃ u' report, (Weaver.ofSettings .standard).weaveUnit overloadUnit = .ok (u', report) ∧
      (logged ((⟨u', (Weaver.ofSettings .standard).hooks.runtimeClass⟩ : Program).call 40 "Task"
        "run" [.int 1] Eval.State.initial)).map (·.message) =
          ["invoking", "entering", "invoking", "entering", "timeout exceeded", "exiting",
            "exiting"] := by
  have hw : ∃ result, (Weaver.ofSettings .standard).weaveUnit overloadUnit = .ok result :=
    ⟨_, rfl⟩
  rcases hw with ⟨⟨u', report⟩, hw⟩
  refine ⟨by decide, by decide, u', report, hw, ?_⟩
  rw [weaveUnit_ok hw]
  decide +kernel

end Weave
end TraceWeaving
