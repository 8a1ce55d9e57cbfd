import TraceWeaving.Proofs.Weave.Effect

/-!
# Activations of woven methods

What a run of a wrapper reports: the entry, the word of the body, the error that leaves
the body if errors are traced, a missed deadline, and the exit.
-/

namespace TraceWeaving
namespace Eval

open Code
open Weave (wrapped)
open Trace (Throwable Report Event Recorder Bracketed Cut directEvents)

/-! ## Words of whole activations -/

/-- The events that report an error which leaves an activation. -/
def failureEvents (errors : Bool) (id : String) : Option Throwable → List Event
  | some t => if errors then [.failed id (.error t)] else []
  | none => []

def Late (id : String) (w : List Event) : Prop :=
  w = [] ∨ ∃ millis, w = [.timedOut id millis]

/-- The word of a whole activation, which a thrown value may have left. -/
def Activation (errors : Bool) (id : String) (failure : Option Throwable) (w : List Event) :
    Prop :=
  ∃ values inner late, Emission errors (some id) inner ∧ Late id late ∧
    w = .entering id values ::
      (inner ++ (failureEvents errors id failure ++ (late ++ [.exiting id])))

theorem Late.bracketed {id : String} {w : List Event} (h : Late id w) :
    Bracketed (some id) w := by
  rcases h with rfl | ⟨millis, rfl⟩
  · exact .nil
  · exact .single rfl rfl

theorem Late.not_failed {id : String} {w : List Event} (h : Late id w) :
    ∀ e ∈ w, e.isFailed = false := by
  rcases h with rfl | ⟨millis, rfl⟩
  · exact fun _ he => absurd he List.not_mem_nil
  · intro e he
    obtain rfl := List.mem_singleton.mp he
    rfl

theorem late_eventsOf_exiting (r : Recorder) (id : String) :
    ∃ late, Late id late ∧ r.eventsOf id .exiting = late ++ [.exiting id] := by
  unfold Recorder.eventsOf
  cases r.missed? id with
  | none => exact ⟨[], .inl rfl, rfl⟩
  | some d => exact ⟨[.timedOut id d.millis], .inr ⟨d.millis, rfl⟩, rfl⟩

theorem bracketed_failureEvents (errors : Bool) (id : String) (failure : Option Throwable) :
    Bracketed (some id) (failureEvents errors id failure) := by
  unfold failureEvents
  split
  · split
    · exact .single rfl rfl
    · exact .nil
  · exact .nil

theorem failureEvents_traced {errors : Bool} {id : String} {failure : Option Throwable} :
    ∀ e ∈ failureEvents errors id failure, errors = true := by
  intro e he
  unfold failureEvents at he
  split at he
  · split at he
    · assumption
    · exact absurd he List.not_mem_nil
  · exact absurd he List.not_mem_nil

/-- Seen from outside, an activation reports no error of its own. -/
theorem Activation.emission {errors : Bool} {id : String} {failure : Option Throwable}
    {w : List Event} (h : Activation errors id failure w) : Emission errors none w := by
  rcases h with ⟨values, inner, late, hinner, hlate, rfl⟩
  have hbody : Bracketed (some id) (inner ++ (failureEvents errors id failure ++ late)) :=
    hinner.bracketed.append ((bracketed_failureEvents errors id failure).append hlate.bracketed)
  have hword : inner ++ (failureEvents errors id failure ++ (late ++ [.exiting id])) =
      (inner ++ (failureEvents errors id failure ++ late)) ++ [.exiting id] := by
    simp only [List.append_assoc]
  rw [hword]
  refine ⟨.activation hbody, fun e he => ?_, fun e he hf => ?_⟩
  · rw [hbody.directEvents_activation] at he
    exact absurd he List.not_mem_nil
  · simp only [List.mem_cons, List.mem_append, List.not_mem_nil, or_false] at he
    rcases he with rfl | (he | he | he) | rfl
    · exact absurd hf (by simp [Event.isFailed])
    · exact hinner.nested e he hf
    · exact failureEvents_traced e he
    · exact absurd hf (by simp [hlate.not_failed e he])
    · exact absurd hf (by simp [Event.isFailed])

/-- The outcome of a wrapper that was started when the given events were recorded. -/
def Outcome.Activated {α : Type} (errors : Bool) (id : String) (before : List Event) :
    Outcome α → Prop
  | .done _ s => ∃ w, s.events = before ++ w ∧ Activation errors id none w
  | .thrown t s => ∃ w, s.events = before ++ w ∧ Activation errors id (some t) w
  | .fault _ s => ∃ w, s.events = before ++ w ∧ Broken errors none w
  | .exhausted => True

/-! ## Bounded evaluators -/

/-- An evaluator that goes along with a program until it runs out of steps. -/
structure Approximates (p : Program) (r : Evaluator) : Prop where
  below : Evaluator.Has (ι := Bool) Below fun unbounded => if unbounded then p.meaning else r
  rises : ∀ s, Within (r.exec s) (execStep r s)

theorem approximates_evaluator (p : Program) (n : Nat) : Approximates p (p.evaluator n) where
  below := p.evaluator_below n
  rises s := by
    have h := (p.regular_rules.within_below n).exec s
    rw [p.within_rules n] at h
    intro st
    rcases h st with h | h
    · exact .inl h
    · refine .inr (h.trans ?_)
      show (p.rules.within (n + 1)).exec s st = execStep (p.evaluator n) s st
      rw [← p.within_rules n]
      rfl

/-! ## The wrapper -/

def passOn (errors : Bool) (id : String) (t : Throwable) : Action Flow :=
  if errors then Action.record id (.failed (.error t)) >>= fun _ => Action.raiseValue t
  else Action.raiseValue t

/-- Does some work, passes on what it throws, and records the exit on every way out. -/
def guarding (errors : Bool) (id : String) (x : Action Flow) : Action Flow :=
  (x.andThen Pure.pure (passOn errors id)).andThen
    (fun flow => Action.record id .exiting >>= fun _ => Pure.pure flow)
    (fun t => Action.record id .exiting >>= fun _ => Action.raiseValue t)

theorem ClosedHere.guarding {ι : Type} {P : ∀ {α : Type}, (ι → Action α) → Prop}
    (h : ClosedHere P) {errors : ι → Bool} {id : String}
    (hpass : ∀ t, P fun i => passOn (errors i) id t)
    (hexit : P fun _ => Action.record id .exiting) {x : ι → Action Flow} (hx : P x) :
    P fun i => guarding (errors i) id (x i) :=
  h.andThen (h.andThen hx h.pure hpass) (fun flow => h.bind hexit fun _ => h.pure flow)
    fun t => h.bind hexit fun _ => h.raise t

def guarded (r : Evaluator) (errors : Bool) (id : String) (inner : List Stmt) : Action Flow :=
  guarding errors id (r.execBlock inner)

namespace Hosts

variable {p : Program} {E : Evaluator} (hE : Hosts p E)
variable {hooks : Hooks} (hp : p.runtimeClass = hooks.runtimeClass)

include hE hp

theorem execHandler_passOn (errors : Bool) (id : String) :
    execHandler E (if errors then [hooks.onErrorClause id] else []) = passOn errors id := by
  funext t
  cases errors with
  | true => exact hE.execHandler_onError hp id t
  | false => rfl

theorem execTry_wrapper (errors : Bool) (id : String) (inner : List Stmt) :
    execTry E inner (if errors then [hooks.onErrorClause id] else [])
        (some [hooks.exiting id]) = guarded E errors id inner := by
  rw [execTry_cleanup_eq, execCatching_eq, hE.execHandler_passOn hp]
  unfold guarded guarding
  congr 1
  · funext flow
    exact hE.execBefore_exiting hp id _
  · funext t
    exact hE.execBefore_exiting hp id _

theorem execAll_wrapped (params : List Param) (errors : Bool) (id : String)
    (inner : List Stmt) :
    E.execAll (wrapped hooks id params errors inner) =
      E.exec (hooks.entering id params) >>= ifNormal (guarded E errors id inner) := by
  unfold wrapped
  rw [Evaluator.execAll_cons, Evaluator.execAll_singleton, ← hE.execTry_wrapper hp,
    hE.exec (.tryCatch _ _ _)]
  rfl

end Hosts

section

variable {p : Program} {hooks : Hooks} (hp : p.runtimeClass = hooks.runtimeClass)
variable {r : Evaluator} (hr : Approximates p r)

include hp

include hr

theorem execTry_wrapper_within (errors : Bool) (id : String) (inner : List Stmt) :
    Within
      (execTry r inner (if errors then [hooks.onErrorClause id] else []) (some [hooks.exiting id]))
      (guarded r errors id inner) := by
  have hhandler : ∀ t, Within
      (execHandler r (if errors then [hooks.onErrorClause id] else []) t) (passOn errors id t) := by
    intro t
    rw [← (hosts_meaning p).execHandler_passOn hp errors id]
    exact closed_below.execHandler (fun _ _ s _ => hr.below.exec s) t
  have hexit : ∀ outcome : Action Flow, Within (execBefore r [hooks.exiting id] outcome)
      (Action.record id .exiting >>= fun _ => outcome) := by
    intro outcome
    rw [← (hosts_meaning p).execBefore_exiting hp id outcome]
    exact closed_below.execBefore (o := fun _ => outcome) (fun s _ => hr.below.exec s)
      (.const outcome)
  rw [execTry_cleanup_eq, execCatching_eq]
  exact ((Within.refl _).andThen (fun _ => .refl _) hhandler).andThen (fun _ => hexit _)
    fun _ => hexit _

theorem execAll_wrapped_within (params : List Param) (errors : Bool) (id : String)
    (inner : List Stmt) :
    Within (r.execAll (wrapped hooks id params errors inner))
      (r.exec (hooks.entering id params) >>= ifNormal (guarded r errors id inner)) := by
  have htry : Within (r.execAll
      [.tryCatch inner (if errors then [hooks.onErrorClause id] else []) (some [hooks.exiting id])])
      (guarded r errors id inner) := by
    rw [Evaluator.execAll_singleton]
    exact (hr.rises _).trans (execTry_wrapper_within hp hr errors id inner)
  unfold wrapped
  rw [Evaluator.execAll_cons]
  refine (Within.refl _).bind fun flow => ?_
  cases flow with
  | normal => exact htry
  | returned _ | broke _ | continued _ => exact .refl _

theorem exec_entering_entered (params : List Param) (id : String) (s : State) :
    (r.exec (hooks.entering id params) s).Entered id s.recorder := by
  rcases hr.below.exec (hooks.entering id params) s with h | h
  · rw [show r.exec (hooks.entering id params) s = .exhausted from h]
    trivial
  · rw [show r.exec (hooks.entering id params) s = p.meaning.exec (hooks.entering id params) s
      from h]
    exact exec_entering_outcome p hp id params s

omit hp hr in
theorem events_record (id : String) (report : Report) (s : State) :
    State.events { s with recorder := s.recorder.receive id report } =
      s.events ++ s.recorder.eventsOf id report :=
  Recorder.events_receive _ _ _

omit hp hr in
/-- The exit completes the word of an activation, behind the report of an error that leaves
it. -/
theorem exists_activation_of_exiting {errors : Bool} {id : String} {failure : Option Throwable}
    {before w : List Event} {values : List (String × Trace.Snapshot)} {s : State}
    (hw : Emission errors (some id) w)
    (hs : s.events = before ++ .entering id values :: (w ++ failureEvents errors id failure)) :
    ∃ v, State.events { s with recorder := s.recorder.receive id .exiting } = before ++ v ∧
      Activation errors id failure v := by
  rcases late_eventsOf_exiting s.recorder id with ⟨late, hlate, hexit⟩
  refine ⟨_, ?_, values, w, late, hw, hlate, rfl⟩
  rw [events_record, hexit, hs]
  simp only [List.append_assoc, List.cons_append]

omit hp hr in
/-- After the entry, a guarded body completes the word of its activation. -/
theorem guarded_outcome {errors : Bool} {id : String} {inner : List Stmt}
    (hinner : Emits errors (some id) (r.execBlock inner)) {before : List Event}
    {values : List (String × Trace.Snapshot)} {s : State}
    (hs : s.events = before ++ [.entering id values]) :
    (guarded r errors id inner s).Activated errors id before := by
  have hbody := hinner s
  unfold guarded guarding Action.andThen
  cases ho : r.execBlock inner s with
  | done flow s' =>
      rw [ho] at hbody
      rcases hbody with ⟨w, hs', hw⟩
      have hword : s'.events =
          before ++ .entering id values :: (w ++ failureEvents errors id none) := by
        simp [hs', hs, failureEvents]
      exact exists_activation_of_exiting hw hword
  | thrown t s' =>
      rw [ho] at hbody
      rcases hbody with ⟨w, hs', hw⟩
      cases errors with
      | false =>
          have hword : s'.events =
              before ++ .entering id values :: (w ++ failureEvents false id (some t)) := by
            simp [hs', hs, failureEvents]
          exact exists_activation_of_exiting hw hword
      | true =>
          let kept : State := { s' with recorder := s'.recorder.receive id (.failed (.error t)) }
          have hkept : kept.events =
              before ++ .entering id values :: (w ++ failureEvents true id (some t)) := by
            rw [events_record, hs', hs]
            simp [failureEvents, Recorder.eventsOf]
          exact exists_activation_of_exiting hw hkept
  | fault e s' =>
      rw [ho] at hbody
      rcases hbody with ⟨w, hs', hw⟩
      refine ⟨.entering id values :: w, ?_, .activation hw.cut, fun e he hf => ?_⟩
      · show s'.events = _
        rw [hs', hs]
        simp only [List.append_assoc, List.cons_append, List.nil_append]
      · rcases List.mem_cons.mp he with rfl | he
        · exact absurd hf (by simp [Event.isFailed])
        · exact hw.nested e he hf
  | exhausted => trivial

omit hp hr in
theorem Outcome.Activated.of_within {α : Type} {errors : Bool} {id : String} {x y : Action α}
    (h : Within x y) {s : State} (hy : (y s).Activated errors id s.events) :
    (x s).Activated errors id s.events := by
  rcases h s with hx | hx
  · rw [hx]
    trivial
  · rw [hx]
    exact hy

theorem wrapped_outcome (params : List Param) {errors : Bool} {id : String} {inner : List Stmt}
    (hinner : Emits errors (some id) (r.execBlock inner)) (s : State) :
    (r.execAll (wrapped hooks id params errors inner) s).Activated errors id s.events := by
  refine .of_within (execAll_wrapped_within hp hr params errors id inner) ?_
  have henter := exec_entering_entered hp hr params id s
  show (Action.bind _ _ s).Activated errors id s.events
  unfold Action.bind
  cases ho : r.exec (hooks.entering id params) s with
  | done flow s' =>
      rw [ho] at henter
      rcases henter with ⟨rfl, names, values, hs'⟩
      have hevents : s'.events = s.events ++ [.entering id (names.zip values)] := by
        show s'.recorder.events = _
        rw [hs', Recorder.events_receive]
        rfl
      exact guarded_outcome hinner hevents
  | thrown t s' =>
      rw [ho] at henter
      exact absurd henter not_false
  | fault e s' =>
      rw [ho] at henter
      have hevents : s'.events = s.events := congrArg Recorder.events henter
      exact ⟨[], by rw [List.append_nil]; exact hevents, Emission.nil.broken⟩
  | exhausted => trivial

end

end Eval
end TraceWeaving
