import TraceWeaving.Proofs.Eval.Limit
import TraceWeaving.Proofs.Trace.Bracket

/-!
# Evaluation and the recorder

The rules of evaluation never read the recorder.  Two runs that start in states which
differ in the recorder alone therefore go the same way, and their recorders stay related
as long as what is recorded keeps them so.

What is recorded may depend on the rest of the state.  A run is therefore followed under a
condition on the heap and the class of the running method, which it has to keep.
-/

namespace TraceWeaving
namespace Eval

open Code
open Trace (Throwable Report Recorder Event)

structure Kept (κ : Recorder → Recorder → Prop) : Prop where
  invoking : ∀ {k k'}, κ k k' → ∀ cls method,
    κ (k.keepInvoking cls method) (k'.keepInvoking cls method)
  advance : ∀ {k k'}, κ k k' → ∀ millis, κ (k.advance millis) (k'.advance millis)
  receive : ∀ {k k'}, κ k k' → ∀ method report,
    κ (k.receive method report) (k'.receive method report)

theorem kept_true : Kept fun _ _ => True where
  invoking _ _ _ := trivial
  advance _ _ := trivial
  receive _ _ _ := trivial

theorem kept_eq : Kept (Eq (α := Recorder)) where
  invoking h _ _ := by rw [h]
  advance h _ := by rw [h]
  receive h _ _ := by rw [h]

/-- Recorders that differ in events of a kind only. -/
structure SameBut (drop : Event → Bool) (k k' : Recorder) : Prop where
  clock : k.clock = k'.clock
  deadlines : k.deadlines = k'.deadlines
  events : k.events.filter (!drop ·) = k'.events.filter (!drop ·)

namespace SameBut

variable {drop : Event → Bool} {k k' k'' : Recorder}

theorem refl (k : Recorder) : SameBut drop k k :=
  ⟨rfl, rfl, rfl⟩

theorem symm (h : SameBut drop k k') : SameBut drop k' k :=
  ⟨h.clock.symm, h.deadlines.symm, h.events.symm⟩

theorem trans (h : SameBut drop k k') (h' : SameBut drop k' k'') : SameBut drop k k'' :=
  ⟨h.clock.trans h'.clock, h.deadlines.trans h'.deadlines, h.events.trans h'.events⟩

theorem kept (drop : Event → Bool) : Kept (SameBut drop) where
  invoking h cls method := by
    refine ⟨h.clock, h.deadlines, ?_⟩
    rw [Recorder.events_keepInvoking, Recorder.events_keepInvoking]
    exact h.events
  advance h millis := ⟨congrArg (· + millis) h.clock, h.deadlines, h.events⟩
  receive {k k'} h method report := by
    have hmissed : k.missed? method = k'.missed? method := by
      unfold Recorder.missed?
      rw [h.clock, h.deadlines]
    have hevents : k.eventsOf method report = k'.eventsOf method report := by
      cases report <;> simp only [Recorder.eventsOf, hmissed]
    refine ⟨?_, ?_, ?_⟩
    · rw [Recorder.clock_receive, Recorder.clock_receive]
      exact h.clock
    · rw [Recorder.deadlines_receive, Recorder.deadlines_receive, h.clock, h.deadlines]
    · rw [Recorder.events_receive, Recorder.events_receive, List.filter_append,
        List.filter_append, hevents, h.events]

theorem receive_of_drop (h : SameBut drop k k') {method : String} {report : Report} {e : Event}
    (hevent : ∀ r : Recorder, r.eventsOf method report = [e])
    (hdeadlines : ∀ r : Recorder, (r.receive method report).deadlines = r.deadlines)
    (hdrop : drop e = true) : SameBut drop k (k'.receive method report) where
  clock := by
    rw [Recorder.clock_receive]
    exact h.clock
  deadlines := by
    rw [hdeadlines]
    exact h.deadlines
  events := by
    rw [Recorder.events_receive, hevent, List.filter_append, h.events]
    simp [hdrop]

end SameBut

def State.recording (s : State) (k : Recorder) : State :=
  { s with recorder := k }

/-- A condition on the heap and on the class of the running method. -/
abbrev Proviso :=
  Heap → String → Prop

def State.Meets (I : Proviso) (s : State) : Prop :=
  I s.heap s.frame.cls

section

variable {I : Proviso} {κ : Recorder → Recorder → Prop} {α β : Type}

/-- An outcome that was reached is matched by the same outcome of another run; the
recorders of both are related.  Faults may differ in what they name. -/
def Outcome.Matched (I : Proviso) (κ : Recorder → Recorder → Prop) (o o' : Outcome α) : Prop :=
  match o with
  | .done a s => s.Meets I ∧ ∃ k, o' = .done a (s.recording k) ∧ κ s.recorder k
  | .thrown t s => s.Meets I ∧ ∃ k, o' = .thrown t (s.recording k) ∧ κ s.recorder k
  | .fault _ s => ∃ f k, o' = .fault f (s.recording k) ∧ κ s.recorder k
  | .exhausted => True

/-- The second member of a family goes the way of the first one as long as that has steps
left, when their recorders are related. -/
def Followed (I : Proviso) (κ : Recorder → Recorder → Prop) (x : Bool → Action α) : Prop :=
  ∀ s k, s.Meets I → κ s.recorder k → (x false s).Matched I κ (x true (s.recording k))

theorem Outcome.Matched.mapState {J : Proviso} {o o' : Outcome α} (h : o.Matched I κ o')
    {f : State → State} (hmeets : ∀ s, s.Meets I → (f s).Meets J)
    (hkept : ∀ s, (f s).recorder = s.recorder)
    (hf : ∀ s k, f (s.recording k) = (f s).recording k) :
    (o.mapState f).Matched J κ (o'.mapState f) := by
  cases o with
  | done a s | thrown t s =>
      rcases h with ⟨hs, k, rfl, hk⟩
      refine ⟨hmeets s hs, k, ?_, ?_⟩
      · rw [← hf]
        rfl
      · rw [hkept]
        exact hk
  | fault e s =>
      rcases h with ⟨f', k, rfl, hk⟩
      refine ⟨f', k, ?_, ?_⟩
      · rw [← hf]
        rfl
      · rw [hkept]
        exact hk
  | exhausted => trivial

theorem Followed.andThen {x : Bool → Action α} {f : Bool → α → Action β}
    {g : Bool → Throwable → Action β} (hx : Followed I κ x)
    (hf : ∀ a, Followed I κ fun i => f i a) (hg : ∀ t, Followed I κ fun i => g i t) :
    Followed I κ fun i => (x i).andThen (f i) (g i) := by
  intro s k hs hk
  have hxs := hx s k hs hk
  show Outcome.Matched I κ ((x false s).andThen (f false) (g false))
    ((x true (s.recording k)).andThen (f true) (g true))
  cases ho : x false s with
  | done a s' =>
      rw [ho] at hxs
      rcases hxs with ⟨hs', k', ho', hk'⟩
      rw [ho']
      exact hf a s' k' hs' hk'
  | thrown t s' =>
      rw [ho] at hxs
      rcases hxs with ⟨hs', k', ho', hk'⟩
      rw [ho']
      exact hg t s' k' hs' hk'
  | fault e s' =>
      rw [ho] at hxs
      rcases hxs with ⟨e', k', ho', hk'⟩
      rw [ho']
      exact ⟨e', k', rfl, hk'⟩
  | exhausted => trivial

theorem Followed.modify {f : State → State} (hmeets : ∀ s, s.Meets I → (f s).Meets I)
    (hkept : ∀ s, (f s).recorder = s.recorder)
    (hf : ∀ s k, f (s.recording k) = (f s).recording k) :
    Followed I κ fun _ => Action.modify f := by
  intro s k hs hk
  refine ⟨hmeets s hs, k, ?_, ?_⟩
  · rw [← hf]
    rfl
  · rw [hkept]
    exact hk

theorem Followed.record {f : Recorder → Recorder} (hf : ∀ k k', κ k k' → κ (f k) (f k')) :
    Followed I κ fun _ => Action.modify fun s => { s with recorder := f s.recorder } :=
  fun s k hs hk => ⟨hs, f k, rfl, hf s.recorder k hk⟩

theorem Followed.fail (f : Bool → Fault) : Followed I κ fun i => (Action.fail (f i) : Action α) :=
  fun _ k _ hk => ⟨f true, k, rfl, hk⟩

theorem Followed.assign (name : String) (value : Value) :
    Followed I κ fun _ => Place.write (.named name) value := by
  intro s k hs hk
  show Outcome.Matched I κ (Place.write (.named name) value s)
    (Place.write (.named name) value (s.recording k))
  rw [place_write_named, place_write_named, show (s.recording k).frame = s.frame from rfl]
  unfold Frame.assign?
  cases Frame.assignIn? name value s.frame.scopes with
  | none => exact ⟨_, k, rfl, hk⟩
  | some scopes => exact ⟨hs, k, rfl, hk⟩

theorem recording_popFrame (s : State) (k : Recorder) :
    (s.recording k).popFrame = s.popFrame.recording k := by
  have hcallers : (s.recording k).callers = s.callers := rfl
  unfold State.popFrame
  rw [hcallers]
  cases s.callers <;> rfl

theorem meets_declare {s : State} (name : String) (value : Value) (h : s.Meets I) :
    (s.declare name value).Meets I := by
  have hcls : (s.frame.declare name value).cls = s.frame.cls := by
    unfold Frame.declare
    split <;> rfl
  unfold State.Meets
  rw [show (s.declare name value).frame.cls = _ from hcls]
  exact h

theorem closed_followed (hκ : Kept κ) : ClosedStmtHere (ι := Bool) (Followed I κ) where
  look _ _ k hs hk := ⟨hs, k, rfl, hk⟩
  raise _ _ k hs hk := ⟨hs, k, rfl, hk⟩
  fail f := .fail fun _ => f
  exhausted _ _ _ _ := trivial
  andThen := .andThen
  inScope hx s k hs hk :=
    (hx s.pushScope k hs hk).mapState (fun _ h => h) (fun _ => rfl) fun _ _ => rfl
  declare name value := .modify (fun _ => meets_declare name value) (fun _ => rfl) fun _ _ => rfl
  assign := .assign
  setField _ _ _ := .modify (fun _ h => h) (fun _ => rfl) fun _ _ => rfl
  openNew cls := by
    intro s k hs hk
    show Outcome.Matched I κ
      (if s.hasClass cls then .done false s else .done true (s.openClass cls))
      (if s.hasClass cls then .done false (s.recording k)
        else .done true ((s.recording k).openClass cls))
    split
    · exact ⟨hs, k, rfl, hk⟩
    · exact ⟨hs, k, rfl, hk⟩
  invoking cls method :=
    .record (f := fun k => k.keepInvoking cls method) fun _ _ hk => hκ.invoking hk cls method
  advance millis := .record (f := fun k => k.advance millis) fun _ _ hk => hκ.advance hk millis

theorem closed_followed_heap {ok : Heap → Prop} (hκ : Kept κ) :
    ClosedStmt (ι := Bool) (Followed (fun heap _ => ok heap) κ) where
  toClosedStmtHere := closed_followed hκ
  inFrame frame hx s k hs hk :=
    (hx (s.pushFrame frame) k hs hk).mapState
      (fun s h => by
        unfold State.Meets State.popFrame at *
        cases s.callers with
        | nil => exact h
        | cons _ _ => exact h)
      recorder_popFrame recording_popFrame

theorem Followed.of_within {x : Bool → Action α} {y : Action α} (hx : Within (x false) y)
    (hy : Followed I κ fun i => if i then x true else y) : Followed I κ x := by
  intro s k hs hk
  rcases hx s with h | h
  · rw [h]
    trivial
  · rw [h]
    exact hy s k hs hk

theorem Followed.limit {x : Nat → Action α} {y z : Action α} (hz : Tends (withLimit x z))
    (h : ∀ n, Followed I κ fun i => if i then y else x n) :
    Followed I κ fun i => if i then y else z := by
  intro s k hs hk
  rcases hz s with ⟨N, hN⟩
  have hlimit : x N s = z s := hN N (Nat.le_refl N)
  have hfollowed := h N s k hs hk
  show Outcome.Matched I κ (z s) (y (s.recording k))
  rw [← hlimit]
  exact hfollowed

theorem Followed.limits {x : Nat → Bool → Action α} {y : Bool → Action α}
    (hx : ∀ n, Followed I κ (x n)) (hy : ∀ i, Tends (withLimit (fun n => x n i) (y i))) :
    Followed I κ y := by
  intro s k hs hk
  rcases exists_limits hy s (s.recording k) with ⟨n, hfalse, htrue⟩
  have hn := hx n s k hs hk
  rw [hfalse, htrue] at hn
  exact hn

theorem Outcome.Matched.trans {κ' κ'' : Recorder → Recorder → Prop} {o o' o'' : Outcome α}
    (h : o.Matched I κ o') (h' : o'.Matched I κ' o'')
    (hκ : ∀ {k k' k''}, κ k k' → κ' k' k'' → κ'' k k'') : o.Matched I κ'' o'' := by
  cases o with
  | done a s | thrown t s =>
      rcases h with ⟨hs, k, rfl, hk⟩
      rcases h' with ⟨_, k', rfl, hk'⟩
      exact ⟨hs, k', rfl, hκ hk hk'⟩
  | fault e s =>
      rcases h with ⟨f, k, rfl, hk⟩
      rcases h' with ⟨f', k', rfl, hk'⟩
      exact ⟨f', k', rfl, hκ hk hk'⟩
  | exhausted => trivial

/-- Outcomes are the same but for their recorders.  Faults may differ in what they name. -/
def Outcome.Agrees (κ : Recorder → Recorder → Prop) (o o' : Outcome α) : Prop :=
  match o with
  | .done a s => ∃ k, o' = .done a (s.recording k) ∧ κ s.recorder k
  | .thrown t s => ∃ k, o' = .thrown t (s.recording k) ∧ κ s.recorder k
  | .fault _ s => ∃ f k, o' = .fault f (s.recording k) ∧ κ s.recorder k
  | .exhausted => o' = .exhausted

/-- An outcome agrees with one that it matches, unless that one alone is an end. -/
theorem Outcome.Matched.agrees {o o' : Outcome α} (h : o.Matched I κ o')
    (hends : o = .exhausted → o' = .exhausted) : o.Agrees κ o' := by
  cases o with
  | done _ _ | thrown _ _ => exact h.2
  | fault _ _ => exact h
  | exhausted => exact hends rfl

theorem Outcome.Matched.exhausted {o : Outcome α} (h : o.Matched I κ .exhausted) :
    o = .exhausted := by
  cases o with
  | done _ _ | thrown _ _ =>
      rcases h with ⟨-, _, hends, -⟩
      exact nomatch hends
  | fault _ _ =>
      rcases h with ⟨_, _, hends, -⟩
      exact nomatch hends
  | exhausted => rfl

theorem Outcome.Matched.agrees_of_matched {J : Proviso} {κ' : Recorder → Recorder → Prop}
    {o o' : Outcome α} (h : o.Matched I κ o') (hback : o'.Matched J κ' o) : o.Agrees κ o' := by
  apply h.agrees
  intro hends
  rw [hends] at hback
  exact hback.exhausted

/-- A run that is cut short by its bound matches no end. -/
theorem Outcome.Matched.of_within {o : Outcome α} {x y : Action α} (hxy : Within x y) {s : State}
    (h : o.Matched I κ (x s)) : o.Matched I κ (y s) := by
  rcases hxy s with hcut | hsame
  · rw [hcut] at h
    rw [h.exhausted]
    trivial
  · rw [← hsame]
    exact h

def Outcome.isDone : Outcome α → Bool
  | .done _ _ => true
  | .thrown _ _ | .fault _ _ | .exhausted => false

theorem Outcome.exists_of_isDone {o : Outcome α} (h : o.isDone = true) :
    ∃ a s, o = .done a s := by
  cases o with
  | done a s => exact ⟨a, s, rfl⟩
  | thrown _ _ | fault _ _ | exhausted => exact nomatch h

def Outcome.isFault : Outcome α → Bool
  | .fault _ _ => true
  | .done _ _ | .thrown _ _ | .exhausted => false

/-- An end that is reached with two bounds taken away at once is reached with either. -/
theorem Within.eq_of_isDone {x y z : Action α} (hxy : Within x y) (hyz : Within y z)
    {s : State} (h : (x s).isDone = true) : y s = z s := by
  rcases hxy s with hcut | hsame
  · rw [hcut] at h
    exact nomatch h
  · rcases hyz s with hcut | hends
    · rw [hsame, hcut] at h
      exact nomatch h
    · exact hends

end

theorem Program.agrees_call {p p' : Program} {κ : Recorder → Recorder → Prop}
    {cls method : String} {args : List Value} {s s' : State}
    (h : (p.outcomeOf cls method args s).Agrees κ (p'.outcomeOf cls method args s')) :
    ∃ bound, ∀ steps ≥ bound,
      (p.call steps cls method args s).Agrees κ (p'.call steps cls method args s') := by
  rcases p.tends_call cls method args s with ⟨N, hN⟩
  rcases p'.tends_call cls method args s' with ⟨N', hN'⟩
  refine ⟨max N N', fun steps hsteps => ?_⟩
  have hcall : p.call steps cls method args s = p.outcomeOf cls method args s := hN steps (by omega)
  have hcall' : p'.call steps cls method args s' = p'.outcomeOf cls method args s' :=
    hN' steps (by omega)
  rw [hcall, hcall']
  exact h

end Eval
end TraceWeaving
