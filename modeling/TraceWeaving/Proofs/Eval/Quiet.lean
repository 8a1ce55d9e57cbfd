import TraceWeaving.Proofs.Eval.Careful
import TraceWeaving.Proofs.Eval.Emission

/-!
# Quiet work

Quiet work takes back what it records.  A run can be accompanied by a run whose expressions
are quiet, so that it records nothing but what is chosen: a log.  The two go the same way,
and the word that the run adds to its trace and the word that is added to the log belong
together.
-/

namespace TraceWeaving
namespace Eval

open Code
open Trace (Throwable Report Recorder Event)

variable {α β : Type}

/-- Does some work and takes back what it records. -/
def Action.quietly (x : Action α) : Action α :=
  fun s => (x s).mapState fun s' => s'.recording s.recorder

def Evaluator.quiet (E : Evaluator) : Evaluator :=
  { E with eval := fun e => (E.eval e).quietly }

theorem PassesFrom.quietly {lo : Nat} {x : Action α} (hx : PassesFrom lo x) :
    PassesFrom lo x.quietly := by
  have hrecording : ∀ (j d : Nat) (s : State) (k : Recorder),
      (s.insertScope j d).recording k = (s.recording k).insertScope j d := by
    intro j d s k
    cases j <;> rfl
  have hhas : ∀ {j d : Nat} {s : State} {k : Recorder}, s.HasScopes j d →
      (s.recording k).HasScopes j d := by
    intro j d s k h
    cases j <;> exact h
  intro j d hjd s hs
  have hrecorder : (s.insertScope j d).recorder = s.recorder := by
    cases j <;> rfl
  rcases hx j d hjd s hs with ⟨hsame, hleaves⟩
  constructor
  · show (x (s.insertScope j d)).mapState _ = ((x s).mapState _).mapState _
    rw [hsame, hrecorder, Outcome.mapState_mapState, Outcome.mapState_mapState]
    exact Outcome.mapState_congr hleaves fun s' _ => hrecording j d s' s.recorder
  · exact hleaves.mapState fun s' h => hhas h

/-! ## Pairs of words -/

/-- Words of runs and words of logs that belong together, where a fault may cut them off. -/
structure Pairing (whole broken : List Event → List Event → Prop) : Prop where
  nil : whole [] []
  append : ∀ {w v w' v' : List Event}, whole w v → whole w' v' → whole (w ++ w') (v ++ v')
  cut : ∀ {w v : List Event}, whole w v → broken w v
  append_cut : ∀ {w v w' v' : List Event}, whole w v → broken w' v' →
    broken (w ++ w') (v ++ v')

/-- Two outcomes are the same but for their recorders, which have added words that belong
together.  Faults may differ in what they name. -/
def Outcome.Accompanied (I : Proviso) (whole broken : List Event → List Event → Prop)
    (before logged : List Event) (o o' : Outcome α) : Prop :=
  match o with
  | .done a s => s.Meets I ∧ ∃ w v k, s.events = before ++ w ∧ k.events = logged ++ v ∧
      whole w v ∧ o' = .done a (s.recording k)
  | .thrown t s => s.Meets I ∧ ∃ w v k, s.events = before ++ w ∧ k.events = logged ++ v ∧
      whole w v ∧ o' = .thrown t (s.recording k)
  | .fault _ s => ∃ w v k f, s.events = before ++ w ∧ k.events = logged ++ v ∧
      broken w v ∧ o' = .fault f (s.recording k)
  | .exhausted => o' = .exhausted

def Accompanied (I : Proviso) (whole broken : List Event → List Event → Prop)
    (x : Bool → Action α) : Prop :=
  ∀ s k, s.Meets I →
    (x false s).Accompanied I whole broken s.events k.events (x true (s.recording k))

theorem Outcome.Accompanied.mapState {I : Proviso}
    {whole broken : List Event → List Event → Prop} {before logged : List Event} {o o' : Outcome α}
    (ho : o.Accompanied I whole broken before logged o') {f : State → State}
    (hmeets : ∀ s, s.Meets I → (f s).Meets I) (hevents : ∀ s, (f s).events = s.events)
    (hf : ∀ s k, f (s.recording k) = (f s).recording k) :
    (o.mapState f).Accompanied I whole broken before logged (o'.mapState f) := by
  cases o with
  | done a s | thrown t s =>
      rcases ho with ⟨hs, w, v, k, hword, hk, hw, rfl⟩
      refine ⟨hmeets s hs, w, v, k, (hevents s).trans hword, hk, hw, ?_⟩
      rw [← hf]
      rfl
  | fault e s =>
      rcases ho with ⟨w, v, k, e', hword, hk, hw, rfl⟩
      refine ⟨w, v, k, e', (hevents s).trans hword, hk, hw, ?_⟩
      rw [← hf]
      rfl
  | exhausted =>
      have ho' : o' = .exhausted := ho
      rw [ho']
      rfl

namespace Pairing

variable {whole broken : List Event → List Event → Prop} (h : Pairing whole broken)
variable {I : Proviso}

include h

theorem prefixed {o o' : Outcome α} {before logged w v : List Event} (hw : whole w v)
    (ho : o.Accompanied I whole broken (before ++ w) (logged ++ v) o') :
    o.Accompanied I whole broken before logged o' := by
  cases o with
  | done a s | thrown t s =>
      rcases ho with ⟨hs, w', v', k, hevents, hk, hw', ho'⟩
      refine ⟨hs, w ++ w', v ++ v', k, ?_, ?_, h.append hw hw', ho'⟩
      · rw [hevents, List.append_assoc]
      · rw [hk, List.append_assoc]
  | fault e s =>
      rcases ho with ⟨w', v', k, f, hevents, hk, hw', ho'⟩
      refine ⟨w ++ w', v ++ v', k, f, ?_, ?_, h.append_cut hw hw', ho'⟩
      · rw [hevents, List.append_assoc]
      · rw [hk, List.append_assoc]
  | exhausted => exact ho

theorem andThen {x : Bool → Action α} {f : Bool → α → Action β}
    {g : Bool → Throwable → Action β} (hx : Accompanied I whole broken x)
    (hf : ∀ a, Accompanied I whole broken fun i => f i a)
    (hg : ∀ t, Accompanied I whole broken fun i => g i t) :
    Accompanied I whole broken fun i => (x i).andThen (f i) (g i) := by
  intro s k hs
  have hxs := hx s k hs
  show Outcome.Accompanied I whole broken s.events k.events
    ((x false s).andThen (f false) (g false)) ((x true (s.recording k)).andThen (f true) (g true))
  cases ho : x false s with
  | done a s' =>
      rw [ho] at hxs
      rcases hxs with ⟨hs', w, v, k', hevents, hk', hw, ho'⟩
      have ha := hf a s' k' hs'
      rw [hevents, hk'] at ha
      rw [ho']
      exact h.prefixed hw ha
  | thrown t s' =>
      rw [ho] at hxs
      rcases hxs with ⟨hs', w, v, k', hevents, hk', hw, ho'⟩
      have ht := hg t s' k' hs'
      rw [hevents, hk'] at ht
      rw [ho']
      exact h.prefixed hw ht
  | fault e s' =>
      rw [ho] at hxs
      rcases hxs with ⟨w, v, k', f', hevents, hk', hw, ho'⟩
      rw [ho']
      exact ⟨w, v, k', f', hevents, hk', hw, rfl⟩
  | exhausted =>
      rw [ho] at hxs
      have ho' : x true (s.recording k) = .exhausted := hxs
      rw [ho']
      rfl

theorem of_done {x : Action α} (hx : ∀ s k, s.Meets I → ∃ a s' k', x s = .done a s' ∧
    s'.Meets I ∧ s'.events = s.events ∧ k'.events = k.events ∧
    x (s.recording k) = .done a (s'.recording k')) :
    Accompanied I whole broken fun _ => x := by
  intro s k hs
  rcases hx s k hs with ⟨a, s', k', ho, hs', hevents, hk', ho'⟩
  show Outcome.Accompanied I whole broken s.events k.events (x s) (x (s.recording k))
  rw [ho, ho']
  refine ⟨hs', [], [], k', ?_, ?_, h.nil, rfl⟩
  · rw [hevents, List.append_nil]
  · rw [hk', List.append_nil]

theorem modify {f : State → State} (hmeets : ∀ s, s.Meets I → (f s).Meets I)
    (hevents : ∀ s, (f s).events = s.events)
    (hf : ∀ s k, ∃ k' : Recorder, k'.events = k.events ∧
      f (s.recording k) = (f s).recording k') :
    Accompanied I whole broken fun _ => Action.modify f := by
  refine h.of_done fun s k hs => ?_
  rcases hf s k with ⟨k', hk', heq⟩
  exact ⟨(), f s, k', rfl, hmeets s hs, hevents s, hk', congrArg (Outcome.done ()) heq⟩

theorem fail (f : Fault) : Accompanied I whole broken fun _ => (Action.fail f : Action α) := by
  intro s k _
  refine ⟨[], [], k, f, ?_, ?_, h.cut h.nil, rfl⟩
  · rw [List.append_nil]
  · rw [List.append_nil]

theorem closed_accompanied : ClosedStmtHere (ι := Bool) (Accompanied I whole broken) where
  look g := h.of_done fun s k hs => ⟨g s.view, s, k, rfl, hs, rfl, rfl, rfl⟩
  raise t s k hs := by
    refine ⟨hs, [], [], k, ?_, ?_, h.nil, rfl⟩
    · rw [List.append_nil]
    · rw [List.append_nil]
  fail := h.fail
  exhausted _ _ _ := rfl
  andThen := h.andThen
  inScope hx s k hs :=
    (hx s.pushScope k hs).mapState (fun _ h => h) (fun _ => rfl) fun _ _ => rfl
  declare name value :=
    h.modify (fun _ => meets_declare name value) (fun _ => rfl) fun _ k => ⟨k, rfl, rfl⟩
  assign name value s k hs := by
    show Outcome.Accompanied I whole broken s.events k.events
      (Place.write (.named name) value s) (Place.write (.named name) value (s.recording k))
    rw [place_write_named, place_write_named, show (s.recording k).frame = s.frame from rfl]
    unfold Frame.assign?
    cases Frame.assignIn? name value s.frame.scopes with
    | none => exact h.fail (.variableNotFound name) s k hs
    | some scopes =>
        refine ⟨hs, [], [], k, ?_, ?_, h.nil, rfl⟩
        · rw [List.append_nil]
          rfl
        · rw [List.append_nil]
  setField _ _ _ := h.modify (fun _ h => h) (fun _ => rfl) fun _ k => ⟨k, rfl, rfl⟩
  openNew cls := h.of_done fun s k hs => by
    show ∃ a s' k', (if s.hasClass cls then Outcome.done false s
        else .done true (s.openClass cls)) = .done a s' ∧ _ ∧ _ ∧ _ ∧
      (if s.hasClass cls then Outcome.done false (s.recording k)
        else .done true ((s.recording k).openClass cls)) = .done a (s'.recording k')
    split
    · exact ⟨false, s, k, rfl, hs, rfl, rfl, rfl⟩
    · exact ⟨true, s.openClass cls, k, rfl, hs, rfl, rfl, rfl⟩
  invoking cls method := h.modify (fun _ h => h)
    (fun s => s.recorder.events_keepInvoking cls method)
    fun _ k => ⟨k.keepInvoking cls method, k.events_keepInvoking cls method, rfl⟩
  advance millis := h.modify (fun _ h => h) (fun _ => rfl)
    fun _ k => ⟨k.advance millis, rfl, rfl⟩

end Pairing

section

variable {I : Proviso} {whole broken : List Event → List Event → Prop}

/-- Quiet work accompanies the work itself when what is recorded belongs to nothing in the
log. -/
theorem accompanied_quietly {x : Action α} (hx : Followed I (fun _ _ => True) fun _ => x)
    {whole₀ broken₀ : List Event → Prop} (hspeaks : Speaks whole₀ broken₀ x)
    (hwhole : ∀ {w}, whole₀ w → whole w []) (hbroken : ∀ {w}, broken₀ w → broken w []) :
    Accompanied I whole broken fun i => if i then x.quietly else x := by
  intro s k hs
  have hmatched : (x s).Matched I _ (x (s.recording k)) := hx s k hs trivial
  have hback : (x (s.recording k)).Matched I _ (x s) :=
    hx (s.recording k) s.recorder hs trivial
  have hword := hspeaks s
  show (x s).Accompanied I whole broken s.events k.events
    ((x (s.recording k)).mapState fun s' => s'.recording k)
  cases ho : x s with
  | done a s' | thrown t s' =>
      rw [ho] at hmatched hword
      rcases hmatched with ⟨hs', k', ho', -⟩
      rcases hword with ⟨w, hevents, hw⟩
      rw [ho']
      refine ⟨hs', w, [], k, hevents, ?_, hwhole hw, rfl⟩
      rw [List.append_nil]
  | fault e s' =>
      rw [ho] at hmatched hword
      rcases hmatched with ⟨e', k', ho', -⟩
      rcases hword with ⟨w, hevents, hw⟩
      rw [ho']
      refine ⟨w, [], k, e', hevents, ?_, hbroken hw, rfl⟩
      rw [List.append_nil]
  | exhausted =>
      rw [ho] at hback
      rw [hback.exhausted]
      rfl

theorem Accompanied.limit {x : Nat → Bool → Action α} {y : Bool → Action α}
    (hx : ∀ n, Accompanied I whole broken (x n))
    (hy : ∀ i, Tends (withLimit (fun n => x n i) (y i))) : Accompanied I whole broken y := by
  intro s k hs
  rcases exists_limits hy s (s.recording k) with ⟨n, hfalse, htrue⟩
  have hn := hx n s k hs
  rw [hfalse, htrue] at hn
  exact hn

end

theorem Speaks.limit {whole broken : List Event → Prop} {x : Nat → Action α} {y : Action α}
    (hx : ∀ n, Speaks whole broken (x n)) (hy : Tends (withLimit x y)) :
    Speaks whole broken y := by
  intro s
  rcases hy s with ⟨N, hN⟩
  have hlarge : x N s = y s := hN N (Nat.le_refl N)
  rw [← hlarge]
  exact hx N s

end Eval
end TraceWeaving
