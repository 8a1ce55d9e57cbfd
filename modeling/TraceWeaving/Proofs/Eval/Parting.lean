import TraceWeaving.Proofs.Eval.Bindings
import TraceWeaving.Proofs.Eval.Careful

/-!
# Parted scopes

A body may declare its variables in the scope of the parameters or in a scope of its own
inside that one.  Names stand for the same values either way, so a body does the same, and
once its frame is gone nothing tells the two apart.
-/

namespace TraceWeaving
namespace Eval

open Code
open Trace (Throwable)

/-! ## Scopes -/

/-- Two scopes, one inside the other, bind what one scope binds. -/
def Parts (whole inner outer : Bindings Value) : Prop :=
  ∀ name, whole.get? name = (inner.get? name).or (outer.get? name)

namespace Parts

variable {whole inner outer : Bindings Value} (h : Parts whole inner outer)

include h

theorem contains (name : String) :
    whole.contains name = (inner.contains name || outer.contains name) := by
  unfold Bindings.contains
  rw [h name]
  cases inner.get? name <;> rfl

theorem insert_inner (name : String) (value : Value) :
    Parts (whole.insert name value) (inner.insert name value) outer := by
  intro key
  rw [Bindings.get?_insert, Bindings.get?_insert, h key]
  split <;> rfl

theorem insert_outer {name : String} (hinner : inner.contains name = false) (value : Value) :
    Parts (whole.insert name value) inner (outer.insert name value) := by
  intro key
  rw [Bindings.get?_insert, Bindings.get?_insert, h key]
  split
  · rename_i hkey
    have hnone : inner.get? name = none :=
      Option.isNone_iff_eq_none.mp (Option.isSome_eq_false_iff.mp hinner)
    rw [hkey, hnone]
    rfl
  · rfl

end Parts

inductive PartedAt : Nat → List (Bindings Value) → List (Bindings Value) → Prop
  | here {whole inner outer : Bindings Value} (h : Parts whole inner outer)
      (rest : List (Bindings Value)) : PartedAt 0 (whole :: rest) (inner :: outer :: rest)
  | inside {d : Nat} {scopes scopes' : List (Bindings Value)} (scope : Bindings Value)
      (h : PartedAt d scopes scopes') : PartedAt (d + 1) (scope :: scopes) (scope :: scopes')

namespace PartedAt

variable {d : Nat} {scopes scopes' : List (Bindings Value)}

theorem findSome? (h : PartedAt d scopes scopes') (name : String) :
    scopes'.findSome? (fun scope => scope.get? name) =
      scopes.findSome? fun scope => scope.get? name := by
  induction h with
  | @here whole inner outer h rest =>
      rw [List.findSome?_cons, List.findSome?_cons, List.findSome?_cons, h name]
      cases inner.get? name <;> rfl
  | inside scope _ ih => rw [List.findSome?_cons, List.findSome?_cons, ih]

theorem assignIn? (h : PartedAt d scopes scopes') (name : String) (value : Value) :
    (Frame.assignIn? name value scopes = none ∧ Frame.assignIn? name value scopes' = none) ∨
    ∃ after after', Frame.assignIn? name value scopes = some after ∧
      Frame.assignIn? name value scopes' = some after' ∧ PartedAt d after after' := by
  have hcons : ∀ scope rest, Frame.assignIn? name value (scope :: rest) =
      if scope.contains name then some (scope.insert name value :: rest)
      else (Frame.assignIn? name value rest).map (scope :: ·) :=
    fun _ _ => rfl
  induction h with
  | @here whole inner outer h rest =>
      rw [hcons, hcons, hcons, h.contains name]
      cases hinner : inner.contains name with
      | true => exact .inr ⟨_, _, rfl, rfl, .here (h.insert_inner name value) rest⟩
      | false =>
          cases houter : outer.contains name with
          | true => exact .inr ⟨_, _, rfl, rfl, .here (h.insert_outer hinner value) rest⟩
          | false =>
              cases Frame.assignIn? name value rest with
              | none => exact .inl ⟨rfl, rfl⟩
              | some after => exact .inr ⟨_, _, rfl, rfl, .here h after⟩
  | @inside d scopes scopes' scope h ih =>
      rw [hcons, hcons]
      cases scope.contains name with
      | true => exact .inr ⟨_, _, rfl, rfl, .inside _ h⟩
      | false =>
          rcases ih with ⟨hnone, hnone'⟩ | ⟨after, after', hafter, hafter', hparted⟩
          · rw [hnone, hnone']
            exact .inl ⟨rfl, rfl⟩
          · rw [hafter, hafter']
            exact .inr ⟨_, _, rfl, rfl, .inside scope hparted⟩

end PartedAt

/-! ## Frames and states -/

structure Frame.Parted (d : Nat) (f f' : Frame) : Prop where
  cls : f'.cls = f.cls
  scopes : PartedAt d f.scopes f'.scopes

namespace Frame.Parted

variable {d : Nat} {f f' : Frame} (h : f.Parted d f')

include h

theorem lookup? : f'.lookup? = f.lookup? :=
  funext fun name => h.scopes.findSome? name

theorem declare (name : String) (value : Value) :
    (f.declare name value).Parted d (f'.declare name value) := by
  rcases f with ⟨cls, scopes⟩
  rcases f' with ⟨cls', scopes'⟩
  rcases h with ⟨hcls, hscopes⟩
  cases hscopes with
  | here h rest => exact ⟨hcls, .here (h.insert_inner name value) rest⟩
  | inside scope h => exact ⟨hcls, .inside _ h⟩

theorem pushScope : f.pushScope.Parted (d + 1) f'.pushScope :=
  ⟨h.cls, .inside [] h.scopes⟩

omit h in
theorem popScope (h : f.Parted (d + 1) f') : f.popScope.Parted d f'.popScope := by
  rcases f with ⟨cls, scopes⟩
  rcases f' with ⟨cls', scopes'⟩
  rcases h with ⟨hcls, hscopes⟩
  cases hscopes with
  | inside scope h => exact ⟨hcls, h⟩

end Frame.Parted

inductive FramesParted : Nat → Nat → List Frame → List Frame → Prop
  | here {d : Nat} {f f' : Frame} (h : f.Parted d f') (callers : List Frame) :
      FramesParted 0 d (f :: callers) (f' :: callers)
  | called {j d : Nat} {frames frames' : List Frame} (f : Frame)
      (h : FramesParted j d frames frames') : FramesParted (j + 1) d (f :: frames) (f :: frames')

structure State.Parted (j d : Nat) (s s' : State) : Prop where
  frames : FramesParted j d (s.frame :: s.callers) (s'.frame :: s'.callers)
  fields : s'.fields = s.fields
  heap : s'.heap = s.heap
  recorder : s'.recorder = s.recorder

namespace State.Parted

variable {j d : Nat} {s s' : State}

theorem exists_frames (h : s.Parted j d s') :
    ∃ frame callers, s' = ⟨frame, callers, s.fields, s.heap, s.recorder⟩ ∧
      FramesParted j d (s.frame :: s.callers) (frame :: callers) := by
  rcases s' with ⟨frame, callers, fields, heap, recorder⟩
  rcases h with ⟨hframes, rfl, rfl, rfl⟩
  exact ⟨frame, callers, rfl, hframes⟩

theorem view (h : s.Parted j d s') : s'.view = s.view := by
  rcases h.exists_frames with ⟨frame, callers, rfl, hframes⟩
  unfold State.view
  cases hframes with
  | here hframe _ => rw [hframe.lookup?, hframe.cls]
  | called _ hcallers =>
      have hlength : callers.length = s.callers.length := by
        generalize s.callers = callers₀ at hcallers
        clear * - hcallers
        induction hcallers with
        | here _ _ => rfl
        | called _ _ ih => exact congrArg Nat.succ ih
      rw [hlength]

theorem pushScope (h : s.Parted j d s') :
    s.pushScope.Parted j (State.below j d) s'.pushScope := by
  rcases h.exists_frames with ⟨frame, callers, rfl, hframes⟩
  refine ⟨?_, rfl, rfl, rfl⟩
  cases hframes with
  | here hframe _ => exact .here hframe.pushScope _
  | called _ hcallers => exact .called _ hcallers

theorem popScope (h : s.Parted j (State.below j d) s') : s.popScope.Parted j d s'.popScope := by
  rcases h.exists_frames with ⟨frame, callers, rfl, hframes⟩
  refine ⟨?_, rfl, rfl, rfl⟩
  cases hframes with
  | here hframe _ => exact .here hframe.popScope _
  | called _ hcallers => exact .called _ hcallers

theorem pushFrame (h : s.Parted j d s') (frame : Frame) :
    (s.pushFrame frame).Parted (j + 1) d (s'.pushFrame frame) :=
  ⟨.called frame h.frames, h.fields, h.heap, h.recorder⟩

theorem popFrame (h : s.Parted (j + 1) d s') : s.popFrame.Parted j d s'.popFrame := by
  rcases s with ⟨frame₀, callers₀, fields, heap, recorder⟩
  rcases h.exists_frames with ⟨frame, callers, rfl, hframes⟩
  cases hframes with
  | called _ hcallers =>
      cases hcallers with
      | here hframe rest => exact ⟨.here hframe rest, rfl, rfl, rfl⟩
      | called f hcallers => exact ⟨.called f hcallers, rfl, rfl, rfl⟩

theorem declare (h : s.Parted j d s') (name : String) (value : Value) :
    (s.declare name value).Parted j d (s'.declare name value) := by
  rcases h.exists_frames with ⟨frame, callers, rfl, hframes⟩
  refine ⟨?_, rfl, rfl, rfl⟩
  cases hframes with
  | here hframe _ => exact .here (hframe.declare name value) _
  | called _ hcallers => exact .called _ hcallers

theorem modify (h : s.Parted j d s') {f : State → State}
    (hf : ∀ s, ∃ fields heap recorder, f s = ⟨s.frame, s.callers, fields, heap, recorder⟩ ∧
      ∀ frame callers, f ⟨frame, callers, s.fields, s.heap, s.recorder⟩ =
        ⟨frame, callers, fields, heap, recorder⟩) : (f s).Parted j d (f s') := by
  rcases h.exists_frames with ⟨frame, callers, rfl, hframes⟩
  rcases hf s with ⟨fields, heap, recorder, hfs, hsame⟩
  rw [hfs, hsame]
  exact ⟨hframes, rfl, rfl, rfl⟩

end State.Parted

/-! ## Actions -/

section

variable {α β : Type} {j d : Nat}

def Outcome.Parted (j d : Nat) (o o' : Outcome α) : Prop :=
  match o with
  | .done a s => ∃ s', o' = .done a s' ∧ s.Parted j d s'
  | .thrown t s => ∃ s', o' = .thrown t s' ∧ s.Parted j d s'
  | .fault e s => ∃ s', o' = .fault e s' ∧ s.Parted j d s'
  | .exhausted => o' = .exhausted

/-- An action that does the same when a scope stands in two parts. -/
def Parting (x : Action α) : Prop :=
  ∀ j d s s', s.Parted j d s' → (x s).Parted j d (x s')

theorem Outcome.Parted.mapState {k e : Nat} {o o' : Outcome α} (h : o.Parted j d o')
    {f : State → State} (hf : ∀ s s', s.Parted j d s' → (f s).Parted k e (f s')) :
    (o.mapState f).Parted k e (o'.mapState f) := by
  cases o with
  | done _ s | thrown _ s | fault _ s =>
      rcases h with ⟨s', rfl, hs⟩
      exact ⟨f s', rfl, hf s s' hs⟩
  | exhausted =>
      have ho' : o' = .exhausted := h
      rw [ho']
      rfl

theorem Parting.andThen {x : Action α} {f : α → Action β} {g : Throwable → Action β}
    (hx : Parting x) (hf : ∀ a, Parting (f a)) (hg : ∀ t, Parting (g t)) :
    Parting (x.andThen f g) := by
  intro j d s s' hs
  have hxs := hx j d s s' hs
  unfold Action.andThen
  cases ho : x s with
  | done a s₁ =>
      rw [ho] at hxs
      rcases hxs with ⟨s₁', ho', hs₁⟩
      rw [ho']
      exact hf a j d s₁ s₁' hs₁
  | thrown t s₁ =>
      rw [ho] at hxs
      rcases hxs with ⟨s₁', ho', hs₁⟩
      rw [ho']
      exact hg t j d s₁ s₁' hs₁
  | fault e s₁ =>
      rw [ho] at hxs
      rcases hxs with ⟨s₁', ho', hs₁⟩
      rw [ho']
      exact ⟨s₁', rfl, hs₁⟩
  | exhausted =>
      rw [ho] at hxs
      have ho' : x s' = .exhausted := hxs
      rw [ho']
      rfl

theorem Parting.modify {f : State → State}
    (hf : ∀ j d s s', s.Parted j d s' → (f s).Parted j d (f s')) : Parting (Action.modify f) :=
  fun j d s s' hs => ⟨f s', rfl, hf j d s s' hs⟩

theorem Parting.assign (name : String) (value : Value) :
    Parting (Place.write (.named name) value) := by
  intro j d s s' hs
  rw [place_write_named, place_write_named]
  rcases hs.exists_frames with ⟨frame, callers, rfl, hframes⟩
  cases hframes with
  | here hframe _ =>
      unfold Frame.assign?
      rcases hframe.scopes.assignIn? name value with
        ⟨hnone, hnone'⟩ | ⟨after, after', hafter, hafter', hparted⟩
      · rw [hnone, hnone']
        exact ⟨_, rfl, .here hframe _, rfl, rfl, rfl⟩
      · rw [hafter, hafter']
        have hassigned : Frame.Parted d { s.frame with scopes := after }
            { frame with scopes := after' } :=
          ⟨hframe.cls, hparted⟩
        exact ⟨_, rfl, .here hassigned _, rfl, rfl, rfl⟩
  | called _ hcallers =>
      cases s.frame.assign? name value with
      | none => exact ⟨_, rfl, .called _ hcallers, rfl, rfl, rfl⟩
      | some frame => exact ⟨_, rfl, .called _ hcallers, rfl, rfl, rfl⟩

theorem closed_parting : ClosedStmt (ι := Unit) fun x => Parting (x ()) where
  look g j d s s' hs := ⟨s', by show Outcome.done (g s'.view) s' = _; rw [hs.view], hs⟩
  raise _ _ _ _ s' hs := ⟨s', rfl, hs⟩
  fail _ _ _ _ s' hs := ⟨s', rfl, hs⟩
  exhausted _ _ _ _ _ := rfl
  andThen hx hf hg := hx.andThen hf hg
  inScope hx j d s s' hs := (hx j _ _ _ hs.pushScope).mapState fun _ _ h => h.popScope
  inFrame frame hx j d s s' hs := (hx _ d _ _ (hs.pushFrame frame)).mapState fun _ _ h => h.popFrame
  declare name value := .modify fun _ _ _ _ hs => hs.declare name value
  assign := .assign
  setField cls name value := .modify fun _ _ _ _ hs =>
    hs.modify (f := fun s => s.setField cls name value) fun _ => ⟨_, _, _, rfl, fun _ _ => rfl⟩
  openNew cls j d s s' hs := by
    have hclass : s'.hasClass cls = s.hasClass cls := congrArg (·.contains cls) hs.fields
    show Outcome.Parted j d (if s.hasClass cls then .done false s else .done true (s.openClass cls))
      (if s'.hasClass cls then .done false s' else .done true (s'.openClass cls))
    rw [hclass]
    cases s.hasClass cls with
    | true => exact ⟨_, rfl, hs⟩
    | false =>
        exact ⟨_, rfl, hs.modify (f := fun s => s.openClass cls)
          fun _ => ⟨_, _, _, rfl, fun _ _ => rfl⟩⟩
  invoking cls method := .modify fun _ _ _ _ hs =>
    hs.modify (f := fun s => { s with recorder := s.recorder.keepInvoking cls method })
      fun _ => ⟨_, _, _, rfl, fun _ _ => rfl⟩
  advance millis := .modify fun _ _ _ _ hs =>
    hs.modify (f := fun s => { s with recorder := s.recorder.advance millis })
      fun _ => ⟨_, _, _, rfl, fun _ _ => rfl⟩

theorem Parting.limit {x : Nat → Action α} {y : Action α} (hy : Tends (withLimit x y))
    (hx : ∀ n, Parting (x n)) : Parting y := by
  intro j d s s' hs
  rcases hy s with ⟨N, hN⟩
  rcases hy s' with ⟨M, hM⟩
  have hlarge := hx (max N M) j d s s' hs
  have h : x (max N M) s = y s := hN _ (by omega)
  have h' : x (max N M) s' = y s' := hM _ (by omega)
  rw [h, h'] at hlarge
  exact hlarge

end

/-- Evaluation does not see that a scope stands in two parts. -/
theorem parting_careful (p : Program) (ok : Heap → Bool) :
    Evaluator.Has (ι := Unit) (fun x => Parting (x ())) fun _ => (p.careful ok).meaning :=
  p.has_careful ok closed_parting
    (fun address index value => .modify fun _ _ _ _ hs =>
      hs.modify (f := fun s => { s with heap := s.heap.store address index value })
        fun _ => ⟨_, _, _, rfl, fun _ _ => rfl⟩)
    (fun items j d s s' hs => ⟨_, by show Outcome.done (Value.array s'.heap.size) _ = _; rw [hs.heap],
      hs.modify (f := fun s => { s with heap := s.heap.push items })
        fun _ => ⟨_, _, _, rfl, fun _ _ => rfl⟩⟩)
    (fun id report => .modify fun _ _ _ _ hs =>
      hs.modify (f := fun s => { s with recorder := s.recorder.receive id report })
        fun _ => ⟨_, _, _, rfl, fun _ _ => rfl⟩)
    Parting.limit

/-! ## Once the frame is gone -/

section

variable {α β : Type}

def State.Inside (s : State) : Prop :=
  s.HasScopes 0 1 ∧ s.HasScopes 1 0

/-- Actions that leave the same behind when their frame is gone. -/
def SameAfter (x y : Action α) : Prop :=
  ∀ s : State, s.Inside → (x s).mapState State.popFrame = (y s).mapState State.popFrame

theorem SameAfter.refl (x : Action α) : SameAfter x x :=
  fun _ _ => rfl

theorem SameAfter.bind {x : Action α} (hx : PassesFrom 0 x) {f g : α → Action β}
    (h : ∀ a, SameAfter (f a) (g a)) : SameAfter (x >>= f) (x >>= g) := by
  intro s hs
  have hscope := (hx 0 1 (Nat.zero_le _) s hs.1).2
  have hcaller := (hx 1 0 (Nat.zero_le _) s hs.2).2
  show (Action.bind x f s).mapState _ = (Action.bind x g s).mapState _
  unfold Action.bind
  cases ho : x s with
  | done a s' =>
      rw [ho] at hscope hcaller
      exact h a s' ⟨hscope, hcaller⟩
  | thrown _ _ | fault _ _ | exhausted => rfl

theorem SameAfter.ifNormal {x y : Action Flow} (h : SameAfter x y) (flow : Flow) :
    SameAfter (Eval.ifNormal x flow) (Eval.ifNormal y flow) := by
  cases flow with
  | normal => exact h
  | returned _ | broke _ | continued _ => exact .refl _

/-- What happens in the end depends on the end, not on the frame, if it only records. -/
theorem SameAfter.andThen {x y : Action α} (h : SameAfter x y) {f : α → Action β}
    {g : Throwable → Action β} (hf : ∀ a, ∀ s s' : State, s.popFrame = s'.popFrame →
      (f a s).mapState State.popFrame = (f a s').mapState State.popFrame)
    (hg : ∀ t, ∀ s s' : State, s.popFrame = s'.popFrame →
      (g t s).mapState State.popFrame = (g t s').mapState State.popFrame) :
    SameAfter (x.andThen f g) (y.andThen f g) := by
  intro s hs
  have hxy := h s hs
  unfold Action.andThen
  cases hx : x s with
  | done a s₁ =>
      rw [hx] at hxy
      cases hy : y s with
      | done a' s₂ =>
          rw [hy] at hxy
          obtain ⟨rfl, hstate⟩ := Outcome.done.inj hxy
          exact hf a s₁ s₂ hstate
      | thrown _ _ | fault _ _ | exhausted =>
          rw [hy] at hxy
          exact nomatch hxy
  | thrown t s₁ =>
      rw [hx] at hxy
      cases hy : y s with
      | thrown t' s₂ =>
          rw [hy] at hxy
          obtain ⟨rfl, hstate⟩ := Outcome.thrown.inj hxy
          exact hg t s₁ s₂ hstate
      | done _ _ | fault _ _ | exhausted =>
          rw [hy] at hxy
          exact nomatch hxy
  | fault e s₁ =>
      rw [hx] at hxy
      cases hy : y s with
      | fault e' s₂ =>
          rw [hy] at hxy
          obtain ⟨rfl, hstate⟩ := Outcome.fault.inj hxy
          exact congrArg (Outcome.fault e) hstate
      | done _ _ | thrown _ _ | exhausted =>
          rw [hy] at hxy
          exact nomatch hxy
  | exhausted =>
      rw [hx] at hxy
      cases hy : y s with
      | exhausted => rfl
      | done _ _ | thrown _ _ | fault _ _ =>
          rw [hy] at hxy
          exact nomatch hxy

theorem State.Parted.pushed {s : State} (h : s.HasScopes 0 1) : s.Parted 0 0 s.pushScope := by
  rcases s with ⟨⟨cls, scopes⟩, callers, fields, heap, recorder⟩
  cases scopes with
  | nil => exact absurd h (Nat.not_succ_le_zero 0)
  | cons scope rest =>
      have hparts : Parts scope [] scope := fun _ => rfl
      have hframe : Frame.Parted 0 ⟨cls, scope :: rest⟩ ⟨cls, [] :: scope :: rest⟩ :=
        ⟨rfl, .here hparts rest⟩
      exact ⟨.here hframe callers, rfl, rfl, rfl⟩

theorem State.Parted.popFrame_eq {s s' : State} (h : s.Parted 0 0 s') (hcalled : s.HasScopes 1 0) :
    s.popFrame = s'.popScope.popFrame := by
  rcases s with ⟨frame₀, callers₀, fields, heap, recorder⟩
  rcases h.exists_frames with ⟨frame, callers, rfl, hframes⟩
  cases hframes with
  | here _ _ =>
      cases callers₀ with
      | nil =>
          rcases hcalled with ⟨_, hnone, -⟩
          exact nomatch hnone
      | cons _ _ => rfl

theorem sameAfter_inScope {x : Action α} (hx : Parting x) (hpasses : PassesFrom 1 x) :
    SameAfter x (Action.inScope x) := by
  intro s hs
  have hparted := hx 0 0 s s.pushScope (.pushed hs.1)
  have hcalled := (hpasses 1 0 (Nat.le_refl 1) s hs.2).2
  show _ = ((x s.pushScope).mapState State.popScope).mapState State.popFrame
  cases ho : x s with
  | done _ _ | thrown _ _ | fault _ _ =>
      rw [ho] at hparted hcalled
      rcases hparted with ⟨s', ho', hs'⟩
      rw [ho']
      simp only [Outcome.mapState, hs'.popFrame_eq hcalled]
  | exhausted =>
      rw [ho] at hparted
      have ho' : x s.pushScope = .exhausted := hparted
      rw [ho']
      rfl

theorem SameAfter.inFrame {x y : Action α} (h : SameAfter x y) {frame : Frame}
    (hframe : 1 ≤ frame.scopes.length) : Action.inFrame frame x = Action.inFrame frame y :=
  funext fun s => h (s.pushFrame frame) ⟨hframe, s.frame, rfl, Nat.zero_le _⟩

end

end Eval
end TraceWeaving
