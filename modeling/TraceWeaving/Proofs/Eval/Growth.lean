import TraceWeaving.Proofs.Eval.Bindings
import TraceWeaving.Proofs.Eval.Careful

/-!
# What can be read stays readable

Evaluation never takes away a variable that is visible in the frame of the running method,
nor a class or a field that is in use.
-/

namespace TraceWeaving
namespace Eval

open Code
open Trace (Throwable)

variable {α β : Type}

def Frame.Sees (f : Frame) (depth : Nat) (name : String) : Prop :=
  ∃ scope ∈ f.scopes.drop depth, scope.contains name = true

theorem Frame.sees_iff (f : Frame) (name : String) :
    f.Sees 0 name ↔ (f.lookup? name).isSome = true := by
  unfold Frame.Sees Frame.lookup?
  rw [List.findSome?_isSome_iff]
  rfl

/-- A state with the same running method, in which everything can be read that could be read
before. -/
structure State.Grown (s s' : State) : Prop where
  cls : s'.frame.cls = s.frame.cls
  callers : s'.callers = s.callers
  sees : ∀ depth name, s.frame.Sees depth name → s'.frame.Sees depth name
  classes : ∀ cls, s.hasClass cls = true → s'.hasClass cls = true
  fields : ∀ cls name, (s.field? cls name).isSome = true → (s'.field? cls name).isSome = true

namespace State.Grown

theorem refl (s : State) : s.Grown s :=
  ⟨rfl, rfl, fun _ _ h => h, fun _ h => h, fun _ _ h => h⟩

theorem trans {s s' s'' : State} (h : s.Grown s') (h' : s'.Grown s'') : s.Grown s'' where
  cls := h'.cls.trans h.cls
  callers := h'.callers.trans h.callers
  sees depth name hs := h'.sees depth name (h.sees depth name hs)
  classes cls hs := h'.classes cls (h.classes cls hs)
  fields cls name hs := h'.fields cls name (h.fields cls name hs)

theorem popScope {s s' : State} (h : s.pushScope.Grown s') : s.Grown s'.popScope where
  cls := h.cls
  callers := h.callers
  sees depth name hs := by
    rcases h.sees (depth + 1) name hs with ⟨scope, hscope, hname⟩
    refine ⟨scope, ?_, hname⟩
    show scope ∈ s'.frame.scopes.tail.drop depth
    rw [← List.drop_one, List.drop_drop, Nat.add_comm]
    exact hscope
  classes := h.classes
  fields := h.fields

theorem popFrame {s s' : State} {frame : Frame} (h : (s.pushFrame frame).Grown s') :
    s.Grown s'.popFrame := by
  have hcallers : s'.callers = s.frame :: s.callers := h.callers
  have hpop : s'.popFrame = { s' with frame := s.frame, callers := s.callers } := by
    unfold State.popFrame
    rw [hcallers]
  rw [hpop]
  exact ⟨rfl, rfl, fun _ _ hs => hs, h.classes, h.fields⟩

theorem declare (s : State) (name : String) (value : Value) : s.Grown (s.declare name value) := by
  have hframe : ∀ f : Frame, (f.declare name value).cls = f.cls ∧
      ∀ depth key, f.Sees depth key → (f.declare name value).Sees depth key := by
    rintro ⟨cls, scopes⟩
    cases scopes with
    | nil => exact ⟨rfl, fun _ _ ⟨_, h, _⟩ => absurd h (by simp)⟩
    | cons scope rest =>
        refine ⟨rfl, fun depth key hsees => ?_⟩
        cases depth with
        | succ depth => exact hsees
        | zero =>
            rcases hsees with ⟨scope', hmem, hkey⟩
            rcases List.mem_cons.mp hmem with rfl | hmem
            · exact ⟨_, List.mem_cons_self, by rw [Bindings.contains_insert, hkey, Bool.or_true]⟩
            · exact ⟨scope', List.mem_cons_of_mem _ hmem, hkey⟩
  exact ⟨(hframe s.frame).1, rfl, (hframe s.frame).2, fun _ h => h, fun _ _ h => h⟩

theorem setField (s : State) (cls name : String) (value : Value) :
    s.Grown (s.setField cls name value) where
  cls := rfl
  callers := rfl
  sees _ _ h := h
  classes key h := by rw [State.hasClass_setField, h, Bool.or_true]
  fields key member h := by
    unfold State.field? State.setField at *
    rw [Bindings.get?_insert]
    by_cases hkey : key = cls
    · subst hkey
      cases hfields : s.fields.get? key with
      | none =>
          rw [hfields] at h
          exact absurd h (by simp)
      | some fields =>
          rw [hfields] at h
          have hmember : (Bindings.get? fields member).isSome = true := h
          rw [if_pos rfl]
          show (Bindings.get? (Bindings.insert name value fields) member).isSome = true
          rw [Bindings.get?_insert]
          split
          · rfl
          · exact hmember
    · rw [if_neg hkey]
      exact h

theorem openClass {s : State} {cls : String} (hnew : s.hasClass cls = false) :
    s.Grown (s.openClass cls) where
  cls := rfl
  callers := rfl
  sees _ _ h := h
  classes key h := by rw [State.hasClass_openClass, h, Bool.or_true]
  fields key member h := by
    unfold State.field? State.openClass at *
    rw [Bindings.get?_insert]
    by_cases hkey : key = cls
    · subst hkey
      have hnone : s.fields.get? key = none := by
        unfold State.hasClass Bindings.contains at hnew
        simpa using hnew
      rw [hnone] at h
      exact absurd h (by simp)
    · rw [if_neg hkey]
      exact h

end State.Grown

theorem Frame.sees_assignIn? {name : String} {value : Value} {scopes scopes' : List (Bindings Value)}
    (h : Frame.assignIn? name value scopes = some scopes') (depth : Nat) (key : String)
    (hsees : ∃ scope ∈ scopes.drop depth, scope.contains key = true) :
    ∃ scope ∈ scopes'.drop depth, scope.contains key = true := by
  induction scopes generalizing scopes' depth with
  | nil => exact absurd h (by simp [Frame.assignIn?])
  | cons scope rest ih =>
      unfold Frame.assignIn? at h
      split at h
      · obtain rfl := Option.some.inj h
        cases depth with
        | succ depth => exact hsees
        | zero =>
            rcases hsees with ⟨scope', hmem, hkey⟩
            rcases List.mem_cons.mp hmem with rfl | hmem
            · exact ⟨_, List.mem_cons_self, by rw [Bindings.contains_insert, hkey, Bool.or_true]⟩
            · exact ⟨scope', List.mem_cons_of_mem _ hmem, hkey⟩
      · rcases Option.map_eq_some_iff.mp h with ⟨rest', hrest, rfl⟩
        cases depth with
        | succ depth => exact ih hrest depth hsees
        | zero =>
            rcases hsees with ⟨scope', hmem, hkey⟩
            rcases List.mem_cons.mp hmem with rfl | hmem
            · exact ⟨_, List.mem_cons_self, hkey⟩
            · rcases ih hrest 0 ⟨scope', hmem, hkey⟩ with ⟨scope'', hmem', hkey'⟩
              exact ⟨scope'', List.mem_cons_of_mem _ hmem', hkey'⟩

theorem State.Grown.assign {s : State} {name : String} {value : Value} {frame : Frame}
    (h : s.frame.assign? name value = some frame) : s.Grown { s with frame := frame } := by
  rcases Option.map_eq_some_iff.mp h with ⟨scopes, hscopes, rfl⟩
  exact ⟨rfl, rfl, Frame.sees_assignIn? hscopes, fun _ h => h, fun _ _ h => h⟩

/-! ## Actions -/

def Outcome.Grown (s : State) : Outcome α → Prop
  | .done _ s' => s.Grown s'
  | .thrown _ s' => s.Grown s'
  | .fault _ _ => True
  | .exhausted => True

def Grows (x : Action α) : Prop :=
  ∀ s, (x s).Grown s

theorem Outcome.Grown.after {s s' : State} {o : Outcome α} (h : s.Grown s') (ho : o.Grown s') :
    o.Grown s := by
  cases o with
  | done _ _ | thrown _ _ => exact h.trans ho
  | fault _ _ | exhausted => trivial

theorem Grows.modify {f : State → State} (h : ∀ s : State, s.Grown (f s)) : Grows (Action.modify f) :=
  fun s => h s

theorem Grows.of_same {f : State → State} (h : ∀ s, (f s).frame = s.frame ∧
    (f s).callers = s.callers ∧ (f s).fields = s.fields) (s : State) : s.Grown (f s) := by
  rcases h s with ⟨hframe, hcallers, hfields⟩
  refine ⟨by rw [hframe], hcallers, fun _ _ hs => by rw [hframe]; exact hs, ?_, ?_⟩
  · intro cls hs
    unfold State.hasClass at *
    rw [hfields]
    exact hs
  · intro cls name hs
    unfold State.field? at *
    rw [hfields]
    exact hs

theorem Grows.andThen {x : Action α} {f : α → Action β} {g : Throwable → Action β}
    (hx : Grows x) (hf : ∀ a, Grows (f a)) (hg : ∀ t, Grows (g t)) : Grows (x.andThen f g) := by
  intro s
  have hxs := hx s
  show ((x s).andThen f g).Grown s
  cases ho : x s with
  | done a s' =>
      rw [ho] at hxs
      exact (hf a s').after hxs
  | thrown t s' =>
      rw [ho] at hxs
      exact (hg t s').after hxs
  | fault _ _ | exhausted => trivial

theorem closed_grows : ClosedStmt (ι := Unit) fun x => Grows (x ()) where
  look _ s := .refl s
  raise _ s := .refl s
  fail _ _ := trivial
  exhausted _ := trivial
  andThen hx hf hg := Grows.andThen hx hf hg
  inScope {α x} hx s := by
    have hxs := hx s.pushScope
    show ((x () s.pushScope).mapState State.popScope).Grown s
    cases ho : x () s.pushScope with
    | done _ _ | thrown _ _ =>
        rw [ho] at hxs
        exact hxs.popScope
    | fault _ _ | exhausted => trivial
  inFrame {α x} frame hx s := by
    have hxs := hx (s.pushFrame frame)
    show ((x () (s.pushFrame frame)).mapState State.popFrame).Grown s
    cases ho : x () (s.pushFrame frame) with
    | done _ _ | thrown _ _ =>
        rw [ho] at hxs
        exact hxs.popFrame
    | fault _ _ | exhausted => trivial
  declare name value := .modify fun s => .declare s name value
  assign name value s := by
    show (Place.write (.named name) value s).Grown s
    rw [place_write_named]
    cases hframe : s.frame.assign? name value with
    | none => trivial
    | some frame => exact State.Grown.assign hframe
  setField cls name value := .modify fun s => .setField s cls name value
  openNew cls s := by
    show (if s.hasClass cls then Outcome.done false s else .done true (s.openClass cls)).Grown s
    cases hcls : s.hasClass cls with
    | true => exact .refl s
    | false => exact State.Grown.openClass hcls
  invoking _ _ := .modify (Grows.of_same fun _ => ⟨rfl, rfl, rfl⟩)
  advance _ := .modify (Grows.of_same fun _ => ⟨rfl, rfl, rfl⟩)

theorem Grows.bind {x : Action α} {f : α → Action β} (hx : Grows x) (hf : ∀ a, Grows (f a)) :
    Grows (x >>= f) :=
  closed_grows.bind (x := fun _ => x) (f := fun _ => f) hx hf

theorem Grows.pure (a : α) : Grows (Pure.pure a) :=
  closed_grows.pure a

theorem Grows.look (g : View → α) : Grows (Action.look g) :=
  closed_grows.look g

theorem Grows.fail (f : Fault) : Grows (Action.fail f : Action α) :=
  closed_grows.fail f

theorem Grows.receive (id : String) (report : Trace.Report) :
    Grows (Action.modify fun s => { s with recorder := s.recorder.receive id report }) :=
  .modify (Grows.of_same fun _ => ⟨rfl, rfl, rfl⟩)

theorem Grows.store (address index : Nat) (value : Value) :
    Grows (Place.write (.element address index) value) :=
  .modify (Grows.of_same (f := fun s => { s with heap := s.heap.store address index value })
    fun _ => ⟨rfl, rfl, rfl⟩)

theorem Grows.write (place : Place) (value : Value) : Grows (place.write value) := by
  cases place with
  | named name => exact closed_grows.assign name value
  | field cls name => exact closed_grows.setField cls name value
  | element address index => exact .store address index value

theorem Grows.allocate (items : Array Value) : Grows (Action.allocate items) :=
  fun s => Grows.of_same (f := fun s => { s with heap := s.heap.push items })
    (fun _ => ⟨rfl, rfl, rfl⟩) s

theorem Grows.limit {x : Nat → Action α} {y : Action α} (hy : Tends (withLimit x y))
    (h : ∀ n, Grows (x n)) : Grows y := by
  intro s
  rcases hy s with ⟨N, hN⟩
  have hlimit : x N s = y s := hN N (Nat.le_refl N)
  rw [← hlimit]
  exact h N s

abbrev Evaluator.Growing (E : Evaluator) : Prop :=
  Evaluator.Has (ι := Unit) (fun x => Grows (x ())) fun _ => E

theorem Rules.Regular.growing_meaning {R : Rules} (hR : R.Regular)
    (hstep : ∀ r : Evaluator, r.Growing → (R.step r).Growing) : R.meaning.Growing := by
  have hwithin : ∀ n, (R.within n).Growing := by
    intro n
    induction n with
    | zero => exact ⟨fun _ _ => trivial, fun _ _ => trivial, fun _ _ _ => trivial⟩
    | succ n ih => exact hstep _ ih
  exact
    { eval := fun e => .limit (hR.tends_eval e) fun n => (hwithin n).eval e
      exec := fun s => .limit (hR.tends_exec s) fun n => (hwithin n).exec s
      iterate := fun label loop =>
        .limit (hR.tends_iterate label loop) fun n => (hwithin n).iterate label loop }

theorem Program.growing_careful (p : Program) (ok : Heap → Bool) :
    (p.careful ok).meaning.Growing :=
  p.has_careful ok closed_grows Grows.store Grows.allocate Grows.receive Grows.limit

end Eval
end TraceWeaving
