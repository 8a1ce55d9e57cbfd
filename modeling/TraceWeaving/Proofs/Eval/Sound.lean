import TraceWeaving.Proofs.Eval.Limit
import TraceWeaving.Proofs.Eval.Held

/-!
# Evaluation in sound states

From a sound state, evaluation comes to sound states only, and its results are values that
exist there.  No rule has to look at the heap for this: a value comes from a variable, a
field or an element, or is a new array, and the heap never shrinks.  What is left out are
stores into elements, which may make an array contain itself.

The property is stated for two evaluators at once.  The second one does the same as the first
in all sound states, unless it stops after such a store.
-/

namespace TraceWeaving

def Code.Expr.isElement : Code.Expr → Bool
  | .index _ _ => true
  | _ => false

def Code.Expr.storesElement : Code.Expr → Bool
  | .assign _ target _ => target.isElement
  | _ => false

namespace Eval

open Code
open Trace (Throwable)

variable {α β : Type}

/-! ## Results that exist -/

def Any (_ : Nat) (_ : α) : Prop :=
  True

def AllAllocated (n : Nat) (vs : List Value) : Prop :=
  ∀ v ∈ vs, v.Allocated n

def Flow.Allocated (n : Nat) (flow : Flow) : Prop :=
  ∀ v, flow = .returned v → v.Allocated n

theorem AllAllocated.mono {n m : Nat} {vs : List Value} (h : AllAllocated n vs) (hle : n ≤ m) :
    AllAllocated m vs :=
  fun v hv => (h v hv).mono hle

theorem Flow.Allocated.mono {n m : Nat} {flow : Flow} (h : flow.Allocated n) (hle : n ≤ m) :
    flow.Allocated m :=
  fun v hv => (h v hv).mono hle

theorem Flow.allocated_of_not_returned {n : Nat} {flow : Flow} (h : ∀ v, flow ≠ .returned v) :
    flow.Allocated n :=
  fun v hv => absurd hv (h v)

/-! ## Ending soundly -/

def Outcome.Ends (Q : Nat → α → Prop) (n : Nat) : Outcome α → Prop
  | .done a s => s.Sound ∧ n ≤ s.heap.size ∧ Q s.heap.size a
  | .thrown _ s | .fault _ s => s.Sound ∧ n ≤ s.heap.size
  | .exhausted => True

theorem Outcome.Ends.mono {Q : Nat → α → Prop} {n m : Nat} {o : Outcome α} (h : o.Ends Q m)
    (hle : n ≤ m) : o.Ends Q n := by
  cases o with
  | done a s => exact ⟨h.1, Nat.le_trans hle h.2.1, h.2.2⟩
  | thrown _ s | fault _ s => exact ⟨h.1, Nat.le_trans hle h.2⟩
  | exhausted => trivial

/-- The given fault, in a state in which an array contains itself. -/
def Outcome.Ties (tied : Fault) (o : Outcome α) : Prop :=
  ∃ s, o = .fault tied s ∧ ¬ s.heap.Acyclic

/-- In sound states with at least `n` arrays the first action ends soundly and the second one
does the same, unless the second one stops at an array that contains itself. -/
def Alike (tied : Fault) (Q : Nat → α → Prop) (n : Nat) (x y : Action α) : Prop :=
  ∀ s, s.Sound → n ≤ s.heap.size → ((x s).Ends Q n ∧ y s = x s) ∨ (y s).Ties tied

namespace Alike

variable {tied : Fault} {Q : Nat → α → Prop} {Q' : Nat → β → Prop} {n : Nat} {x y : Action α}

theorem of_ends (h : ∀ s, s.Sound → n ≤ s.heap.size → (x s).Ends Q n) : Alike tied Q n x x :=
  fun s hs hn => .inl ⟨h s hs hn, rfl⟩

theorem pure {a : α} (h : ∀ m, n ≤ m → Q m a) :
    Alike tied Q n (Pure.pure a : Action α) (Pure.pure a) :=
  .of_ends fun _ hs hn => ⟨hs, hn, h _ hn⟩

theorem look {g : View → α} (h : ∀ s : State, s.Sound → Q s.heap.size (g s.view)) :
    Alike tied Q n (Action.look g) (Action.look g) :=
  .of_ends fun s hs hn => ⟨hs, hn, h s hs⟩

theorem modify {f : State → State}
    (h : ∀ s : State, s.Sound → n ≤ s.heap.size → (f s).Sound ∧ n ≤ (f s).heap.size) :
    Alike tied Any n (Action.modify f) (Action.modify f) :=
  .of_ends fun s hs hn => ⟨(h s hs hn).1, (h s hs hn).2, trivial⟩

theorem raise (t : Throwable) : Alike tied Q n (Action.raiseValue t) (Action.raiseValue t) :=
  .of_ends fun _ hs hn => ⟨hs, hn⟩

theorem fail (f : Fault) : Alike tied Q n (Action.fail f) (Action.fail f) :=
  .of_ends fun _ hs hn => ⟨hs, hn⟩

theorem exhausted : Alike tied Q n Action.exhausted Action.exhausted :=
  .of_ends fun _ _ _ => trivial

theorem orFail {a : Option α} (f : Fault) (h : ∀ m, n ≤ m → ∀ b ∈ a, Q m b) :
    Alike tied Q n (Action.orFail f a) (Action.orFail f a) := by
  cases a with
  | none => exact .fail f
  | some a => exact .pure fun m hm => h m hm a rfl

theorem andThen {f f' : α → Action β} {g g' : Throwable → Action β} (hx : Alike tied Q n x y)
    (hf : ∀ m, n ≤ m → ∀ a, Q m a → Alike tied Q' m (f a) (f' a))
    (hg : ∀ m, n ≤ m → ∀ t, Alike tied Q' m (g t) (g' t)) :
    Alike tied Q' n (x.andThen f g) (y.andThen f' g') := by
  intro s hs hn
  cases hx s hs hn with
  | inl h =>
      rcases h with ⟨hends, hsame⟩
      show (((x s).andThen f g).Ends Q' n ∧ (y s).andThen f' g' = (x s).andThen f g) ∨
        ((y s).andThen f' g').Ties tied
      rw [hsame]
      cases ho : x s with
      | done a s' =>
          rw [ho] at hends
          exact (hf _ hends.2.1 a hends.2.2 s' hends.1 (Nat.le_refl _)).imp_left
            fun h => ⟨h.1.mono hends.2.1, h.2⟩
      | thrown t s' =>
          rw [ho] at hends
          exact (hg _ hends.2 t s' hends.1 (Nat.le_refl _)).imp_left
            fun h => ⟨h.1.mono hends.2, h.2⟩
      | fault e s' =>
          rw [ho] at hends
          exact .inl ⟨hends, rfl⟩
      | exhausted => exact .inl ⟨trivial, rfl⟩
  | inr h =>
      rcases h with ⟨s', ho, hcycle⟩
      right
      exists s'
      constructor
      · show (y s).andThen f' g' = _
        rw [ho]
        rfl
      · exact hcycle

theorem bind {f f' : α → Action β} (hx : Alike tied Q n x y)
    (hf : ∀ m, n ≤ m → ∀ a, Q m a → Alike tied Q' m (f a) (f' a)) :
    Alike tied Q' n (x >>= f) (y >>= f') := by
  rw [Action.bind_eq_andThen, Action.bind_eq_andThen]
  exact hx.andThen hf fun m _ t => .raise t

theorem lookThen {g : View → α} {f f' : α → Action β}
    (hf : ∀ s : State, s.Sound → n ≤ s.heap.size →
      Alike tied Q' s.heap.size (f (g s.view)) (f' (g s.view))) :
    Alike tied Q' n (Action.look g >>= f) (Action.look g >>= f') := by
  intro s hs hn
  exact (hf s hs hn s hs (Nat.le_refl _)).imp_left fun h => ⟨h.1.mono hn, h.2⟩

theorem mapState {f : State → State} {o o' : Outcome α}
    (h : (o.Ends Q n ∧ o' = o) ∨ o'.Ties tied)
    (hf : ∀ s, s.Sound → (f s).Sound) (hheap : ∀ s, (f s).heap = s.heap) :
    ((o.mapState f).Ends Q n ∧ o'.mapState f = o.mapState f) ∨ (o'.mapState f).Ties tied := by
  cases h with
  | inl h =>
      rcases h with ⟨hends, hsame⟩
      left
      constructor
      · cases o with
        | done a s =>
            show (f s).Sound ∧ n ≤ (f s).heap.size ∧ Q (f s).heap.size a
            rw [hheap]
            exact ⟨hf s hends.1, hends.2⟩
        | thrown _ s | fault _ s =>
            show (f s).Sound ∧ n ≤ (f s).heap.size
            rw [hheap]
            exact ⟨hf s hends.1, hends.2⟩
        | exhausted => trivial
      · rw [hsame]
  | inr h =>
      rcases h with ⟨s, ho, hcycle⟩
      right
      exists f s
      constructor
      · rw [ho]
        rfl
      · rw [hheap]
        exact hcycle

theorem inScope (hx : Alike tied Q n x y) :
    Alike tied Q n (Action.inScope x) (Action.inScope y) :=
  fun s hs hn => mapState (hx s.pushScope hs.pushScope hn) (fun _ hs' => hs'.popScope)
    fun _ => rfl

theorem heap_popFrame (s : State) : s.popFrame.heap = s.heap := by
  unfold State.popFrame
  split <;> rfl

theorem inFrame {frame : Frame} (hframe : ∀ v ∈ frame.held, v.Allocated n)
    (hx : Alike tied Q n x y) :
    Alike tied Q n (Action.inFrame frame x) (Action.inFrame frame y) := by
  intro s hs hn
  have hpush := hs.pushFrame fun v hv => (hframe v hv).mono hn
  exact mapState (hx (s.pushFrame frame) hpush hn) (fun _ hs' => hs'.popFrame) heap_popFrame

end Alike

/-! ## Work that reads and reports -/

def State.SameStore (s s' : State) : Prop :=
  ∃ k, s' = { s with recorder := k }

theorem framing_sameStore : Framing State.SameStore where
  refl s := ⟨s.recorder, rfl⟩
  trans := by
    intro s s' s'' ⟨k, h⟩ ⟨k', h'⟩
    exact ⟨k', by rw [h', h]⟩
  popScope := by
    intro s s' ⟨k, h⟩
    exact ⟨k, by rw [h]; rfl⟩
  recorder s k := ⟨k, rfl⟩

/-- Ends in a fault after some work if an array contains itself then. -/
def Action.stopping (tied : Fault) (x : Action α) : Action α := do
  let a ← x
  let heap ← Action.look fun v => v.heap
  if heap.isAcyclic then return a else Action.fail tied

theorem stopping_bind (tied : Fault) (x : Action α) (f : α → Action β) :
    (x >>= f).stopping tied = x >>= fun a => (f a).stopping tied := by
  unfold Action.stopping
  rw [bind_assoc]

theorem stopping_of_acyclic (tied : Fault) (a : α) {s : State} (h : s.heap.Acyclic) :
    (Pure.pure a : Action α).stopping tied s = .done a s := by
  show (if s.heap.isAcyclic then (Pure.pure a : Action α) else _) s = _
  rw [Heap.isAcyclic_iff.mpr h]
  rfl

theorem stopping_of_cycle (tied : Fault) (a : α) {s : State} (h : ¬ s.heap.Acyclic) :
    (Pure.pure a : Action α).stopping tied s = .fault tied s := by
  have hcycle : s.heap.isAcyclic = false :=
    Bool.eq_false_iff.mpr fun hacyclic => h (Heap.isAcyclic_iff.mp hacyclic)
  show (if s.heap.isAcyclic then (Pure.pure a : Action α) else _) s = _
  rw [hcycle]
  rfl

namespace Alike

variable {tied : Fault} {n : Nat}

theorem of_keeps {x : Action α} (h : Keeps State.SameStore x) : Alike tied Any n x x := by
  apply of_ends
  intro s hs hn
  have hleaves := h s
  cases ho : x s with
  | done a s' =>
      rw [ho] at hleaves
      rcases hleaves with ⟨k, hk⟩
      subst hk
      exact ⟨hs.withRecorder k, hn, trivial⟩
  | thrown _ s' | fault _ s' =>
      rw [ho] at hleaves
      rcases hleaves with ⟨k, hk⟩
      subst hk
      exact ⟨hs.withRecorder k, hn⟩
  | exhausted => trivial

theorem after {Q : Nat → β → Prop} {x : Action α} {f f' : α → Action β}
    (h : Keeps State.SameStore x) (hf : ∀ m, n ≤ m → ∀ a, Alike tied Q m (f a) (f' a)) :
    Alike tied Q n (x >>= f) (x >>= f') :=
  (of_keeps h).bind fun m hm a _ => hf m hm a

theorem plain {v : Value} (h : ∀ a, v ≠ .array a) :
    Alike tied Value.Allocated n (Pure.pure v : Action Value) (Pure.pure v) :=
  .pure fun _ _ => Value.allocated_of_not_array h

theorem applyToInts (op : BinaryOp) (a b : Int64) :
    Alike tied Value.Allocated n (applyToInts op a b) (applyToInts op a b) := by
  cases op with
  | div | rem =>
      unfold Eval.applyToInts
      dsimp only
      split
      · exact .raise _
      · exact .plain (by simp)
  | and | or => exact .fail _
  | add | sub | mul | lt | le | gt | ge | eq | ne => exact .plain (by simp)

theorem applyBinary (op : BinaryOp) (a b : Value) :
    Alike tied Value.Allocated n (applyBinary op a b) (applyBinary op a b) := by
  have hcore := framing_sameStore.core
  have hconcatenate : ∀ a b : Value,
      Alike tied Value.Allocated n (concatenate a b) (concatenate a b) := fun a b =>
    .after (hcore.text a) fun _ _ _ => .after (hcore.text b) fun _ _ _ => .plain (by simp)
  unfold Eval.applyBinary
  split
  · exact hconcatenate _ _
  · exact hconcatenate _ _
  · exact .after (hcore.equals _ _) fun _ _ _ => .plain (by simp)
  · exact .after (hcore.equals _ _) fun _ _ _ => .plain (by simp)
  · exact applyToInts _ _ _
  · exact .fail _

theorem lookOrFail {g : View → Option Value} (f : Fault)
    (h : ∀ s : State, ∀ v ∈ g s.view, v ∈ s.held) :
    Alike tied Value.Allocated n (Action.look g >>= Action.orFail f)
      (Action.look g >>= Action.orFail f) :=
  .lookThen fun s hs _ => .orFail f fun _ hm v hv => (hs.allocated v (h s v hv)).mono hm

theorem findClass {Q : Nat → α → Prop} (p : Program) (name : String)
    {f f' : ClassDecl → Action α}
    (h : ∀ m, n ≤ m → ∀ c, Alike tied Q m (f c) (f' c)) :
    Alike tied Q n (p.findClass name >>= f) (p.findClass name >>= f') :=
  bind (Q := Any) (.orFail _ fun _ _ _ _ => trivial) fun m hm c _ => h m hm c

theorem ownClass {Q : Nat → α → Prop} {f f' : String → Action α}
    (h : ∀ m, n ≤ m → ∀ cls, Alike tied Q m (f cls) (f' cls)) :
    Alike tied Q n (Action.state >>= fun s => f s.frame.cls)
      (Action.state >>= fun s => f' s.frame.cls) :=
  lookThen (g := fun v => v.cls) fun s _ hn => h _ hn s.frame.cls

theorem writeNamed {name : String} {value : Value} (hvalue : value.Allocated n) :
    Alike tied Any n (Place.write (.named name) value) (Place.write (.named name) value) := by
  apply of_ends
  intro s hs hn
  rw [place_write_named]
  cases hframe : s.frame.assign? name value with
  | none => exact ⟨hs, hn⟩
  | some frame => exact ⟨hs.assign (hvalue.mono hn) hframe, hn, trivial⟩

theorem write {place : Place} {value : Value} (hvalue : value.Allocated n)
    (hplace : ∀ address index, place = .element address index → ∀ a, value ≠ .array a) :
    Alike tied Any n (place.write value) (place.write value) := by
  cases place with
  | named name => exact writeNamed hvalue
  | field cls name =>
      exact .modify fun s hs hn => ⟨hs.setField cls name (hvalue.mono hn), hn⟩
  | element address index =>
      refine .modify fun s hs hn => ⟨hs.store address index (hplace _ _ rfl), ?_⟩
      rw [Heap.size_store]
      exact hn

theorem stopping {Q : Nat → α → Prop} {x y : Action α} (h : Alike tied Q n x y) :
    Alike tied Q n x (y.stopping tied) := by
  intro s hs hn
  cases h s hs hn with
  | inl h =>
      rcases h with ⟨hends, hsame⟩
      left
      constructor
      · exact hends
      · show Action.bind y _ s = x s
        unfold Action.bind
        rw [hsame]
        cases ho : x s with
        | done a s' =>
            rw [ho] at hends
            exact stopping_of_acyclic tied a hends.1.acyclic
        | thrown _ _ | fault _ _ | exhausted => rfl
  | inr h =>
      rcases h with ⟨s', ho, hcycle⟩
      right
      exists s'
      constructor
      · show Action.bind y _ s = _
        unfold Action.bind
        rw [ho]
      · exact hcycle

/-- A store of any value that exists, unless it makes an array contain itself. -/
theorem writeStopping {place : Place} {value : Value} (hvalue : value.Allocated n) :
    Alike tied Value.Allocated n (place.write value >>= fun _ => Pure.pure value)
      ((place.write value >>= fun _ => Pure.pure value).stopping tied) := by
  have hresult : ∀ m, n ≤ m → Alike tied Value.Allocated m
      (Pure.pure value : Action Value) (Pure.pure value) :=
    fun m hm => .pure fun k hk => hvalue.mono (Nat.le_trans hm hk)
  cases place with
  | named name => exact ((writeNamed hvalue).bind fun m hm _ _ => hresult m hm).stopping
  | field cls name =>
      have hwrite : Alike tied Any n (Place.write (.field cls name) value) _ :=
        write hvalue (by simp)
      exact (hwrite.bind fun m hm _ _ => hresult m hm).stopping
  | element address index =>
      intro s hs hn
      let s' : State := { s with heap := s.heap.store address index value }
      by_cases hacyclic : s'.heap.Acyclic
      · have hvalue' : value.Allocated s.heap.size := hvalue.mono hn
        have hsize : s'.heap.size = s.heap.size := Heap.size_store address index value
        have hsound : s'.Sound := hs.storeAcyclic hvalue' hacyclic
        left
        constructor
        · show s'.Sound ∧ n ≤ s'.heap.size ∧ value.Allocated s'.heap.size
          rw [hsize]
          exact ⟨hsound, hn, hvalue'⟩
        · exact stopping_of_acyclic tied value hacyclic
      · right
        exact ⟨s', stopping_of_cycle tied value hacyclic, hacyclic⟩

theorem allocate {items : Array Value} (hitems : AllAllocated n items.toList) :
    Alike tied Value.Allocated n (Action.allocate items) (Action.allocate items) := by
  apply of_ends
  intro s hs hn
  have hsize : (s.heap.push items).size = s.heap.size + 1 := Array.size_push items
  refine ⟨hs.allocate fun v hv => (hitems v hv).mono hn, ?_, ?_⟩
  · show n ≤ (s.heap.push items).size
    omega
  · intro a ha
    cases ha
    show s.heap.size < (s.heap.push items).size
    omega

theorem openNew (cls : String) : Alike tied Any n (Action.openNew cls) (Action.openNew cls) := by
  apply of_ends
  intro s hs hn
  unfold Action.openNew
  split
  · exact ⟨hs, hn, trivial⟩
  · exact ⟨hs.openClass cls, hn, trivial⟩

end Alike

/-! ## Two evaluators -/

theorem eq_of_ofFlow_eq_leave {label : Option String} {flow flow' : Flow}
    (h : LoopStep.ofFlow label flow = .leave flow') : flow' = flow := by
  match flow with
  | .normal | .continued none | .broke none => cases h
  | .returned value =>
      cases h
      rfl
  | .continued (some target) | .broke (some target) =>
      unfold LoopStep.ofFlow at h
      dsimp only at h
      split at h
      · cases h
      · cases h
        rfl

/-- The first evaluator ends soundly, and the second one does the same, unless it stops at an
array that contains itself. -/
structure EvaluatesAlike (tied : Fault) (r r' : Evaluator) : Prop where
  eval : ∀ e n, Alike tied Value.Allocated n (r.eval e) (r'.eval e)
  exec : ∀ s n, Alike tied Flow.Allocated n (r.exec s) (r'.exec s)
  iterate : ∀ label loop n, Alike tied Flow.Allocated n (r.iterate label loop) (r'.iterate label loop)

namespace EvaluatesAlike

variable {tied : Fault} {r r' : Evaluator} (hr : EvaluatesAlike tied r r') (p : Program)

include hr

/-! ### Operands -/

theorem evalAll (es : List Expr) (n : Nat) :
    Alike tied AllAllocated n (r.evalAll es) (r'.evalAll es) := by
  induction es generalizing n with
  | nil => exact .pure fun _ _ _ hv => absurd hv List.not_mem_nil
  | cons e es ih =>
      exact (hr.eval e n).bind fun m _ value hvalue => (ih m).bind fun k hk values hvalues =>
        .pure fun l hl v hv => by
          cases List.mem_cons.mp hv with
          | inl hv =>
              subst hv
              exact hvalue.mono (Nat.le_trans hk hl)
          | inr hv => exact (hvalues v hv).mono hl

theorem evalEach (es : List Expr) (n : Nat) : Alike tied Any n (r.evalEach es) (r'.evalEach es) := by
  induction es generalizing n with
  | nil => exact .pure fun _ _ => trivial
  | cons e es ih => exact (hr.eval e n).bind fun m _ _ _ => ih m

theorem evalBool (e : Expr) (operation : String) (n : Nat) :
    Alike tied Any n (r.evalBool e operation) (r'.evalBool e operation) := by
  refine (hr.eval e n).bind fun m _ value _ => ?_
  cases value with
  | bool b => exact .pure fun _ _ => trivial
  | null | int _ | str _ | array _ | object _ | throwable _ => exact .fail _

theorem evalInt (e : Expr) (operation : String) (n : Nat) :
    Alike tied Any n (r.evalInt e operation) (r'.evalInt e operation) := by
  refine (hr.eval e n).bind fun m _ value _ => ?_
  cases value with
  | int k => exact .pure fun _ _ => trivial
  | null | bool _ | str _ | array _ | object _ | throwable _ => exact .fail _

theorem evalArray (e : Expr) (n : Nat) : Alike tied Any n (r.evalArray e) (r'.evalArray e) := by
  refine (hr.eval e n).bind fun m _ value _ => ?_
  cases value with
  | array address => exact .pure fun _ _ => trivial
  | null => exact .raise _
  | int _ | bool _ | str _ | object _ | throwable _ => exact .fail _

theorem evalInit (type : TypeName) (init : Option Expr) (n : Nat) :
    Alike tied Value.Allocated n (r.evalInit type init) (r'.evalInit type init) := by
  cases init with
  | none => exact .plain (Value.initial_ne_array type)
  | some e => exact hr.eval e n

/-! ### Fields and places -/

theorem initializeFields (cls : String) (fields : List FieldDecl) (n : Nat) :
    Alike tied Any n (initializeFields r cls fields) (initializeFields r' cls fields) := by
  induction fields generalizing n with
  | nil => exact .pure fun _ _ => trivial
  | cons f fields ih =>
      refine (hr.evalInit f.type f.init n).bind fun m _ value hvalue => ?_
      have hset : Alike tied Any m (Action.modify fun s => s.setField cls f.name value)
          (Action.modify fun s => s.setField cls f.name value) :=
        .modify fun s hs hm => ⟨hs.setField cls f.name (hvalue.mono hm), hm⟩
      exact hset.bind fun k _ _ _ => ih k

theorem useClass (c : ClassDecl) (n : Nat) : Alike tied Any n (useClass r c) (useClass r' c) := by
  rw [useClass_eq, useClass_eq]
  refine (Alike.openNew c.name).bind fun m _ isNew _ => ?_
  cases isNew with
  | false => exact .pure fun _ _ => trivial
  | true => exact .inFrame (fun v hv => absurd hv List.not_mem_nil) (hr.initializeFields _ _ m)

theorem readField (cls name : String) (n : Nat) :
    Alike tied Value.Allocated n (readField p r cls name) (readField p r' cls name) := by
  rw [readField_eq, readField_eq]
  exact .findClass p cls fun m _ c => (hr.useClass c m).bind fun k _ _ _ =>
    .lookOrFail _ fun s v hv => State.mem_held_of_mem_values (State.mem_values_of_field? hv)

theorem memberOf (name : String) (value : Value) (n : Nat) :
    Alike tied Value.Allocated n (memberOf p r name value) (memberOf p r' name value) := by
  cases value with
  | array address =>
      rw [memberOf_array_eq, memberOf_array_eq]
      split
      · exact .look fun _ _ => Value.allocated_of_not_array (by simp)
      · exact .fail _
  | object cls => exact hr.readField p cls name n
  | null => exact .raise _
  | int _ | bool _ | str _ | throwable _ => exact .fail _

theorem readMember (target : Expr) (name : String) (n : Nat) :
    Alike tied Value.Allocated n (readMember p r target name) (readMember p r' target name) := by
  rw [readMember_eq, readMember_eq, ownerOf_eq]
  refine .lookThen fun s _ _ => ?_
  cases s.view.owner p target with
  | ownClass => exact .after (framing_sameStore.core.look _) fun m _ cls =>
      hr.readField p cls name m
  | namedClass cls => exact hr.readField p cls name _
  | value e => exact (hr.eval e _).bind fun m _ value _ => hr.memberOf p name value m

theorem locateElement (target position : Expr) (n : Nat) :
    Alike tied Any n (locateElement r target position) (locateElement r' target position) := by
  rw [locateElement_eq, locateElement_eq]
  refine (hr.evalArray target n).bind fun m _ address _ =>
    (hr.evalInt position _ m).bind fun k _ index _ => .of_keeps ?_
  exact framing_sameStore.bind (framing_sameStore.core.look _) fun size =>
    framing_sameStore.bind (framing_sameStore.core.checkIndex index size) fun place =>
      framing_sameStore.pure (address, place)

theorem readElement (target position : Expr) (n : Nat) :
    Alike tied Value.Allocated n (readElement r target position) (readElement r' target position) := by
  rw [readElement_eq, readElement_eq]
  refine (hr.locateElement target position n).bind fun m _ place _ => .look fun s hs => ?_
  show Value.Allocated s.heap.size ((s.heap.items place.1).getD place.2 .null)
  rw [Array.getD_eq_getD_getElem?]
  cases hv : (s.heap.items place.1)[place.2]? with
  | none => exact Value.allocated_of_not_array (by simp)
  | some v =>
      have hmem : v ∈ s.heap.items place.1 := Array.mem_of_getElem? hv
      exact hs.allocated v (State.mem_held_of_mem_items (Array.mem_toList_iff.mpr hmem))

theorem ownerClass (target : Expr) (name : String) (n : Nat) :
    Alike tied Any n (ownerClass p r target name) (ownerClass p r' target name) := by
  rw [ownerClass_eq, ownerClass_eq, ownerOf_eq]
  refine .lookThen fun s _ _ => ?_
  cases s.view.owner p target with
  | ownClass => exact .look fun _ _ => trivial
  | namedClass cls => exact .findClass p cls fun _ _ c => .pure fun _ _ => trivial
  | value e =>
      refine (hr.eval e _).bind fun m _ value _ => ?_
      cases value with
      | object cls => exact .pure fun _ _ => trivial
      | null | int _ | bool _ | str _ | array _ | throwable _ => exact .fail _

theorem resolvePlace (target : Expr) (n : Nat) :
    Alike tied (fun _ place => ∀ address index, place = .element address index →
        target.isElement = true) n
      (resolvePlace p r target) (resolvePlace p r' target) := by
  unfold Eval.resolvePlace
  split
  case h_1 ident =>
    rw [resolveName_eq]
    refine .lookThen fun s _ _ => .orFail _ fun _ _ place hplace address index heq => ?_
    subst heq
    unfold View.namedPlace? at hplace
    split at hplace
    · cases hplace
    · split at hplace <;> cases hplace
  case h_2 owner member =>
    exact (hr.ownerClass p owner member n).bind fun m _ cls _ => .findClass p cls fun k _ c =>
      (hr.useClass c k).bind fun _ _ _ _ => .pure fun _ _ _ _ heq => by cases heq
  case h_3 target position =>
    exact (hr.locateElement target position n).bind fun _ _ _ _ => .pure fun _ _ _ _ _ => rfl
  case h_4 => exact .fail _

omit hr in
theorem readPlace (place : Place) (n : Nat) :
    Alike tied Value.Allocated n place.read place.read := by
  rw [place_read_eq]
  refine .lookOrFail _ fun s v hv => ?_
  have hvalue : place.value? s = some v := by
    cases place <;> exact hv
  exact State.mem_held_of_value? hvalue

/-! ### Calls -/

theorem execAll (stmts : List Stmt) (n : Nat) :
    Alike tied Flow.Allocated n (r.execAll stmts) (r'.execAll stmts) := by
  induction stmts generalizing n with
  | nil => exact .pure fun _ _ => Flow.allocated_of_not_returned (by simp)
  | cons stmt stmts ih =>
      rw [r.execAll_cons, r'.execAll_cons]
      refine (hr.exec stmt n).bind fun m _ flow hflow => ?_
      cases flow with
      | normal => exact ih m
      | returned _ | broke _ | continued _ => exact .pure fun _ hm => hflow.mono hm

theorem execBlock (stmts : List Stmt) (n : Nat) :
    Alike tied Flow.Allocated n (r.execBlock stmts) (r'.execBlock stmts) :=
  .inScope (hr.execAll stmts n)

theorem runMethod (c : ClassDecl) (m : MethodDecl) {args : List Value} {n : Nat}
    (hargs : AllAllocated n args) :
    Alike tied Value.Allocated n (runMethod r c m args) (runMethod r' c m args) := by
  unfold Eval.runMethod
  split
  case h_1 => exact .fail _
  case h_2 body _ =>
    refine .after (framing_sameStore.core.checkStack c m) fun k hk _ => ?_
    refine (hr.useClass c k).bind fun l hl _ _ => ?_
    refine .after (framing_sameStore.core.invoking c.name m.name) fun j hj _ => ?_
    have hframe : ∀ v ∈ (Frame.start c.name (.ofPairs ((m.params.map (·.name)).zip args))).held,
        v.Allocated j := by
      intro v hv
      rcases List.mem_map.mp (Frame.mem_held_start hv) with ⟨pair, hpair, hv⟩
      subst hv
      exact (hargs pair.2 (List.of_mem_zip hpair).2).mono (by omega)
    refine (Alike.inFrame hframe (hr.execAll body j)).bind fun i _ flow hflow => ?_
    cases flow with
    | normal => exact .plain (by simp)
    | returned value => exact .pure fun _ hm => (hflow value rfl).mono hm
    | broke _ | continued _ => exact .fail _

theorem invoke (c : ClassDecl) (name : String) {args : List Value} {n : Nat}
    (hargs : AllAllocated n args) :
    Alike tied Value.Allocated n (invoke r c name args) (invoke r' c name args) := by
  unfold Eval.invoke
  split
  · exact hr.runMethod c _ hargs
  · exact .fail _

theorem construct (c : ClassDecl) {args : List Value} {n : Nat} (hargs : AllAllocated n args) :
    Alike tied Value.Allocated n (construct r c args) (construct r' c args) := by
  unfold Eval.construct
  refine (hr.useClass c n).bind fun m hm _ _ => ?_
  split
  · exact (hr.runMethod c _ (hargs.mono hm)).bind fun _ _ _ _ => .plain (by simp)
  · split
    · exact .plain (by simp)
    · exact .fail _

theorem instantiate (cls : String) {args : List Value} {n : Nat} (hargs : AllAllocated n args) :
    Alike tied Value.Allocated n (instantiate p r cls args) (instantiate p r' cls args) := by
  unfold Eval.instantiate
  split
  · exact hr.construct _ hargs
  · split
    · exact .plain (by simp)
    · exact .plain (by simp)
    · exact .after (framing_sameStore.core.text _) fun _ _ _ => .plain (by simp)

theorem callOnValue (receiver : Value) (name : String) {args : List Value} {n : Nat}
    (hargs : AllAllocated n args) :
    Alike tied Value.Allocated n (callOnValue p r receiver name args)
      (callOnValue p r' receiver name args) := by
  unfold Eval.callOnValue
  split
  · exact .findClass p _ fun m hm c => hr.invoke c _ (hargs.mono hm)
  · exact .raise _
  · rename_i t
    refine .plain fun a => ?_
    cases t.message <;> simp
  · exact .plain (by simp)
  · exact .after (framing_sameStore.core.equals _ _) fun _ _ _ => .plain (by simp)
  · exact .fail _

/-! ### Reports -/

theorem evalHook (hook : String) (args : List Expr) (n : Nat) :
    Alike tied Value.Allocated n (evalHook r hook args) (evalHook r' hook args) := by
  have hcore := framing_sameStore.core
  unfold Eval.evalHook
  split
  case h_1 id _ names _ values =>
    refine (hr.eval id n).bind fun m _ id _ => (hr.evalAll names m).bind fun k _ names _ =>
      (hr.evalAll values k).bind fun l _ values _ => ?_
    exact .after (hcore.text id) fun _ _ method => .after (hcore.texts names) fun _ _ names =>
      .after (hcore.snapshots values) fun _ _ values =>
        .after (framing_sameStore.receive method _) fun _ _ _ => .plain (by simp)
  case h_2 =>
    refine (hr.evalAll args n).bind fun m _ values _ => ?_
    exact .after (hcore.methodIdOf values) fun _ _ method =>
      .after (hcore.reportOf hook values) fun _ _ report =>
        .after (framing_sameStore.receive method report) fun _ _ _ => .plain (by simp)

omit hr in
theorem sleep (args : List Value) (n : Nat) :
    Alike tied Value.Allocated n (sleep args) (sleep args) := by
  unfold Eval.sleep
  split
  · split
    · exact .after (framing_sameStore.core.advance _) fun _ _ _ => .plain (by simp)
    · exact .raise _
  · exact .raise _

theorem evalCall (receiver : Option Expr) (method : String) (args : List Expr) (n : Nat) :
    Alike tied Value.Allocated n (evalCall p r receiver method args)
      (evalCall p r' receiver method args) := by
  unfold Eval.evalCall
  rw [receiverOf_eq]
  refine .lookThen fun s _ _ => ?_
  cases s.view.receiver p receiver method with
  | runtime => exact hr.evalHook method args _
  | ownClass =>
      exact (hr.evalAll args _).bind fun m _ values hvalues => .ownClass fun k hk cls =>
        .findClass p cls fun l hl c => hr.invoke c method (hvalues.mono (Nat.le_trans hk hl))
  | namedClass cls =>
      exact .findClass p cls fun m _ c => (hr.evalAll args m).bind fun k _ values hvalues =>
        hr.invoke c method hvalues
  | clock => exact (hr.evalAll args _).bind fun m _ values _ => sleep values m
  | value e =>
      exact (hr.eval e _).bind fun m _ value _ => (hr.evalAll args m).bind
        fun k _ values hvalues => hr.callOnValue p value method hvalues

/-! ### Expressions -/

theorem evalBinary (op : BinaryOp) (left right : Expr) (n : Nat) :
    Alike tied Value.Allocated n (evalBinary r op left right) (evalBinary r' op left right) := by
  unfold Eval.evalBinary
  split
  · refine (hr.evalBool left _ n).bind fun m _ b _ => ?_
    cases b with
    | false => exact .plain (by simp)
    | true => exact (hr.evalBool right _ m).bind fun _ _ _ _ => .plain (by simp)
  · refine (hr.evalBool left _ n).bind fun m _ b _ => ?_
    cases b with
    | false => exact (hr.evalBool right _ m).bind fun _ _ _ _ => .plain (by simp)
    | true => exact .plain (by simp)
  · exact (hr.eval left n).bind fun m _ a _ => (hr.eval right m).bind fun _ _ b _ =>
      .applyBinary op a b

theorem assignedValue (op : AssignOp) (value : Expr) (place : Place) (n : Nat) :
    Alike tied Value.Allocated n (assignedValue r op value place) (assignedValue r' op value place) := by
  unfold Eval.assignedValue
  cases op.arithmetic? with
  | none => exact hr.eval value n
  | some arithmetic =>
      exact (readPlace place n).bind fun m _ current _ => (hr.eval value m).bind
        fun _ _ operand _ => .applyBinary arithmetic current operand

theorem evalAssign (op : AssignOp) {target : Expr} (htarget : target.isElement = false)
    (value : Expr) (n : Nat) :
    Alike tied Value.Allocated n (evalAssign p r op target value) (evalAssign p r' op target value) := by
  rw [evalAssign_eq, evalAssign_eq]
  refine (hr.resolvePlace p target n).bind fun m _ place hplace => ?_
  refine (hr.assignedValue op value place m).bind fun k _ result hresult => ?_
  have hwrite : Alike tied Any k (place.write result) (place.write result) := by
    refine .write hresult fun address index heq => ?_
    rw [hplace address index heq] at htarget
    cases htarget
  exact hwrite.bind fun _ hl _ _ => .pure fun _ hj => hresult.mono (Nat.le_trans hl hj)

/-- Any assignment, unless an array contains itself after it. -/
theorem stoppingAssign (op : AssignOp) (target value : Expr) (n : Nat) :
    Alike tied Value.Allocated n (Eval.evalAssign p r op target value)
      ((Eval.evalAssign p r' op target value).stopping tied) := by
  rw [evalAssign_eq, evalAssign_eq, stopping_bind]
  refine (hr.resolvePlace p target n).bind fun m _ place _ => ?_
  rw [stopping_bind]
  exact (hr.assignedValue op value place m).bind fun k _ result hresult => .writeStopping hresult

theorem evalStepping (op : UnaryOp) (target : Expr) (n : Nat) :
    Alike tied Value.Allocated n (evalStepping p r op target) (evalStepping p r' op target) := by
  unfold Eval.evalStepping
  refine (hr.resolvePlace p target n).bind fun m _ place _ => (readPlace place m).bind
    fun k _ current _ => ?_
  cases current with
  | int i =>
      have hwrite : Alike tied Any k (place.write (.int (stepped op i))) _ :=
        .write (Value.allocated_of_not_array (by simp)) (by simp)
      exact hwrite.bind fun _ _ _ _ => .plain (by simp)
  | null | bool _ | str _ | array _ | object _ | throwable _ => exact .fail _

/-- One step of evaluation, if it is no assignment to an element. -/
theorem evalStep {e : Expr} (he : e.storesElement = false) (n : Nat) :
    Alike tied Value.Allocated n (evalStep p r e) (evalStep p r' e) := by
  cases e with
  | lit value => exact .plain (Value.ofLiteral_ne_array value)
  | name ident =>
      simp only [Eval.evalStep, readName_eq]
      refine .lookOrFail _ fun s v hv => State.mem_held_of_mem_values ?_
      rcases Option.or_eq_some_iff.mp hv with hv | ⟨_, hv⟩
      · exact State.mem_values_of_lookup? hv
      · exact State.mem_values_of_field? hv
  | self =>
      exact Alike.look (g := fun v => Value.object v.cls) fun _ _ =>
        Value.allocated_of_not_array (by simp)
  | field target member => exact hr.readMember p target member n
  | index target position => exact hr.readElement target position n
  | assign op target value => exact hr.evalAssign p op he value n
  | unary op operand =>
      cases op with
      | neg => exact (hr.evalInt operand _ n).bind fun _ _ _ _ => .plain (by simp)
      | not => exact (hr.evalBool operand _ n).bind fun _ _ _ _ => .plain (by simp)
      | preInc | preDec | postInc | postDec => exact hr.evalStepping p _ operand n
  | binary op left right => exact hr.evalBinary op left right n
  | conditional cond ifTrue ifFalse =>
      refine (hr.evalBool cond _ n).bind fun m _ b _ => ?_
      cases b with
      | false => exact hr.eval ifFalse m
      | true => exact hr.eval ifTrue m
  | call receiver method args => exact hr.evalCall p receiver method args n
  | new cls args =>
      exact (hr.evalAll args n).bind fun m _ values hvalues => hr.instantiate p cls hvalues
  | newArray _ elements =>
      simp only [Eval.evalStep, makeArray_eq]
      refine (hr.evalAll elements n).bind fun m _ items hitems => .allocate ?_
      rwa [List.toList_toArray]
  | superCall args => exact (hr.evalAll args n).bind fun _ _ _ _ => .plain (by simp)
  | selfCall args =>
      exact (hr.evalAll args n).bind fun m _ values hvalues => .ownClass fun k hk cls =>
        .findClass p cls fun l hl c =>
          (hr.construct c (hvalues.mono (Nat.le_trans hk hl))).bind fun _ _ _ _ => .plain (by simp)

/-! ### Statements -/

omit hr in
theorem pureFlow {flow : Flow} (h : ∀ v, flow ≠ .returned v) (n : Nat) :
    Alike tied Flow.Allocated n (Pure.pure flow : Action Flow) (Pure.pure flow) :=
  .pure fun _ _ => Flow.allocated_of_not_returned h

omit hr in
theorem proceed (label : Option String) {goOn goOn' : Action Flow} {flow : Flow} {n : Nat}
    (hflow : flow.Allocated n) (hgoOn : Alike tied Flow.Allocated n goOn goOn') :
    Alike tied Flow.Allocated n
      (match LoopStep.ofFlow label flow with
        | .next => goOn
        | .stop => return .normal
        | .leave flow => return flow)
      (match LoopStep.ofFlow label flow with
        | .next => goOn'
        | .stop => return .normal
        | .leave flow => return flow) := by
  cases hstep : LoopStep.ofFlow label flow with
  | next => exact hgoOn
  | stop => exact pureFlow (by simp) n
  | leave flow' =>
      cases eq_of_ofFlow_eq_leave hstep
      exact .pure fun _ hm => hflow.mono hm

theorem afterBody (label : Option String) (body : Stmt) {goOn goOn' : Action Flow} {n : Nat}
    (hgoOn : ∀ m, n ≤ m → Alike tied Flow.Allocated m goOn goOn') :
    Alike tied Flow.Allocated n (afterBody r label body goOn) (afterBody r' label body goOn') :=
  (hr.exec body n).bind fun m hm _ hflow => proceed label hflow (hgoOn m hm)

theorem evalForTest (cond : Option Expr) (n : Nat) :
    Alike tied Any n (evalForTest r cond) (evalForTest r' cond) := by
  cases cond with
  | none => exact .pure fun _ _ => trivial
  | some e => exact hr.evalBool e _ n

theorem loopRound (label : Option String) (loop : Loop) {goOn goOn' : Action Flow}
    (hgoOn : ∀ m, Alike tied Flow.Allocated m goOn goOn') (n : Nat) :
    Alike tied Flow.Allocated n (loopRound r label loop goOn) (loopRound r' label loop goOn') := by
  cases loop with
  | whileLoop cond body =>
      refine (hr.evalBool cond _ n).bind fun m _ b _ => ?_
      cases b with
      | false => exact pureFlow (by simp) m
      | true => exact hr.afterBody label body fun k _ => hgoOn k
  | doWhile body cond =>
      refine hr.afterBody label body fun m _ => (hr.evalBool cond _ m).bind fun k _ b _ => ?_
      cases b with
      | false => exact pureFlow (by simp) k
      | true => exact hgoOn k
  | forLoop cond update body =>
      refine (hr.evalForTest cond n).bind fun m _ b _ => ?_
      cases b with
      | false => exact pureFlow (by simp) m
      | true =>
          refine hr.afterBody label body fun k _ => ?_
          exact (hr.evalEach update k).bind fun l _ _ _ => hgoOn l

omit hr in
theorem declare (name : String) {value : Value} {n : Nat} (hvalue : value.Allocated n) :
    Alike tied Any n (Action.modify fun s => s.declare name value)
      (Action.modify fun s => s.declare name value) :=
  .modify fun _ hs hn => ⟨hs.declare name (hvalue.mono hn), hn⟩

theorem execForInit (init : ForInit) (n : Nat) :
    Alike tied Any n (execForInit r init) (execForInit r' init) := by
  cases init with
  | exprs es => exact hr.evalEach es n
  | decl type ident init => exact (hr.eval init n).bind fun _ _ _ hvalue => declare ident hvalue

theorem execForItems (label : Option String) (ident : String) (body : Stmt) {items : List Value}
    {n : Nat} (hitems : AllAllocated n items) :
    Alike tied Flow.Allocated n (execForItems r label ident body items)
      (execForItems r' label ident body items) := by
  induction items generalizing n with
  | nil => exact pureFlow (by simp) n
  | cons item items ih =>
      have hround : Alike tied Flow.Allocated n
          (Action.inScope ((Action.modify fun s => s.declare ident item) >>= fun _ => r.exec body))
          (Action.inScope ((Action.modify fun s => s.declare ident item) >>= fun _ =>
            r'.exec body)) :=
        .inScope ((declare ident (hitems item List.mem_cons_self)).bind fun m _ _ _ =>
          hr.exec body m)
      refine hround.bind fun m hm flow hflow => proceed label hflow (ih fun v hv => ?_)
      exact (hitems v (List.mem_cons_of_mem item hv)).mono hm

theorem execForEach (label : Option String) (ident : String) (items : Expr) (body : Stmt)
    (n : Nat) :
    Alike tied Flow.Allocated n (execForEach r label ident items body)
      (execForEach r' label ident items body) := by
  rw [execForEach_eq, execForEach_eq]
  refine (hr.eval items n).bind fun m _ value _ => ?_
  cases value with
  | array address =>
      exact .lookThen fun s hs _ => hr.execForItems label ident body fun v hv =>
        hs.allocated v (State.mem_held_of_mem_items hv)
  | null | int _ | bool _ | str _ | object _ | throwable _ => exact .fail _

theorem execLoop (label : Option String) (s : Stmt) (n : Nat) :
    Alike tied Flow.Allocated n (execLoop r label s) (execLoop r' label s) := by
  cases s with
  | whileLoop cond body => exact hr.iterate label _ n
  | doWhile body cond => exact hr.iterate label _ n
  | forLoop init cond update body =>
      exact .inScope ((hr.execForInit init n).bind fun m _ _ _ => hr.iterate label _ m)
  | forEach type ident items body => exact hr.execForEach label ident items body n
  | block _ | decl _ _ _ | expr _ | ifElse _ _ _ | labeled _ _ | switch _ _ | breakTo _
  | continueTo _ | ret _ | raise _ | tryCatch _ _ _ | sync _ _ | unmodelled _ => exact hr.exec _ n

theorem execLabeled (label : String) (body : Stmt) (n : Nat) :
    Alike tied Flow.Allocated n (execLabeled r label body) (execLabeled r' label body) := by
  unfold Eval.execLabeled
  split
  · exact hr.execLoop (some label) body n
  · refine (hr.exec body n).bind fun m _ flow hflow => ?_
    match flow with
    | .broke (some target) =>
        dsimp only
        split
        · exact pureFlow (by simp) m
        · exact pureFlow (by simp) m
    | .broke none | .normal | .returned _ | .continued _ => exact .pure fun _ hk => hflow.mono hk

theorem execCases (cases : List SwitchCase) (n : Nat) :
    Alike tied Flow.Allocated n (execCases r cases) (execCases r' cases) := by
  induction cases generalizing n with
  | nil => exact pureFlow (by simp) n
  | cons c rest ih =>
      refine (hr.execAll c.body n).bind fun m _ flow hflow => ?_
      match flow with
      | .normal => exact ih m
      | .broke none => exact pureFlow (by simp) m
      | .broke (some _) | .returned _ | .continued _ => exact .pure fun _ hk => hflow.mono hk

theorem execHandler (catches : List CatchClause) (t : Throwable) (n : Nat) :
    Alike tied Flow.Allocated n (execHandler r catches t) (execHandler r' catches t) := by
  unfold Eval.execHandler
  split
  · rename_i c _
    have hvalue : (Value.throwable t).Allocated n := Value.allocated_of_not_array (by simp)
    exact .inScope ((declare c.ident hvalue).bind fun m _ _ _ => hr.execAll c.body m)
  · exact .raise t

theorem execCatching (body : List Stmt) (catches : List CatchClause) (n : Nat) :
    Alike tied Flow.Allocated n (execCatching r body catches) (execCatching r' body catches) := by
  rw [execCatching_eq, execCatching_eq]
  exact (hr.execBlock body n).andThen (fun _ _ _ hflow => .pure fun _ hk => hflow.mono hk)
    fun m _ t => hr.execHandler catches t m

theorem execBefore (cleanup : List Stmt) {outcome : Action Flow} {n : Nat}
    (houtcome : ∀ m, n ≤ m → Alike tied Flow.Allocated m outcome outcome) :
    Alike tied Flow.Allocated n (execBefore r cleanup outcome) (execBefore r' cleanup outcome) := by
  refine (hr.execBlock cleanup n).bind fun m hm flow hflow => ?_
  cases flow with
  | normal => exact houtcome m hm
  | returned _ | broke _ | continued _ => exact .pure fun _ hk => hflow.mono hk

theorem execTry (body : List Stmt) (catches : List CatchClause) (cleanup : Option (List Stmt))
    (n : Nat) :
    Alike tied Flow.Allocated n (execTry r body catches cleanup) (execTry r' body catches cleanup) := by
  cases cleanup with
  | none => exact hr.execCatching body catches n
  | some cleanup =>
      rw [execTry_cleanup_eq, execTry_cleanup_eq]
      refine (hr.execCatching body catches n).andThen (fun m _ flow hflow => ?_) fun m _ t => ?_
      · exact hr.execBefore cleanup fun k hk => .pure fun _ hl => hflow.mono (Nat.le_trans hk hl)
      · exact hr.execBefore cleanup fun k _ => .raise t

theorem execRaise (value : Expr) (n : Nat) :
    Alike tied Flow.Allocated n (execRaise r value) (execRaise r' value) := by
  refine (hr.eval value n).bind fun m _ v _ => ?_
  cases v with
  | throwable t => exact .raise t
  | null => exact .raise _
  | int _ | bool _ | str _ | array _ | object _ => exact .fail _

theorem execReturn (value : Option Expr) (n : Nat) :
    Alike tied Flow.Allocated n (execReturn r value) (execReturn r' value) := by
  have hreturned : ∀ {v : Value} {m : Nat}, v.Allocated m → (Flow.returned v).Allocated m := by
    intro v m hv w hw
    cases hw
    exact hv
  cases value with
  | none => exact .pure fun _ _ => hreturned (Value.allocated_of_not_array (by simp))
  | some e => exact (hr.eval e n).bind fun m _ v hv => .pure fun _ hk => hreturned (hv.mono hk)

theorem execStep (s : Stmt) (n : Nat) :
    Alike tied Flow.Allocated n (execStep r s) (execStep r' s) := by
  cases s with
  | block stmts => exact hr.execBlock stmts n
  | decl type ident init =>
      exact (hr.evalInit type init n).bind fun m _ _ hvalue =>
        (declare ident hvalue).bind fun k _ _ _ => pureFlow (by simp) k
  | expr e => exact (hr.eval e n).bind fun m _ _ _ => pureFlow (by simp) m
  | ifElse cond ifTrue ifFalse =>
      refine (hr.evalBool cond _ n).bind fun m _ b _ => ?_
      cases b with
      | true => exact hr.exec ifTrue m
      | false =>
          cases ifFalse with
          | none => exact pureFlow (by simp) m
          | some s => exact hr.exec s m
  | whileLoop cond body => exact hr.execLoop none (.whileLoop cond body) n
  | doWhile body cond => exact hr.execLoop none (.doWhile body cond) n
  | forLoop init cond update body => exact hr.execLoop none (.forLoop init cond update body) n
  | forEach type ident items body => exact hr.execLoop none (.forEach type ident items body) n
  | labeled label body => exact hr.execLabeled label body n
  | switch selector cases =>
      exact (hr.eval selector n).bind fun m _ value _ => .inScope (hr.execCases _ m)
  | breakTo _ | continueTo _ => exact pureFlow (by simp) n
  | ret value => exact hr.execReturn value n
  | raise value => exact hr.execRaise value n
  | tryCatch body catches cleanup => exact hr.execTry body catches cleanup n
  | sync lock body => exact (hr.eval lock n).bind fun m _ _ _ => hr.execBlock body m
  | unmodelled text => exact .fail _

end EvaluatesAlike

end Eval
end TraceWeaving
