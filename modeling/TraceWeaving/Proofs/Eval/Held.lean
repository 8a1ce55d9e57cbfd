import TraceWeaving.Proofs.Eval.Frames
import TraceWeaving.Proofs.Eval.Nesting

/-!
# The values that a state holds

A state holds the values of the variables of the running method and of its callers, of the
fields of all classes, and of the elements of all arrays.  A state is sound if the arrays
among these values exist and no array contains itself.  Soundness is kept by every change
of a state but one: an array that is stored in an element may close a circle.
-/

namespace TraceWeaving
namespace Eval

/-! ## Arrays that exist -/

/-- The value is no array, or one of the first `n` arrays of the heap. -/
def Value.Allocated (n : Nat) (v : Value) : Prop :=
  ∀ a, v = .array a → a < n

namespace Value

variable {n m : Nat} {v : Value}

theorem Allocated.mono (h : v.Allocated n) (hle : n ≤ m) : v.Allocated m :=
  fun a ha => Nat.lt_of_lt_of_le (h a ha) hle

theorem allocated_of_not_array (h : ∀ a, v ≠ .array a) : v.Allocated n :=
  fun a ha => absurd ha (h a)

theorem ofLiteral_ne_array (l : Code.Literal) (a : Nat) : ofLiteral l ≠ .array a := by
  cases l <;> simp [ofLiteral]

theorem initial_ne_array (type : Code.TypeName) (a : Nat) : initial type ≠ .array a := by
  unfold initial
  split
  · simp
  · split <;> simp

end Value

/-! ## Heaps -/

namespace Heap

variable {heap : Heap}

theorem items_push (items : Array Value) (a : Nat) :
    Heap.items (heap.push items) a = if a = heap.size then items else heap.items a := by
  unfold Heap.items
  rw [Array.getD_eq_getD_getElem?, Array.getElem?_push]
  split
  · rfl
  · rw [Array.getD_eq_getD_getElem?]

theorem size_store (address index : Nat) (value : Value) :
    (heap.store address index value).size = heap.size :=
  Array.size_modify

theorem items_store (address index : Nat) (value : Value) (a : Nat) :
    (heap.store address index value).items a =
      if a = address then (heap.items a).setIfInBounds index value else heap.items a := by
  unfold Heap.store Heap.items
  rw [Array.getD_eq_getD_getElem?, Array.getElem?_modify, Array.getD_eq_getD_getElem?]
  by_cases ha : address = a
  · subst ha
    cases heap[address]? <;> simp
  · simp [ha, Ne.symm ha]

theorem mem_items_store {address index a : Nat} {value v : Value}
    (h : v ∈ ((heap.store address index value).items a).toList) :
    v = value ∨ v ∈ (heap.items a).toList := by
  rw [items_store] at h
  split at h
  · rw [Array.toList_setIfInBounds] at h
    exact (List.mem_or_eq_of_mem_set h).symm
  · exact .inr h

def held (heap : Heap) : List Value :=
  heap.toList.flatMap Array.toList

theorem mem_held_of_mem_items {a : Nat} {v : Value} (h : v ∈ (heap.items a).toList) :
    v ∈ heap.held := by
  have ha : a < heap.size := by
    apply Nat.lt_of_not_le
    intro hle
    rw [items_of_size_le hle] at h
    cases h
  have hitems : heap.items a = heap[a] := by
    unfold Heap.items
    rw [Array.getD_eq_getD_getElem?, Array.getElem?_eq_getElem ha]
    rfl
  rw [hitems] at h
  exact List.mem_flatMap.mpr ⟨heap[a], Array.getElem_mem_toList ha, h⟩

theorem exists_mem_items_of_mem_held {v : Value} (h : v ∈ heap.held) :
    ∃ a, v ∈ (heap.items a).toList := by
  rcases List.mem_flatMap.mp h with ⟨items, hitems, hv⟩
  rcases List.mem_iff_getElem?.mp hitems with ⟨a, ha⟩
  refine ⟨a, ?_⟩
  unfold Heap.items
  rw [Array.getD_eq_getD_getElem?, ← Array.getElem?_toList, ha]
  exact hv

/-- A new array is an element of no array, so it closes no circle. -/
theorem Acyclic.push (h : heap.Acyclic) (hheap : ∀ v ∈ heap.held, v.Allocated heap.size)
    {items : Array Value} (hitems : ∀ v ∈ items.toList, v.Allocated heap.size) :
    Heap.Acyclic (heap.push items) := by
  have hheld : ∀ {a b : Nat}, Heap.Holds (heap.push items) a b → b < heap.size := by
    intro a b hab
    unfold Heap.Holds at hab
    rw [items_push] at hab
    split at hab
    · exact hitems _ hab b rfl
    · exact hheap _ (mem_held_of_mem_items hab) b rfl
  have hold : ∀ {a b : Nat}, a < heap.size → Heap.Holds (heap.push items) a b →
      heap.Holds a b := by
    intro a b ha hab
    unfold Heap.Holds at hab
    rw [items_push, if_neg (Nat.ne_of_lt ha)] at hab
    exact hab
  have hend : ∀ {a b : Nat}, Relation.TransGen (Heap.Holds (heap.push items)) a b →
      b < heap.size := by
    intro a b hab
    cases hab with
    | single hab => exact hheld hab
    | tail _ hbc => exact hheld hbc
  -- a path that starts at an old array stays among the old ones
  have hpath : ∀ {a b : Nat}, a < heap.size →
      Relation.TransGen (Heap.Holds (heap.push items)) a b → Relation.TransGen heap.Holds a b := by
    intro a b ha hab
    induction hab with
    | single hab => exact .single (hold ha hab)
    | tail hab hbc ih => exact ih.tail (hold (hend hab) hbc)
  intro a hcycle
  exact h a (hpath (hend hcycle) hcycle)

/-- Where no array is stored, no circle is closed. -/
theorem Acyclic.store (h : heap.Acyclic) {address index : Nat} {value : Value}
    (hvalue : ∀ a, value ≠ .array a) : (heap.store address index value).Acyclic := by
  have hholds : ∀ a b, (heap.store address index value).Holds a b → heap.Holds a b := by
    intro a b hab
    cases mem_items_store hab with
    | inl hb => exact absurd hb.symm (hvalue b)
    | inr hb => exact hb
  intro a hcycle
  exact h a (Relation.TransGen.mono hholds a a hcycle)

end Heap

/-! ## Bindings and frames -/

namespace Bindings

variable {α : Type} {a : α} {b : Bindings α}

def values (b : Bindings α) : List α :=
  b.map Prod.snd

theorem mem_values_insert {name : String} {value : α} (h : a ∈ (insert name value b).values) :
    a = value ∨ a ∈ b.values := by
  induction b with
  | nil => exact .inl (List.mem_singleton.mp h)
  | cons entry b ih =>
      unfold insert at h
      split at h
      · exact (List.mem_cons.mp h).imp_right (List.mem_cons_of_mem _)
      · cases List.mem_cons.mp h with
        | inl h => exact .inr (List.mem_cons.mpr (.inl h))
        | inr h => exact (ih h).imp_right (List.mem_cons_of_mem _)

theorem mem_values_of_get? {name : String} (h : b.get? name = some a) : a ∈ b.values := by
  induction b with
  | nil => cases h
  | cons entry b ih =>
      rw [get?_cons] at h
      split at h
      · cases h
        exact List.mem_cons_self
      · exact List.mem_cons_of_mem _ (ih h)

theorem mem_values_foldl_insert {pairs : List (String × α)}
    (h : a ∈ values (pairs.foldl (fun b pair => insert pair.1 pair.2 b) b)) :
    a ∈ pairs.map Prod.snd ∨ a ∈ b.values := by
  induction pairs generalizing b with
  | nil => exact .inr h
  | cons pair pairs ih =>
      rw [List.map_cons, List.mem_cons]
      cases ih h with
      | inl h => exact .inl (.inr h)
      | inr h => exact (mem_values_insert h).imp_left .inl

theorem mem_values_ofPairs {pairs : List (String × α)} (h : a ∈ (ofPairs pairs).values) :
    a ∈ pairs.map Prod.snd := by
  cases mem_values_foldl_insert h with
  | inl h => exact h
  | inr h => cases h

end Bindings

namespace Frame

variable {f : Frame} {v : Value}

def held (f : Frame) : List Value :=
  f.scopes.flatMap Bindings.values

theorem mem_held_of_lookup? {name : String} (h : f.lookup? name = some v) : v ∈ f.held := by
  rcases List.exists_of_findSome?_eq_some h with ⟨scope, hscope, hv⟩
  exact List.mem_flatMap.mpr ⟨scope, hscope, Bindings.mem_values_of_get? hv⟩

theorem mem_held_declare {name : String} {value : Value} (h : v ∈ (f.declare name value).held) :
    v = value ∨ v ∈ f.held := by
  unfold declare held at h
  unfold held
  split at h
  case h_1 scope rest hscopes =>
    rw [hscopes, List.flatMap_cons, List.mem_append]
    rw [List.flatMap_cons, List.mem_append] at h
    cases h with
    | inl h => exact (Bindings.mem_values_insert h).imp_right .inl
    | inr h => exact .inr (.inr h)
  case h_2 hscopes => exact .inl (List.mem_singleton.mp h)

theorem mem_held_assignIn? {name : String} {value : Value} {scopes scopes' : List (Bindings Value)}
    (hassign : assignIn? name value scopes = some scopes')
    (h : v ∈ scopes'.flatMap Bindings.values) : v = value ∨ v ∈ scopes.flatMap Bindings.values := by
  induction scopes generalizing scopes' with
  | nil => cases hassign
  | cons scope scopes ih =>
      unfold assignIn? at hassign
      rw [List.flatMap_cons, List.mem_append]
      split at hassign
      · cases hassign
        rw [List.flatMap_cons, List.mem_append] at h
        cases h with
        | inl h => exact (Bindings.mem_values_insert h).imp_right .inl
        | inr h => exact .inr (.inr h)
      · rcases Option.map_eq_some_iff.mp hassign with ⟨rest, hrest, hscopes'⟩
        subst hscopes'
        rw [List.flatMap_cons, List.mem_append] at h
        cases h with
        | inl h => exact .inr (.inl h)
        | inr h => exact (ih hrest h).imp_right .inr

theorem mem_held_assign? {name : String} {value : Value} {f' : Frame}
    (hassign : f.assign? name value = some f') (h : v ∈ f'.held) : v = value ∨ v ∈ f.held := by
  rcases Option.map_eq_some_iff.mp hassign with ⟨scopes, hscopes, hf'⟩
  subst hf'
  exact mem_held_assignIn? hscopes h

theorem mem_held_popScope (h : v ∈ f.popScope.held) : v ∈ f.held := by
  rcases List.mem_flatMap.mp h with ⟨scope, hscope, hv⟩
  exact List.mem_flatMap.mpr ⟨scope, List.mem_of_mem_tail hscope, hv⟩

theorem mem_held_start {cls : String} {pairs : List (String × Value)}
    (h : v ∈ (Frame.start cls (.ofPairs pairs)).held) : v ∈ pairs.map Prod.snd := by
  rcases List.mem_flatMap.mp h with ⟨scope, hscope, hv⟩
  cases List.mem_singleton.mp hscope
  exact Bindings.mem_values_ofPairs hv

end Frame

/-! ## States -/

namespace State

variable {s : State} {v : Value}

def fieldsHeld (fields : Bindings (Bindings Value)) : List Value :=
  fields.values.flatMap Bindings.values

def values (s : State) : List Value :=
  (s.frame :: s.callers).flatMap (fun f => f.scopes.flatMap fun scope => scope.map Prod.snd) ++
    s.fields.flatMap fun cls => cls.2.map Prod.snd

def held (s : State) : List Value :=
  s.values ++ s.heap.held

theorem mem_values : v ∈ s.values ↔
    (v ∈ s.frame.held ∨ v ∈ s.callers.flatMap Frame.held) ∨ v ∈ fieldsHeld s.fields := by
  have hvalues : s.values =
      (s.frame.held ++ s.callers.flatMap Frame.held) ++ fieldsHeld s.fields := by
    unfold values fieldsHeld
    rw [Bindings.values, List.flatMap_map, List.flatMap_cons]
    rfl
  rw [hvalues, List.mem_append, List.mem_append]

theorem mem_held : v ∈ s.held ↔
    ((v ∈ s.frame.held ∨ v ∈ s.callers.flatMap Frame.held) ∨ v ∈ fieldsHeld s.fields) ∨
      v ∈ s.heap.held := by
  rw [held, List.mem_append, mem_values]

theorem mem_values_of_lookup? {name : String} (h : s.frame.lookup? name = some v) :
    v ∈ s.values :=
  mem_values.mpr (.inl (.inl (Frame.mem_held_of_lookup? h)))

theorem mem_values_of_field? {cls name : String} (h : s.field? cls name = some v) :
    v ∈ s.values := by
  rcases Option.bind_eq_some_iff.mp h with ⟨fields, hfields, hv⟩
  refine mem_values.mpr (.inr (List.mem_flatMap.mpr ⟨fields, ?_, ?_⟩))
  · exact Bindings.mem_values_of_get? hfields
  · exact Bindings.mem_values_of_get? hv

theorem mem_held_of_mem_values (h : v ∈ s.values) : v ∈ s.held :=
  List.mem_append_left _ h

theorem mem_held_of_mem_items {a : Nat} (h : v ∈ (s.heap.items a).toList) : v ∈ s.held :=
  List.mem_append_right _ (Heap.mem_held_of_mem_items h)

theorem mem_held_of_value? {place : Place} (h : place.value? s = some v) : v ∈ s.held := by
  cases place with
  | named name => exact mem_held_of_mem_values (mem_values_of_lookup? h)
  | field cls name => exact mem_held_of_mem_values (mem_values_of_field? h)
  | element address index =>
      have hmem : v ∈ s.heap.items address := Array.mem_of_getElem? h
      exact mem_held_of_mem_items (Array.mem_toList_iff.mpr hmem)

theorem mem_fieldsHeld_insert {fields : Bindings (Bindings Value)} {cls : String}
    {values : Bindings Value} (h : v ∈ fieldsHeld (fields.insert cls values)) :
    v ∈ values.values ∨ v ∈ fieldsHeld fields := by
  rcases List.mem_flatMap.mp h with ⟨b, hb, hv⟩
  cases Bindings.mem_values_insert hb with
  | inl hb =>
      subst hb
      exact .inl hv
  | inr hb => exact .inr (List.mem_flatMap.mpr ⟨b, hb, hv⟩)

theorem mem_fieldsHeld_setField {cls name : String} {value : Value}
    (h : v ∈ fieldsHeld (s.setField cls name value).fields) :
    v = value ∨ v ∈ fieldsHeld s.fields := by
  cases mem_fieldsHeld_insert h with
  | inl h =>
      refine (Bindings.mem_values_insert h).imp_right fun h => ?_
      cases hfields : s.fields.get? cls with
      | none =>
          rw [hfields] at h
          cases h
      | some fields =>
          rw [hfields] at h
          exact List.mem_flatMap.mpr ⟨fields, Bindings.mem_values_of_get? hfields, h⟩
  | inr h => exact .inr h

/-- All arrays that the state holds exist, and none contains itself. -/
structure Sound (s : State) : Prop where
  allocated : ∀ v ∈ s.held, v.Allocated s.heap.size
  acyclic : s.heap.Acyclic

theorem sound_initial : initial.Sound where
  allocated v hv := by
    cases hv
  acyclic a hcycle := by
    rcases Relation.TransGen.head'_iff.mp hcycle with ⟨b, hab, -⟩
    exact absurd hab.lt (Nat.not_lt_zero a)

namespace Sound

variable {s s' : State}

theorem of_heap_eq (h : s.Sound) (hheap : s'.heap = s.heap)
    (hheld : ∀ v ∈ s'.held, v ∈ s.held ∨ v.Allocated s.heap.size) : s'.Sound where
  allocated v hv := by
    rw [hheap]
    exact (hheld v hv).elim (h.allocated v) id
  acyclic := by
    rw [hheap]
    exact h.acyclic

theorem withRecorder (h : s.Sound) (k : Trace.Recorder) :
    ({ s with recorder := k } : State).Sound :=
  h.of_heap_eq rfl fun _ => .inl

theorem withFrame (h : s.Sound) {frame : Frame}
    (hframe : ∀ v ∈ frame.held, v ∈ s.frame.held ∨ v.Allocated s.heap.size) :
    ({ s with frame := frame } : State).Sound := by
  refine h.of_heap_eq rfl fun v hv => ?_
  rw [mem_held] at hv ⊢
  rcases hv with ((hv | hv) | hv) | hv
  · exact (hframe v hv).imp_left fun hv => .inl (.inl (.inl hv))
  · exact .inl (.inl (.inl (.inr hv)))
  · exact .inl (.inl (.inr hv))
  · exact .inl (.inr hv)

theorem pushScope (h : s.Sound) : s.pushScope.Sound :=
  h.withFrame fun _ => .inl

theorem popScope (h : s.Sound) : s.popScope.Sound :=
  h.withFrame fun _ hv => .inl (Frame.mem_held_popScope hv)

theorem declare (h : s.Sound) (name : String) {value : Value}
    (hvalue : value.Allocated s.heap.size) : (s.declare name value).Sound := by
  apply h.withFrame
  intro v hv
  cases Frame.mem_held_declare hv with
  | inl hv =>
      subst hv
      exact .inr hvalue
  | inr hv => exact .inl hv

theorem assign (h : s.Sound) {name : String} {value : Value} {frame : Frame}
    (hvalue : value.Allocated s.heap.size) (hframe : s.frame.assign? name value = some frame) :
    ({ s with frame := frame } : State).Sound := by
  apply h.withFrame
  intro v hv
  cases Frame.mem_held_assign? hframe hv with
  | inl hv =>
      subst hv
      exact .inr hvalue
  | inr hv => exact .inl hv

theorem withFields (h : s.Sound) {fields : Bindings (Bindings Value)}
    (hfields : ∀ v ∈ fieldsHeld fields, v ∈ fieldsHeld s.fields ∨ v.Allocated s.heap.size) :
    ({ s with fields := fields } : State).Sound := by
  refine h.of_heap_eq rfl fun v hv => ?_
  rw [mem_held] at hv ⊢
  rcases hv with (hv | hv) | hv
  · exact .inl (.inl (.inl hv))
  · exact (hfields v hv).imp_left fun hv => .inl (.inr hv)
  · exact .inl (.inr hv)

theorem setField (h : s.Sound) (cls name : String) {value : Value}
    (hvalue : value.Allocated s.heap.size) : (s.setField cls name value).Sound := by
  apply h.withFields
  intro v hv
  cases mem_fieldsHeld_setField hv with
  | inl hv =>
      subst hv
      exact .inr hvalue
  | inr hv => exact .inl hv

theorem openClass (h : s.Sound) (cls : String) : (s.openClass cls).Sound := by
  apply h.withFields
  intro v hv
  cases mem_fieldsHeld_insert hv with
  | inl hv => cases hv
  | inr hv => exact .inl hv

theorem pushFrame (h : s.Sound) {frame : Frame}
    (hframe : ∀ v ∈ frame.held, v.Allocated s.heap.size) : (s.pushFrame frame).Sound := by
  refine h.of_heap_eq rfl fun v hv => ?_
  rw [mem_held] at hv ⊢
  rcases hv with ((hv | hv) | hv) | hv
  · exact .inr (hframe v hv)
  · have hv : v ∈ s.frame.held ++ s.callers.flatMap Frame.held := hv
    exact .inl (.inl (.inl (List.mem_append.mp hv)))
  · exact .inl (.inl (.inr hv))
  · exact .inl (.inr hv)

theorem popFrame (h : s.Sound) : s.popFrame.Sound := by
  unfold State.popFrame
  split
  case h_1 caller rest hcallers =>
    refine h.of_heap_eq rfl fun v hv => ?_
    rw [mem_held] at hv ⊢
    rw [hcallers, List.flatMap_cons, List.mem_append]
    rcases hv with (hv | hv) | hv
    · exact .inl (.inl (.inl (.inr hv)))
    · exact .inl (.inl (.inr hv))
    · exact .inl (.inr hv)
  case h_2 => exact h

theorem allocate (h : s.Sound) {items : Array Value}
    (hitems : ∀ v ∈ items.toList, v.Allocated s.heap.size) :
    ({ s with heap := s.heap.push items } : State).Sound where
  allocated v hv := by
    have hsize : (s.heap.push items).size = s.heap.size + 1 := Array.size_push items
    have hold : v.Allocated s.heap.size := by
      rw [mem_held] at hv
      rcases hv with hv | hv
      · exact h.allocated v (mem_held.mpr (.inl hv))
      · rcases Heap.exists_mem_items_of_mem_held hv with ⟨a, ha⟩
        rw [Heap.items_push] at ha
        split at ha
        · exact hitems v ha
        · exact h.allocated v (mem_held_of_mem_items ha)
    exact hold.mono (by rw [hsize]; omega)
  acyclic := h.acyclic.push (fun v hv => h.allocated v (mem_held.mpr (.inr hv))) hitems

/-- A store into an element, if no array contains itself after it. -/
theorem storeAcyclic (h : s.Sound) {address index : Nat} {value : Value}
    (hvalue : value.Allocated s.heap.size)
    (hacyclic : (s.heap.store address index value).Acyclic) :
    ({ s with heap := s.heap.store address index value } : State).Sound where
  allocated v hv := by
    rw [Heap.size_store]
    rw [mem_held] at hv
    rcases hv with hv | hv
    · exact h.allocated v (mem_held.mpr (.inl hv))
    · rcases Heap.exists_mem_items_of_mem_held hv with ⟨a, ha⟩
      cases Heap.mem_items_store ha with
      | inl hv =>
          subst hv
          exact hvalue
      | inr hv => exact h.allocated v (mem_held_of_mem_items hv)
  acyclic := hacyclic

theorem store (h : s.Sound) (address index : Nat) {value : Value}
    (hvalue : ∀ a, value ≠ .array a) :
    ({ s with heap := s.heap.store address index value } : State).Sound :=
  h.storeAcyclic (Value.allocated_of_not_array hvalue) (h.acyclic.store hvalue)

mutual

theorem load {s : State} (h : s.Sound) : ∀ copy : Trace.Snapshot,
    ({ s with heap := (s.heap.load copy).2 } : State).Sound ∧
      s.heap.size ≤ (s.heap.load copy).2.size ∧
      (s.heap.load copy).1.Allocated (s.heap.load copy).2.size
  | .null | .int _ | .bool _ | .str _ | .object _ | .error _ =>
      ⟨h, Nat.le_refl _, Value.allocated_of_not_array nofun⟩
  | .array copies => by
      rcases h.loadAll copies with ⟨hsound, hle, hvalues⟩
      let heap := (s.heap.loadAll copies).2
      let items := (s.heap.loadAll copies).1.toArray
      have hsize : (heap.push items).size = heap.size + 1 := Array.size_push items
      refine ⟨hsound.allocate fun v hv => hvalues v ?_, ?_, ?_⟩
      · rwa [List.toList_toArray] at hv
      · show s.heap.size ≤ (heap.push items).size
        rw [hsize]
        exact Nat.le_succ_of_le hle
      · intro a ha
        cases ha
        show heap.size < (heap.push items).size
        rw [hsize]
        exact Nat.lt_succ_self heap.size

theorem loadAll {s : State} (h : s.Sound) : ∀ copies : List Trace.Snapshot,
    ({ s with heap := (s.heap.loadAll copies).2 } : State).Sound ∧
      s.heap.size ≤ (s.heap.loadAll copies).2.size ∧
      ∀ v ∈ (s.heap.loadAll copies).1, v.Allocated (s.heap.loadAll copies).2.size
  | [] => ⟨h, Nat.le_refl _, fun _ hv => absurd hv List.not_mem_nil⟩
  | copy :: rest => by
      rcases h.load copy with ⟨hsound, hle, hvalue⟩
      rcases hsound.loadAll rest with ⟨hsound', hle', hvalues⟩
      refine ⟨hsound', Nat.le_trans hle hle', fun v hv => ?_⟩
      cases List.mem_cons.mp hv with
      | inl hv =>
          subst hv
          exact hvalue.mono hle'
      | inr hv => exact hvalues v hv

end

end Sound
end State
end Eval
end TraceWeaving
