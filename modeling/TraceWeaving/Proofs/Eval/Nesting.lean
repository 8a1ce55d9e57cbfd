import Mathlib.Data.Finset.Card
import Mathlib.Data.Finset.Range
import Mathlib.Data.List.Chain
import Mathlib.Logic.Relation
import TraceWeaving.Eval.Value

/-!
# Nested arrays

An array holds the arrays that are among its elements.  Copies of values are taken within
a depth that the size of the heap gives, and a copy is missing exactly when some array
contains itself.
-/

namespace TraceWeaving
namespace Eval
namespace Heap

def Holds (heap : Heap) (a b : Nat) : Prop :=
  Value.array b ∈ (heap.items a).toList

/-- No array contains itself, neither directly nor through other arrays. -/
def Acyclic (heap : Heap) : Prop :=
  ∀ a, ¬ Relation.TransGen heap.Holds a a

def AcyclicFrom (heap : Heap) (a : Nat) : Prop :=
  ∀ b, Relation.ReflTransGen heap.Holds a b → ¬ Relation.TransGen heap.Holds b b

/-- Whether every array has a copy. -/
def isAcyclic (heap : Heap) : Bool :=
  (List.range heap.size).all fun a => (heap.snapshot? (.array a)).isSome

variable {heap : Heap}

theorem items_of_size_le {a : Nat} (h : heap.size ≤ a) : heap.items a = #[] := by
  unfold items
  rw [Array.getD_eq_getD_getElem?, Array.getElem?_eq_none h]
  rfl

theorem Holds.lt {a b : Nat} (h : heap.Holds a b) : a < heap.size := by
  apply Nat.lt_of_not_le
  intro hle
  unfold Holds at h
  rw [items_of_size_le hle] at h
  exact absurd h (by simp)

theorem mapM_isSome {α β : Type} {f : α → Option β} {xs : List α} :
    (xs.mapM f).isSome = true ↔ ∀ x ∈ xs, (f x).isSome = true := by
  induction xs with
  | nil => simp
  | cons x xs ih =>
      rw [List.mapM_cons, List.forall_mem_cons, ← ih]
      cases f x with
      | none => simp
      | some y => cases xs.mapM f <;> simp

theorem snapshotWithin_array {depth a : Nat} :
    (heap.snapshotWithin (depth + 1) (.array a)).isSome = true ↔
      ∀ v ∈ (heap.items a).toList, (heap.snapshotWithin depth v).isSome = true := by
  show (((heap.items a).toList.mapM (heap.snapshotWithin depth)).map Trace.Snapshot.array).isSome =
    true ↔ _
  rw [Option.isSome_map]
  exact mapM_isSome

theorem snapshotWithin_of_not_array {depth : Nat} {v : Value} (h : ∀ a, v ≠ .array a) :
    (heap.snapshotWithin depth v).isSome = true := by
  cases v with
  | array a => exact absurd rfl (h a)
  | null | int _ | bool _ | str _ | object _ | throwable _ =>
      unfold snapshotWithin
      rfl

/-! ## Greater depths -/

theorem mapM_eq_some_of_forall {α β : Type} {f g : α → Option β} {xs : List α} {ys : List β}
    (hfg : ∀ x y, f x = some y → g x = some y) (h : xs.mapM f = some ys) :
    xs.mapM g = some ys := by
  induction xs generalizing ys with
  | nil => exact h
  | cons x xs ih =>
      rw [List.mapM_cons] at h ⊢
      rcases Option.bind_eq_some_iff.mp h with ⟨y, hy, h⟩
      rcases Option.bind_eq_some_iff.mp h with ⟨rest, hrest, hys⟩
      rw [hfg x y hy, Option.bind_eq_bind, Option.bind_some, ih hrest]
      exact hys

theorem snapshotWithin_succ {depth : Nat} {v : Value} {copy : Trace.Snapshot}
    (h : heap.snapshotWithin depth v = some copy) :
    heap.snapshotWithin (depth + 1) v = some copy := by
  induction depth generalizing v copy with
  | zero =>
      cases v with
      | array a => cases h
      | null | int _ | bool _ | str _ | object _ | throwable _ => exact h
  | succ depth ih =>
      cases v with
      | array a =>
          rcases Option.map_eq_some_iff.mp h with ⟨items, hitems, hcopy⟩
          exact Option.map_eq_some_iff.mpr
            ⟨items, mapM_eq_some_of_forall (fun _ _ => ih) hitems, hcopy⟩
      | null | int _ | bool _ | str _ | object _ | throwable _ => exact h

theorem snapshotWithin_of_le {depth depth' : Nat} {v : Value} {copy : Trace.Snapshot}
    (h : heap.snapshotWithin depth v = some copy) (hle : depth ≤ depth') :
    heap.snapshotWithin depth' v = some copy := by
  induction hle with
  | refl => exact h
  | step _ ih => exact snapshotWithin_succ ih

/-! ## Missing copies -/

theorem snapshotWithin_of_transGen {a b : Nat} (h : Relation.TransGen heap.Holds a b) :
    ∀ depth, (heap.snapshotWithin depth (.array a)).isSome = true →
      ∃ depth' < depth, (heap.snapshotWithin depth' (.array b)).isSome = true := by
  have hstep : ∀ {a b : Nat}, heap.Holds a b → ∀ depth,
      (heap.snapshotWithin depth (.array a)).isSome = true →
        ∃ depth' < depth, (heap.snapshotWithin depth' (.array b)).isSome = true := by
    intro a b hab depth ha
    cases depth with
    | zero => exact absurd ha (by simp [snapshotWithin])
    | succ depth => exact ⟨depth, Nat.lt_succ_self depth, snapshotWithin_array.mp ha _ hab⟩
  induction h with
  | single hab => exact hstep hab
  | tail _ hbc ih =>
      intro depth ha
      rcases ih depth ha with ⟨d, hd, hb⟩
      rcases hstep hbc d hb with ⟨d', hd', hc⟩
      exact ⟨d', Nat.lt_trans hd' hd, hc⟩

theorem snapshotWithin_of_cycle {a : Nat} (h : Relation.TransGen heap.Holds a a) (depth : Nat) :
    (heap.snapshotWithin depth (.array a)).isSome = false := by
  induction depth using Nat.strongRecOn with
  | _ depth ih =>
      rw [Bool.eq_false_iff]
      intro hsome
      rcases snapshotWithin_of_transGen h depth hsome with ⟨d, hd, hsome'⟩
      exact absurd hsome' (by rw [ih d hd]; decide)

/-- A copy that is missing at some depth shows a chain of arrays that long. -/
theorem chain_of_snapshotWithin {depth a : Nat}
    (h : (heap.snapshotWithin depth (.array a)).isSome = false) :
    ∃ chain : List Nat, (a :: chain).IsChain heap.Holds ∧ chain.length = depth := by
  induction depth generalizing a with
  | zero => exact ⟨[], by simp, rfl⟩
  | succ depth ih =>
      have hmissing : ∃ v ∈ (heap.items a).toList,
          (heap.snapshotWithin depth v).isSome = false := by
        by_contra hall
        refine absurd (snapshotWithin_array.mpr fun v hv => ?_) (by rw [h]; decide)
        by_contra hv'
        exact hall ⟨v, hv, Bool.eq_false_iff.mpr hv'⟩
      rcases hmissing with ⟨v, hv, hnone⟩
      have harray : ∃ b, v = .array b := by
        by_contra hnot
        have hsome : (heap.snapshotWithin depth v).isSome = true :=
          snapshotWithin_of_not_array fun b hb => hnot ⟨b, hb⟩
        exact absurd hsome (by rw [hnone]; decide)
      rcases harray with ⟨b, rfl⟩
      rcases ih hnone with ⟨chain, hchain, hlength⟩
      exact ⟨b :: chain, .cons_cons hv hchain, congrArg (· + 1) hlength⟩

theorem AcyclicFrom.length_le {a : Nat} (h : heap.AcyclicFrom a) {chain : List Nat}
    (hchain : (a :: chain).IsChain heap.Holds) : chain.length ≤ heap.size := by
  have hpairs : (a :: chain).Pairwise (Relation.TransGen heap.Holds) :=
    List.isChain_iff_pairwise.mp (hchain.imp fun _ _ => Relation.TransGen.single)
  have hreached : ∀ x ∈ a :: chain, Relation.ReflTransGen heap.Holds a x := by
    intro x hx
    rcases List.mem_cons.mp hx with rfl | hx
    · exact .refl
    · exact ((List.pairwise_cons.mp hpairs).1 x hx).to_reflTransGen
  have hnodup : (a :: chain).Nodup := by
    refine hpairs.imp_of_mem fun hx _ hxy heq => ?_
    subst heq
    exact h _ (hreached _ hx) hxy
  -- every array of the chain but the last holds an element, so it is on the heap
  have hlt : ∀ x ∈ (a :: chain).dropLast, x < heap.size := by
    intro x hx
    clear hpairs hreached hnodup h
    induction chain generalizing a with
    | nil => exact absurd hx (by simp)
    | cons b chain ih =>
        rw [List.dropLast_cons_cons] at hx
        rw [List.isChain_cons_cons] at hchain
        rcases List.mem_cons.mp hx with rfl | hx
        · exact hchain.1.lt
        · exact ih hchain.2 hx
  have hsubset : (a :: chain).dropLast.toFinset ⊆ Finset.range heap.size := by
    intro x hx
    exact Finset.mem_range.mpr (hlt x (List.mem_toFinset.mp hx))
  have hcard := Finset.card_le_card hsubset
  rw [List.toFinset_card_of_nodup (hnodup.sublist (List.dropLast_sublist _)),
    Finset.card_range, List.length_dropLast] at hcard
  exact hcard

theorem snapshot?_isSome_of_acyclicFrom {v : Value} (h : ∀ a, v = .array a → heap.AcyclicFrom a) :
    (heap.snapshot? v).isSome = true := by
  by_contra hnone
  have hnone := Bool.eq_false_iff.mpr hnone
  cases v with
  | array a =>
      rcases chain_of_snapshotWithin hnone with ⟨chain, hchain, hlength⟩
      have hle := (h a rfl).length_le hchain
      omega
  | null | int _ | bool _ | str _ | object _ | throwable _ =>
      exact absurd hnone (by simp [snapshot?, snapshotWithin])

theorem Acyclic.acyclicFrom (h : heap.Acyclic) (a : Nat) : heap.AcyclicFrom a :=
  fun b _ => h b

theorem Acyclic.snapshot?_isSome (h : heap.Acyclic) (v : Value) :
    (heap.snapshot? v).isSome = true :=
  snapshot?_isSome_of_acyclicFrom fun a _ => h.acyclicFrom a

theorem acyclicFrom_of_snapshotWithin {depth a : Nat}
    (h : (heap.snapshotWithin depth (.array a)).isSome = true) : heap.AcyclicFrom a := by
  intro b hab hcycle
  have hb : ∃ depth, (heap.snapshotWithin depth (.array b)).isSome = true := by
    rcases Relation.reflTransGen_iff_eq_or_transGen.mp hab with rfl | hab
    · exact ⟨_, h⟩
    · rcases snapshotWithin_of_transGen hab _ h with ⟨depth, _, hb⟩
      exact ⟨depth, hb⟩
  rcases hb with ⟨depth, hb⟩
  rw [snapshotWithin_of_cycle hcycle] at hb
  exact absurd hb Bool.false_ne_true

theorem acyclicFrom_of_snapshot? {a : Nat} (h : (heap.snapshot? (.array a)).isSome = true) :
    heap.AcyclicFrom a :=
  acyclicFrom_of_snapshotWithin h

/-- A value has a copy exactly if no array that it reaches contains itself. -/
theorem snapshot?_isSome_iff {v : Value} :
    (heap.snapshot? v).isSome = true ↔ ∀ a, v = .array a → heap.AcyclicFrom a := by
  constructor
  · intro h a ha
    subst ha
    exact acyclicFrom_of_snapshot? h
  · exact snapshot?_isSome_of_acyclicFrom

theorem snapshot?_eq_some_iff {v : Value} {copy : Trace.Snapshot} :
    heap.snapshot? v = some copy ↔ ∃ depth, heap.snapshotWithin depth v = some copy := by
  constructor
  · exact fun h => ⟨_, h⟩
  · intro ⟨depth, h⟩
    have hsome : (heap.snapshot? v).isSome = true := by
      apply snapshot?_isSome_of_acyclicFrom
      intro a ha
      subst ha
      exact acyclicFrom_of_snapshotWithin (Option.isSome_iff_exists.mpr ⟨copy, h⟩)
    rcases Option.isSome_iff_exists.mp hsome with ⟨copy', hcopy'⟩
    have hlarge := snapshotWithin_of_le h (Nat.le_max_left depth (heap.size + 1))
    have hlarge' := snapshotWithin_of_le hcopy' (Nat.le_max_right depth (heap.size + 1))
    rw [hcopy', ← hlarge', hlarge]

/-- All arrays have copies exactly when none contains itself. -/
theorem isAcyclic_iff : heap.isAcyclic = true ↔ heap.Acyclic := by
  constructor
  · intro hall a hcycle
    have ha : a < heap.size := by
      rcases Relation.TransGen.head'_iff.mp hcycle with ⟨b, hab, -⟩
      exact hab.lt
    have hsome : (heap.snapshot? (.array a)).isSome = true :=
      List.all_eq_true.mp hall a (List.mem_range.mpr ha)
    exact absurd hsome (by rw [snapshot?, snapshotWithin_of_cycle hcycle]; decide)
  · intro h
    exact List.all_eq_true.mpr fun a _ => h.snapshot?_isSome (.array a)

theorem snapshot?_of_isAcyclic (h : heap.isAcyclic = true) (v : Value) :
    ∃ copy, heap.snapshot? v = some copy :=
  Option.isSome_iff_exists.mp ((isAcyclic_iff.mp h).snapshot?_isSome v)

end Heap
end Eval
end TraceWeaving
