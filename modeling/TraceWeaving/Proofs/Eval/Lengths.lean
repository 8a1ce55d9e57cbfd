import TraceWeaving.Proofs.Eval.Held
import TraceWeaving.Proofs.Eval.Limit

/-!
# Lengths of arrays

An array keeps the length that it is made with.  An element is checked to exist when the place
of an assignment is worked out, and arbitrary code may run before the element is written; since
no code changes the length of the array, the element is still there, and the write lands in it.
-/

namespace TraceWeaving
namespace Eval

open Code
open Trace (Throwable)

variable {α β : Type}

/-! ## Heaps -/

namespace Heap

/-- The lengths of all arrays, in the order in which the arrays were made. -/
def lengths (heap : Heap) : List Nat :=
  heap.toList.map Array.size

variable {heap heap' : Heap}

theorem lengths_push (items : Array Value) :
    Heap.lengths (heap.push items) = heap.lengths ++ [items.size] := by
  unfold lengths
  rw [Array.toList_push, List.map_append]
  rfl

theorem size_items (address : Nat) : (heap.items address).size = heap.lengths.getD address 0 := by
  unfold items lengths
  rw [Array.getD_eq_getD_getElem?, List.getD_eq_getElem?_getD, List.getElem?_map,
    Array.getElem?_toList]
  cases heap[address]? <;> rfl

theorem length_lengths : heap.lengths.length = heap.size := by
  unfold lengths
  rw [List.length_map, Array.length_toList]

theorem lengths_store (address index : Nat) (value : Value) :
    (heap.store address index value).lengths = heap.lengths := by
  apply List.ext_getElem
  · rw [length_lengths, length_lengths, size_store]
  · intro a ha ha'
    have hsize : ((heap.store address index value).items a).size = (heap.items a).size := by
      rw [items_store]
      split
      · exact Array.size_setIfInBounds
      · rfl
    rw [size_items, size_items, List.getD_eq_getElem?_getD, List.getD_eq_getElem?_getD,
      List.getElem?_eq_getElem ha, List.getElem?_eq_getElem ha'] at hsize
    exact hsize

theorem size_items_of_isPrefix (h : heap.lengths <+: heap'.lengths) {address : Nat}
    (ha : address < heap.size) : (heap'.items address).size = (heap.items address).size := by
  have hlt : address < heap.lengths.length := by
    rw [length_lengths]
    exact ha
  rw [size_items, size_items, List.getD_eq_getElem?_getD, List.getD_eq_getElem?_getD,
    List.getElem?_eq_getElem hlt, List.prefix_iff_getElem?.mp h address hlt]

theorem lt_size_items_of_isPrefix (h : heap.lengths <+: heap'.lengths) {address index : Nat}
    (hindex : index < (heap.items address).size) : index < (heap'.items address).size := by
  have ha : address < heap.size := by
    apply Nat.lt_of_not_le
    intro hle
    rw [items_of_size_le hle] at hindex
    exact Nat.not_lt_zero index hindex
  rw [size_items_of_isPrefix h ha]
  exact hindex

end Heap

/-! ## Lengths are kept -/

/-- The arrays have the lengths they had; there may be new arrays. -/
def State.SameLengths (s s' : State) : Prop :=
  s.heap.lengths <+: s'.heap.lengths

theorem State.heap_popFrame (s : State) : s.popFrame.heap = s.heap := by
  unfold State.popFrame
  split <;> rfl

open State (SameLengths)

theorem framing_sameLengths : Framing SameLengths where
  refl _ := List.prefix_rfl
  trans h h' := h.trans h'
  popScope h := h
  recorder _ _ := List.prefix_rfl

theorem Keeps.of_same_heap {x : Action α} (h : ∀ s, (x s).Leaves fun s' => s'.heap = s.heap) :
    Keeps SameLengths x := by
  intro s
  refine (h s).mono fun s' hs' => ?_
  unfold SameLengths
  rw [hs']

theorem keeps_store (address index : Nat) (value : Value) :
    Keeps SameLengths (Place.write (.element address index) value) := by
  refine .modify fun s => ?_
  unfold SameLengths
  rw [Heap.lengths_store]

theorem keeps_allocate (items : Array Value) : Keeps SameLengths (Action.allocate items) := by
  intro s
  show s.heap.lengths <+: Heap.lengths (s.heap.push items)
  rw [Heap.lengths_push]
  exact List.prefix_append _ _

theorem closed_sameLengths : ClosedStmt (ι := Unit) fun x => Keeps SameLengths (x ()) where
  toClosedCore := framing_sameLengths.core
  assign _ _ := framing_sameLengths.assign fun _ _ _ => List.prefix_rfl
  setField _ _ _ := .of_same_heap fun _ => rfl
  openNew cls := .of_same_heap fun s => by
    show (Action.openNew cls s).Leaves _
    unfold Action.openNew
    split <;> rfl
  inFrame frame hx s := (hx (s.pushFrame frame)).mapState fun s' h => by
    unfold SameLengths
    rw [s'.heap_popFrame]
    exact h
  declare _ _ := .of_same_heap fun _ => rfl

namespace Program

variable (p : Program) (steps : Nat)

theorem evaluator_sameLengths :
    Evaluator.Has (ι := Unit) (fun x => Keeps SameLengths (x ())) fun _ => p.evaluator steps := by
  have h := closed_sameLengths
  induction steps with
  | zero => exact ⟨fun _ _ => trivial, fun _ _ => trivial, fun _ _ _ => trivial⟩
  | succ steps ih =>
      rw [← p.step_evaluator steps]
      constructor
      · intro e
        exact h.evalStep_of_has keeps_store keeps_allocate framing_sameLengths.receive ih p e
      · intro s
        exact h.execStep (r := fun _ => p.evaluator steps) (fun e _ => ih.eval e)
          (fun t _ => ih.exec t) fun loop _ label => ih.iterate label loop
      · intro label loop
        exact h.loopRound (r := fun _ => p.evaluator steps)
          (g := fun _ => (p.evaluator steps).iterate label loop) (fun e _ => ih.eval e)
          (ih.exec loop.body) (ih.iterate label loop)

theorem call_sameLengths (cls method : String) (args : List Value) :
    Keeps SameLengths (p.call steps cls method args) :=
  framing_sameLengths.call (closed_sameLengths.callees (p.evaluator_sameLengths steps) p)
    cls method args

theorem fieldValue_sameLengths (cls name : String) :
    Keeps SameLengths (p.fieldValue steps cls name) := by
  have h := closed_sameLengths.readField
    (closed_sameLengths.callees (p.evaluator_sameLengths steps) p) cls name
  simp only [withBodies_own] at h
  exact h

end Program

/-! ## Runs that are cut short -/

def Action.measured (resized : Fault) (x : Action α) : Action α :=
  fun s =>
    match x s with
    | .done a s' => if s.heap.lengths <+: s'.heap.lengths then .done a s' else .fault resized s'
    | .thrown t s' =>
        if s.heap.lengths <+: s'.heap.lengths then .thrown t s' else .fault resized s'
    | .fault f s' => if s.heap.lengths <+: s'.heap.lengths then .fault f s' else .fault resized s'
    | .exhausted => .exhausted

theorem Keeps.measured_eq {x : Action α} (hx : Keeps SameLengths x) (resized : Fault) :
    x.measured resized = x := by
  funext s
  have hs := hx s
  unfold Action.measured
  cases ho : x s with
  | done _ _ | thrown _ _ | fault _ _ =>
      rw [ho] at hs
      exact if_pos hs
  | exhausted => rfl

/-- The rules of a program with the lengths compared before and after every step. -/
def Program.measured (p : Program) (resized : Fault) : Rules where
  eval r e := (evalStep p r e).measured resized
  exec r s := (execStep r s).measured resized
  round r label loop goOn := (loopRound r label loop goOn).measured resized

theorem Program.measured_within (p : Program) (resized : Fault) (steps : Nat) :
    (p.measured resized).within steps = p.evaluator steps := by
  induction steps with
  | zero => rfl
  | succ steps ih =>
      have hkeeps := p.evaluator_sameLengths (steps + 1)
      rw [← p.step_evaluator steps] at hkeeps ⊢
      show (p.measured resized).step ((p.measured resized).within steps) = _
      rw [ih]
      have heval : (p.measured resized).eval (p.evaluator steps) =
          evalStep p (p.evaluator steps) :=
        funext fun e => (hkeeps.eval e).measured_eq resized
      have hexec : (p.measured resized).exec (p.evaluator steps) = execStep (p.evaluator steps) :=
        funext fun s => (hkeeps.exec s).measured_eq resized
      have hround : ∀ label loop, (p.measured resized).round (p.evaluator steps) label loop
          ((p.evaluator steps).iterate label loop) =
            loopRound (p.evaluator steps) label loop ((p.evaluator steps).iterate label loop) :=
        fun label loop => (hkeeps.iterate label loop).measured_eq resized
      unfold Rules.step
      rw [heval, hexec]
      simp only [hround]
      rfl

/-! ## Operators -/

abbrev Looks (x : Action α) : Prop :=
  Keeps (fun s s' => s' = s) x

namespace Looks

theorem pure (a : α) : Looks (Pure.pure a) :=
  fun _ => rfl

theorem raise (cls message : String) : Looks (Action.raise cls message : Action α) :=
  fun _ => rfl

theorem fail (f : Fault) : Looks (Action.fail f : Action α) :=
  fun _ => rfl

theorem look (g : View → α) : Looks (Action.look g) :=
  fun _ => rfl

theorem bind {x : Action α} {f : α → Action β} (hx : Looks x) (hf : ∀ a, Looks (f a)) :
    Looks (x >>= f) := by
  intro s
  have hs := hx s
  show (Action.bind x f s).Leaves _
  unfold Action.bind
  cases ho : x s with
  | done a s' =>
      rw [ho] at hs
      cases hs
      exact hf a s
  | thrown _ _ | fault _ _ =>
      rw [ho] at hs
      exact hs
  | exhausted => trivial

theorem orDiverge (a : Option α) : Looks (Action.orDiverge a) := by
  cases a with
  | none => exact fun _ => trivial
  | some a => exact pure a

theorem text (v : Value) : Looks v.text := by
  unfold Value.text
  rw [snapshot_eq]
  exact ((look _).bind orDiverge).bind fun _ => pure _

theorem concatenate (a b : Value) : Looks (concatenate a b) :=
  (text a).bind fun _ => (text b).bind fun _ => pure _

theorem equals (a b : Value) : Looks (a.equals b) := by
  rw [equals_eq]
  exact (look _).bind orDiverge

theorem applyToInts (op : BinaryOp) (a b : Int64) : Looks (applyToInts op a b) := by
  cases op <;> simp only [Eval.applyToInts]
  case div | rem =>
    split
    · exact raise _ _
    · exact pure _
  case and | or => exact fail _
  all_goals exact pure _

theorem applyBinary (op : BinaryOp) (a b : Value) : Looks (applyBinary op a b) := by
  unfold Eval.applyBinary
  split
  · exact concatenate _ _
  · exact concatenate _ _
  · exact (equals _ _).bind fun _ => pure _
  · exact (equals _ _).bind fun _ => pure _
  · exact applyToInts _ _ _
  · exact fail _

end Looks

/-! ## Elements -/

theorem read_element {s : State} {address index : Nat}
    (h : index < (s.heap.items address).size) :
    Place.read (.element address index) s = .done (s.heap.items address)[index] s := by
  show Action.orFail _ ((s.heap.items address)[index]?) s = _
  rw [Array.getElem?_eq_getElem h]
  rfl

/-- One element was written, and nothing else was changed. -/
structure State.Written (s s' : State) (address index : Nat) (v : Value) : Prop where
  slot : (s'.heap.items address)[index]? = some v
  others : ∀ a i, ¬(a = address ∧ i = index) → (s'.heap.items a)[i]? = (s.heap.items a)[i]?
  lengths : s'.heap.lengths = s.heap.lengths
  rest : s' = { s with heap := s'.heap }

theorem written_store {s : State} {address index : Nat} (h : index < (s.heap.items address).size)
    (v : Value) :
    s.Written { s with heap := s.heap.store address index v } address index v := by
  constructor
  · show ((s.heap.store address index v).items address)[index]? = some v
    rw [Heap.items_store, if_pos rfl, Array.getElem?_setIfInBounds_self_of_lt h]
  · intro a i hother
    show ((s.heap.store address index v).items a)[i]? = (s.heap.items a)[i]?
    rw [Heap.items_store]
    by_cases ha : a = address
    · rw [if_pos ha, Array.getElem?_setIfInBounds_ne fun hi => hother ⟨ha, hi.symm⟩]
    · rw [if_neg ha]
  · exact Heap.lengths_store address index v
  · rfl

section

variable {r : Evaluator} {s s₁ : State}

theorem evalArray_done {e : Expr} {address : Nat} (h : r.evalArray e s = .done address s₁) :
    r.eval e s = .done (.array address) s₁ := by
  rcases Action.of_bind_eq_done h with ⟨value, s', heval, h⟩
  cases value with
  | array _ =>
      cases h
      exact heval
  | null | int _ | bool _ | str _ | object _ | throwable _ => cases h

theorem evalInt_done {e : Expr} {operation : String} {n : Int64}
    (h : r.evalInt e operation s = .done n s₁) : r.eval e s = .done (.int n) s₁ := by
  rcases Action.of_bind_eq_done h with ⟨value, s', heval, h⟩
  cases value with
  | int _ =>
      cases h
      exact heval
  | null | bool _ | str _ | array _ | object _ | throwable _ => cases h

theorem checkIndex_done {n : Int64} {size index : Nat} (h : checkIndex n size s = .done index s₁) :
    index < size ∧ 0 ≤ n ∧ index = n.toInt.toNat ∧ s₁ = s := by
  unfold checkIndex at h
  split at h
  case isTrue hbounds =>
    cases h
    have hnonneg : 0 ≤ n.toInt := Int64.le_iff_toInt_le.mp hbounds.1
    have hsize := hbounds.2
    have hlt : n.toInt.toNat < size := by omega
    exact ⟨hlt, hbounds.1, rfl, rfl⟩
  case isFalse => cases h

variable {p : Program} {array position : Expr} {place : Place}

/-- The place of an element expression is an element that exists. -/
theorem resolvePlace_index_done (h : resolvePlace p r (.index array position) s = .done place s₁) :
    ∃ address n s₀, r.eval array s = .done (.array address) s₀ ∧
      r.eval position s₀ = .done (.int n) s₁ ∧ 0 ≤ n ∧
      n.toInt.toNat < (s₁.heap.items address).size ∧ place = .element address n.toInt.toNat := by
  rcases Action.of_bind_eq_done h with ⟨⟨address, index⟩, _, hlocate, hplace⟩
  cases hplace
  rw [locateElement_eq] at hlocate
  rcases Action.of_bind_eq_done hlocate with ⟨_, s₀, harray, hlocated⟩
  rcases Action.of_bind_eq_done hlocated with ⟨n, _, hposition, hsized⟩
  rcases Action.of_bind_eq_done hsized with ⟨_, _, hsize, hchecked⟩
  cases hsize
  rcases Action.of_bind_eq_done hchecked with ⟨_, _, hindex, hpair⟩
  cases hpair
  rcases checkIndex_done hindex with ⟨hlt, hnonneg, rfl, rfl⟩
  exact ⟨address, n, s₀, evalArray_done harray, evalInt_done hposition, hnonneg, hlt, rfl⟩

variable {address index : Nat} {current : Value}
variable (hplace : resolvePlace p r (.index array position) s = .done (.element address index) s₁)
variable (hread : Place.read (.element address index) s₁ = .done current s₁)

include hplace

theorem evalAssign_plain_element {value : Expr} {v : Value} {s₂ : State}
    (hvalue : r.eval value s₁ = .done v s₂) :
    evalAssign p r .plain (.index array position) value s =
      .done v { s₂ with heap := s₂.heap.store address index v } := by
  unfold evalAssign
  rw [Action.bind_of_eq_done hplace]
  dsimp only [AssignOp.arithmetic?]
  rw [Action.bind_of_eq_done hvalue]
  rfl

include hread

theorem evalAssign_compound_element {op : AssignOp} {arithmetic : BinaryOp}
    (hop : op.arithmetic? = some arithmetic) {value : Expr} {operand : Value} {s₂ : State}
    (hvalue : r.eval value s₁ = .done operand s₂) :
    evalAssign p r op (.index array position) value s =
      (applyBinary arithmetic current operand >>= fun v =>
        Place.write (.element address index) v >>= fun _ => pure v) s₂ := by
  unfold evalAssign
  rw [hop, Action.bind_of_eq_done hplace]
  dsimp only
  rw [Action.bind_of_eq_done hread, Action.bind_of_eq_done hvalue]

theorem evalStepping_element_int {n : Int64} (hn : current = .int n) (op : UnaryOp) :
    evalStepping p r op (.index array position) s =
      .done (.int (stepResult op n (stepped op n)))
        { s₁ with heap := s₁.heap.store address index (.int (stepped op n)) } := by
  unfold evalStepping
  rw [Action.bind_of_eq_done hplace, Action.bind_of_eq_done hread, hn]
  rfl

theorem evalStepping_element_other (hother : ∀ n, current ≠ .int n) (op : UnaryOp) :
    evalStepping p r op (.index array position) s =
      .fault (.typeMismatch "increment" "int" current.typeName) s₁ := by
  unfold evalStepping
  rw [Action.bind_of_eq_done hplace, Action.bind_of_eq_done hread]
  cases current with
  | int n => exact absurd rfl (hother n)
  | null | bool _ | str _ | array _ | object _ | throwable _ => rfl

end

/-- A value that an operator comes to is written to an element; without a value there is no
write. -/
def Outcome.Lands (s : State) (address index : Nat) (value written : Outcome Value) : Prop :=
  match value with
  | .done v _ => ∃ s', written = .done v s' ∧ s.Written s' address index v
  | .thrown t _ => written = .thrown t s
  | .fault f _ => written = .fault f s
  | .exhausted => written = .exhausted

theorem lands_write {s : State} {address index : Nat} {x : Action Value} (hx : Looks x)
    (h : index < (s.heap.items address).size) :
    Outcome.Lands s address index (x s) ((x >>= fun v =>
      Place.write (.element address index) v >>= fun _ => pure v) s) := by
  have hs := hx s
  show Outcome.Lands s address index (x s) (Action.bind x _ s)
  unfold Action.bind
  cases ho : x s with
  | done v s' =>
      rw [ho] at hs
      cases hs
      exact ⟨_, rfl, written_store h v⟩
  | thrown _ _ | fault _ _ =>
      rw [ho] at hs
      cases hs
      rfl
  | exhausted => rfl

/-- No code changes the length of an array, and no step of a run does, however the run ends.
So once the place of an element expression is worked out, the element can be read, also after
any code that comes to a value.  A value that is assigned lands in the element, in the state
that its evaluation leaves; so does the value of a compound assignment, if its operator comes to
one, and that of an increment of an integer. -/
theorem element_writes_land (p : Program) (steps : Nat) (s : State) :
    (∀ e, ((p.evaluator steps).eval e s).Leaves s.SameLengths) ∧
    (∀ stmt, ((p.evaluator steps).exec stmt s).Leaves s.SameLengths) ∧
    (∀ label loop, ((p.evaluator steps).iterate label loop s).Leaves s.SameLengths) ∧
    (∀ cls method args, (p.call steps cls method args s).Leaves s.SameLengths) ∧
    (∀ cls name, (p.fieldValue steps cls name s).Leaves s.SameLengths) ∧
    (∀ resized, (p.measured resized).within steps = p.evaluator steps) ∧
    ∀ array position place s₁,
      resolvePlace p (p.evaluator steps) (.index array position) s = .done place s₁ →
      ∃ address index n s₀ current,
        (p.evaluator steps).eval array s = .done (.array address) s₀ ∧
        (p.evaluator steps).eval position s₀ = .done (.int n) s₁ ∧
        0 ≤ n ∧ index = n.toInt.toNat ∧ place = .element address index ∧
        place.read s₁ = .done current s₁ ∧
        (∀ value v s₂, (p.evaluator steps).eval value s₁ = .done v s₂ →
          (∃ now, place.read s₂ = .done now s₂) ∧
          (∃ s', (p.evaluator (steps + 1)).eval (.assign .plain (.index array position) value) s =
              .done v s' ∧ s₂.Written s' address index v) ∧
          ∀ op arithmetic, op.arithmetic? = some arithmetic →
            Outcome.Lands s₂ address index (applyBinary arithmetic current v s₂)
              ((p.evaluator (steps + 1)).eval (.assign op (.index array position) value) s)) ∧
        ∀ op, op.isMutating = true →
          (∀ m, current = .int m →
            ∃ s', (p.evaluator (steps + 1)).eval (.unary op (.index array position)) s =
                .done (.int (stepResult op m (stepped op m))) s' ∧
              s₁.Written s' address index (.int (stepped op m))) ∧
          ((∀ m, current ≠ .int m) →
            (p.evaluator (steps + 1)).eval (.unary op (.index array position)) s =
              .fault (.typeMismatch "increment" "int" current.typeName) s₁) := by
  have hkeeps := p.evaluator_sameLengths steps
  refine ⟨fun e => hkeeps.eval e s, fun stmt => hkeeps.exec stmt s,
    fun label loop => hkeeps.iterate label loop s,
    fun cls method args => p.call_sameLengths steps cls method args s,
    fun cls name => p.fieldValue_sameLengths steps cls name s,
    fun resized => p.measured_within resized steps, ?elements⟩
  case elements =>
    intro array position place s₁ hplace
    rcases resolvePlace_index_done hplace with ⟨address, n, s₀, harray, hposition, hn, hlt, rfl⟩
    have hread := read_element hlt
    refine ⟨address, _, n, s₀, _, harray, hposition, hn, rfl, rfl, hread, ?assignments,
      ?increments⟩
    case assignments =>
      intro value v s₂ hvalue
      have hlt₂ := Heap.lt_size_items_of_isPrefix ((hkeeps.eval value).of_done hvalue) hlt
      refine ⟨⟨_, read_element hlt₂⟩,
        ⟨_, evalAssign_plain_element hplace hvalue, written_store hlt₂ v⟩, ?_⟩
      intro op arithmetic hop
      have hassign := evalAssign_compound_element hplace hread hop hvalue
      show Outcome.Lands s₂ _ _ _ (evalAssign p (p.evaluator steps) op _ value s)
      rw [hassign]
      exact lands_write (.applyBinary arithmetic _ v) hlt₂
    case increments =>
      intro op hop
      have hstep : (p.evaluator (steps + 1)).eval (.unary op (.index array position)) s =
          evalStepping p (p.evaluator steps) op (.index array position) s := by
        cases op with
        | neg | not => cases hop
        | preInc | preDec | postInc | postDec => rfl
      rw [hstep]
      constructor
      · intro m hm
        exact ⟨_, evalStepping_element_int hplace hread hm op, written_store hlt _⟩
      · intro hother
        exact evalStepping_element_other hplace hread hother op

/-- Two variables for the same array. -/
def aliasState : State where
  frame := ⟨"Main", [[("a", .array 0), ("b", .array 0)]]⟩
  callers := []
  fields := []
  heap := #[#[.int 3, .int 4]]
  recorder := .empty

def reassigning : Expr :=
  .binary .add
    (.assign .plain (.index (.name "b") (.lit (.int 1))) (.lit (.int 5)))
    (.index (.assign .plain (.name "a") (.newArray "int[]" [.lit (.int 7)])) (.lit (.int 0)))

theorem element_writes_land_alias :
    let p : Program := ⟨⟨none, []⟩, "Runtime"⟩
    let target : Expr := .index (.name "a") (.lit (.int 1))
    resolvePlace p (p.evaluator 6) target aliasState = .done (.element 0 1) aliasState ∧
    ∃ s₂ s', (p.evaluator 6).eval reassigning aliasState = .done (.int 12) s₂ ∧
      s₂.frame.lookup? "a" = some (.array 1) ∧
      (p.evaluator 7).eval (.assign .add target reassigning) aliasState = .done (.int 16) s' ∧
      s₂.Written s' 0 1 (.int 16) := by
  intro p target
  have hplace : resolvePlace p (p.evaluator 6) target aliasState =
      .done (.element 0 1) aliasState := rfl
  rcases (element_writes_land p 6 aliasState).2.2.2.2.2.2 _ _ _ _ hplace with
    ⟨_, _, _, _, _, _, _, _, _, hsame, hread, hassign, _⟩
  cases hsame
  cases hread
  rcases (hassign reassigning (.int 12) _ rfl).2.2 .add .add rfl with ⟨s', hdone, hwritten⟩
  exact ⟨hplace, _, s', rfl, rfl, hdone, hwritten⟩

end Eval
end TraceWeaving
