import TraceWeaving.Proofs.Eval.Recording
import TraceWeaving.Proofs.Eval.Sound

/-!
# Copies that can be taken

A copy of a value comes to an end exactly if no array that the value reaches contains
itself, and only an assignment to an element can make an array contain itself.  So a run has
copies of all values that it holds, in all states that it comes to before such an assignment.
The states are looked at from within the run: an inspected evaluation ends in a fault as soon
as a value has no copy, and in another one after an assignment to an element that makes an
array contain itself.  Unless it stops for the second reason, it does what evaluation does
that does not look.
-/

namespace TraceWeaving
namespace Eval

open Code

variable {α : Type}

/-! ## Inspected evaluation -/

/-- Whether each of the values can be copied, and be put into a text. -/
def State.handsOut (s : State) (vs : List Value) : Bool :=
  vs.all fun v => (v.snapshot s).isDone && (v.text s).isDone

/-- Replaces an outcome if a value that is held then, or a result, cannot be handed out.  An
evaluation that was stopped stays so. -/
def Outcome.inspected (tied missing : Fault) (results : α → List Value) : Outcome α → Outcome α
  | .done a s => if s.handsOut (results a ++ s.held) then .done a s else .fault missing s
  | .thrown t s => if s.handsOut s.held then .thrown t s else .fault missing s
  | .fault f s => if f = tied ∨ s.handsOut s.held then .fault f s else .fault missing s
  | .exhausted => .exhausted

def Action.inspecting (tied missing : Fault) (results : α → List Value) (x : Action α) :
    Action α :=
  fun s =>
    if s.handsOut s.held then (x s).inspected tied missing results else .fault missing s

def Flow.values : Flow → List Value
  | .returned v => [v]
  | .normal | .broke _ | .continued _ => []

theorem State.Sound.handsOut {s : State} (h : s.Sound) (vs : List Value) :
    s.handsOut vs = true := by
  apply List.all_eq_true.mpr
  intro v _
  rcases Option.isSome_iff_exists.mp (h.acyclic.snapshot?_isSome v) with ⟨copy, hcopy⟩
  have hsnapshot : v.snapshot s = .done copy s := snapshot_done hcopy
  have htext : v.text s = .done copy.text s := by
    unfold Value.text
    rw [Action.bind_of_eq_done hsnapshot]
    rfl
  rw [hsnapshot, htext]
  rfl

theorem Alike.inspecting {tied : Fault} {Q : Nat → α → Prop} {n : Nat} {x y : Action α}
    (h : Alike tied Q n x y) (missing : Fault) (results : α → List Value) :
    Alike tied Q n x (y.inspecting tied missing results) := by
  intro s hs hn
  have hstart : y.inspecting tied missing results s = (y s).inspected tied missing results :=
    if_pos (hs.handsOut _)
  rw [hstart]
  cases h s hs hn with
  | inl h =>
      rcases h with ⟨hends, hsame⟩
      left
      constructor
      · exact hends
      · rw [hsame]
        cases ho : x s with
        | done a s' =>
            rw [ho] at hends
            exact if_pos (hends.1.handsOut _)
        | thrown t s' =>
            rw [ho] at hends
            exact if_pos (hends.1.handsOut _)
        | fault f s' =>
            rw [ho] at hends
            exact if_pos (.inr (hends.1.handsOut _))
        | exhausted => rfl
  | inr h =>
      rcases h with ⟨s', ho, hcycle⟩
      right
      exists s'
      constructor
      · rw [ho]
        exact if_pos (.inl rfl)
      · exact hcycle

/-- The rules of a program with an inspection before and after every step, and with a stop
after an assignment to an element that makes an array contain itself. -/
def Program.inspected (p : Program) (tied missing : Fault) : Rules where
  eval r e :=
    (if e.storesElement then (evalStep p r e).stopping tied else evalStep p r e).inspecting
      tied missing fun v => [v]
  exec r s := (execStep r s).inspecting tied missing Flow.values
  round r label loop goOn := (loopRound r label loop goOn).inspecting tied missing Flow.values

theorem inspected_eval_of_missing (p : Program) (tied missing : Fault) (steps : Nat) (e : Expr)
    {s : State} {v : Value} (hv : v ∈ s.held) (h : (s.heap.snapshot? v).isSome = false) :
    ((p.inspected tied missing).within (steps + 1)).eval e s = .fault missing s := by
  have hsnapshot : v.snapshot s = .exhausted := by
    show Action.orDiverge (s.heap.snapshot? v) s = _
    cases hcopy : s.heap.snapshot? v with
    | none => rfl
    | some copy =>
        rw [hcopy] at h
        cases h
  have hnone : s.handsOut s.held = false := by
    apply List.all_eq_false.mpr
    exists v
    rw [hsnapshot]
    exact ⟨hv, Bool.false_ne_true⟩
  show (if s.handsOut s.held then _ else _) = _
  rw [hnone]
  rfl

/-! ## Inspections find nothing -/

section

variable {tied : Fault} {r r' : Evaluator} (hr : EvaluatesAlike tied r r') (p : Program)

include hr

theorem EvaluatesAlike.stoppingStep (e : Expr) (n : Nat) :
    Alike tied Value.Allocated n (Eval.evalStep p r e)
      (if e.storesElement then (Eval.evalStep p r' e).stopping tied
        else Eval.evalStep p r' e) := by
  cases he : e.storesElement with
  | false => exact hr.evalStep p he n
  | true =>
      cases e with
      | assign op target value => exact hr.stoppingAssign p op target value n
      | lit _ | name _ | self | field _ _ | index _ _ | unary _ _ | binary _ _ _
      | conditional _ _ _ | call _ _ _ | new _ _ | newArray _ _ | superCall _ | selfCall _ =>
          cases he

theorem EvaluatesAlike.inspectedStep (missing : Fault) :
    EvaluatesAlike tied (p.rules.step r) ((p.inspected tied missing).step r') where
  eval e n := (hr.stoppingStep p e n).inspecting missing _
  exec s n := (hr.execStep s n).inspecting missing _
  iterate label loop n :=
    (hr.loopRound label loop (hr.iterate label loop) n).inspecting missing _

end

/-- Inspections find nothing in a run from a sound state, however long it is. -/
theorem inspected_alike (p : Program) (tied missing : Fault) (steps : Nat) :
    EvaluatesAlike tied (p.evaluator steps) ((p.inspected tied missing).within steps) := by
  induction steps with
  | zero => exact ⟨fun _ _ => .exhausted, fun _ _ => .exhausted, fun _ _ _ => .exhausted⟩
  | succ steps ih =>
      rw [← p.step_evaluator steps]
      exact ih.inspectedStep p missing

/-! ## Calls -/

def Program.inspectedCall (p : Program) (tied missing : Fault) (steps : Nat)
    (cls method : String) (args : List Value) : Action Value := do
  let c ← p.findClass cls
  invoke ((p.inspected tied missing).within steps) c method args

theorem inspectedCall_alike (p : Program) (tied missing : Fault) (steps : Nat)
    (cls method : String) {args : List Value} {n : Nat} (hargs : AllAllocated n args) :
    Alike tied Value.Allocated n (p.call steps cls method args)
      (p.inspectedCall tied missing steps cls method args) :=
  .findClass p cls fun _ hm c =>
    (inspected_alike p tied missing steps).invoke c method (hargs.mono hm)

theorem ends_loadArguments {s : State} (hs : s.Sound) (copies : List Trace.Snapshot) :
    (loadArguments copies s).Ends AllAllocated s.heap.size :=
  hs.loadAll copies

/-- A copy of a value comes to an end, within whatever depth is needed, exactly if no array
that the value reaches contains itself.  A call from a sound state holds no value that cannot
be handed out, neither in the states on its way nor in the last one, which is sound again,
unless an assignment to an element makes an array contain itself; up to there no inspection
finds one.  Making arguments from copies leaves a sound state, too. -/
theorem copies_end_until_tied (p : Program) (cls method : String) (args : List Value)
    (s : State) (hs : s.Sound) (hargs : ∀ v ∈ args, v.Allocated s.heap.size) (steps : Nat)
    (tied missing : Fault) :
    (∀ (heap : Heap) (v : Value),
      ((heap.snapshot? v).isSome = true ↔ ∀ a, v = .array a → heap.AcyclicFrom a) ∧
      ∀ copy, heap.snapshot? v = some copy ↔ ∃ depth, heap.snapshotWithin depth v = some copy) ∧
    (∀ copies, (loadArguments copies s).Ends AllAllocated s.heap.size) ∧
    (((p.call steps cls method args s).Ends Value.Allocated s.heap.size ∧
        p.inspectedCall tied missing steps cls method args s = p.call steps cls method args s) ∨
      ∃ s', p.inspectedCall tied missing steps cls method args s = .fault tied s' ∧
        ¬ s'.heap.Acyclic) := by
  constructor
  · intro heap v
    exact ⟨Heap.snapshot?_isSome_iff, fun _ => Heap.snapshot?_eq_some_iff⟩
  constructor
  · exact ends_loadArguments hs
  · exact inspectedCall_alike p tied missing steps cls method hargs s hs (Nat.le_refl _)

def shelfProgram : Program where
  unit :=
    { package := none
      classes :=
        [{ name := "Shelf"
           annotations := []
           fields := [{ name := "rows", type := "int[][]", isStatic := true, init := none }]
           methods :=
            [{ name := "fill", kind := .method, annotations := [], isStatic := true
               params := [{ name := "row", type := "int[]" }], returnType := some "String"
               body := some
                [.expr (.assign .plain (.name "rows")
                    (.newArray "int[]" [.name "row", .lit .null])),
                  .expr (.assign .plain (.index (.name "rows") (.lit (.int 1)))
                    (.index (.name "rows") (.lit (.int 0)))),
                  .ret (some (.binary .add (.lit (.str "")) (.name "rows")))] },
             { name := "tie", kind := .method, annotations := [], isStatic := true
               params := [], returnType := some "void"
               body := some
                [.expr (.assign .plain (.name "rows") (.newArray "int[]" [.lit .null])),
                  .expr (.assign .plain (.index (.name "rows") (.lit (.int 0)))
                    (.name "rows"))] }] }] }
  runtimeClass := "Trace"

def shelfState : State :=
  { State.initial with heap := #[#[.int 1, .int 2]] }

theorem copies_end_until_tied_shelf :
    shelfState.Sound ∧ (∀ v ∈ [Value.array 0], v.Allocated shelfState.heap.size) ∧
    ∃ s', shelfProgram.call 12 "Shelf" "fill" [.array 0] shelfState =
        .done (.str "[[1, 2], [1, 2]]") s' ∧
      s'.Sound ∧ s'.field? "Shelf" "rows" = some (.array 1) ∧
      shelfProgram.inspectedCall (.unsupported "tied") (.unsupported "missing") 12 "Shelf" "fill"
        [.array 0] shelfState = .done (.str "[[1, 2], [1, 2]]") s' := by
  have hs : shelfState.Sound :=
    State.sound_initial.allocate fun v hv => Value.allocated_of_not_array (by
      intro a ha
      subst ha
      simp at hv)
  have hargs : ∀ v ∈ [Value.array 0], v.Allocated shelfState.heap.size := by
    intro v hv a ha
    cases List.mem_singleton.mp hv
    cases ha
    decide
  have hdone : shelfProgram.inspectedCall (.unsupported "tied") (.unsupported "missing") 12
      "Shelf" "fill" [.array 0] shelfState = .done (.str "[[1, 2], [1, 2]]") _ := rfl
  rcases copies_end_until_tied shelfProgram "Shelf" "fill" [.array 0] shelfState hs hargs 12
    (.unsupported "tied") (.unsupported "missing") with ⟨-, -, ⟨hends, hsame⟩ | ⟨_, hstop, -⟩⟩
  · rw [← hsame, hdone] at hends
    exact ⟨hs, hargs, _, hsame.symm.trans hdone, hends.1, rfl, hdone⟩
  · rw [hdone] at hstop
    cases hstop

/-- The field refers to an array that is its own element. -/
def tiedState : State :=
  { State.initial with
    fields := [("Shelf", [("rows", .array 0)])]
    heap := #[#[.array 0]]
    recorder := State.initial.recorder.keepInvoking "Shelf" "tie" }

/-- An array that is stored in itself has no copy, however deep one is looked for, and cannot
be put into a text; no inspection overlooks it. -/
theorem tied_array_has_no_copy :
    shelfProgram.call 12 "Shelf" "tie" [] .initial = .done .null tiedState ∧
      tiedState.field? "Shelf" "rows" = some (.array 0) ∧
      (∀ depth, (tiedState.heap.snapshotWithin depth (.array 0)).isSome = false) ∧
      (Value.array 0).text tiedState = .exhausted ∧
      ∀ tied missing steps e,
        ((shelfProgram.inspected tied missing).within (steps + 1)).eval e tiedState =
          .fault missing tiedState := by
  have hcopy : ∀ depth, (tiedState.heap.snapshotWithin depth (.array 0)).isSome = false :=
    Heap.snapshotWithin_of_cycle (.single List.mem_cons_self)
  have hfield : tiedState.field? "Shelf" "rows" = some (.array 0) := rfl
  have hheld : Value.array 0 ∈ tiedState.held :=
    State.mem_held_of_mem_values (State.mem_values_of_field? hfield)
  refine ⟨rfl, hfield, hcopy, rfl, fun tied missing steps e => ?_⟩
  exact inspected_eval_of_missing shelfProgram tied missing steps e hheld (hcopy _)

end Eval
end TraceWeaving
