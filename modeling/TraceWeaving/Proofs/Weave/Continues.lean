import TraceWeaving.Proofs.Weave.LoopTests

/-!
# The continues of a loop

When the test of a `do` loop moves behind its body, each `continue` of the loop becomes a
`break` out of the labelled body.  These are the statements that belong to the loop itself:
those without label outside all inner loops, and those with the label of the loop.  The body
then ends normally where the loop goes on, and with the same flow everywhere else.
-/

namespace TraceWeaving

/-! ## Whose continues they are -/

namespace Code

/-- A `continue` statement: its label, and whether it stands in a loop inside the statement
that is looked at. -/
structure Continue where
  inInnerLoop : Bool
  label : Option String
  deriving DecidableEq

/-- Whether a `continue` goes on with the loop of the given label. -/
def Continue.isOwned (loopLabel : Option String) (c : Continue) : Bool :=
  match c.label with
  | none => !c.inInnerLoop
  | some label => loopLabel = some label

namespace Stmt

def continues (inInnerLoop : Bool) (s : Stmt) : List Continue :=
  match s with
  | continueTo label => [⟨inInnerLoop, label⟩]
  | s => s.children.attach.flatMap fun t => continues (inInnerLoop || s.isLoop) t.1
termination_by sizeOf s
decreasing_by exact sizeOf_lt_of_mem_children t.2

theorem continues_continueTo (b : Bool) (label : Option String) :
    (continueTo label).continues b = [⟨b, label⟩] := by
  rw [continues]

theorem continues_eq (b : Bool) {s : Stmt} (hs : ∀ label, s ≠ continueTo label) :
    s.continues b = s.children.flatMap (continues (b || s.isLoop)) := by
  have hattach : s.children.attach.flatMap (fun t => continues (b || s.isLoop) t.1) =
      s.children.flatMap (continues (b || s.isLoop)) := by
    rw [← List.flatMap_map, List.attach_map_subtype_val]
  rw [← hattach, continues]
  exact hs

end Stmt
end Code

namespace Weave

open Code
open Eval (Program State Flow ClearOf isLoop_retarget)

section

variable (loopLabel : Option String) (target : String)

theorem children_retarget (b : Bool) {s : Stmt} (hs : ∀ label, s ≠ .continueTo label) :
    (retarget loopLabel target b s).children =
      s.children.map (retarget loopLabel target (b || s.isLoop)) := by
  cases s with
  | continueTo label => exact absurd rfl (hs label)
  | block stmts | sync _ stmts =>
      simp only [retarget, Stmt.children, Stmt.isLoop, Bool.or_false]
      exact retargetAll_eq b stmts
  | ifElse cond ifTrue ifFalse =>
      cases ifFalse <;> simp [retarget, retargetElse, Stmt.children, Stmt.isLoop]
  | whileLoop _ _ | doWhile _ _ | forLoop _ _ _ _ | forEach _ _ _ _ | labeled _ _ =>
      simp [retarget, Stmt.children, Stmt.isLoop]
  | switch selector cases =>
      simp only [retarget, Stmt.children, Stmt.isLoop, Bool.or_false, retargetCases_eq,
        retargetAll_eq, List.flatMap_map, List.map_flatMap]
      rfl
  | tryCatch body catches cleanup =>
      have hcleanup : (retargetCleanup loopLabel target b cleanup).getD [] =
          (cleanup.getD []).map (retarget loopLabel target b) := by
        cases cleanup with
        | none => rfl
        | some stmts => exact retargetAll_eq b stmts
      simp only [retarget, Stmt.children, Stmt.isLoop, Bool.or_false, retargetCatches_eq,
        retargetAll_eq, List.flatMap_map, List.map_flatMap, List.map_append, hcleanup]
      rfl
  | decl _ _ _ | expr _ | breakTo _ | ret _ | raise _ | unmodelled _ => rfl

theorem retarget_continueTo (b : Bool) (label : Option String) :
    retarget loopLabel target b (.continueTo label) =
      if (Continue.mk b label).isOwned loopLabel then .breakTo (some target)
      else .continueTo label := by
  cases label with
  | none => cases b <;> rfl
  | some label => simp [retarget, Continue.isOwned]

/-- Retargeting takes out the continues of the loop and leaves all others as they were. -/
theorem continues_retarget (b : Bool) (s : Stmt) :
    (retarget loopLabel target b s).continues b =
      (s.continues b).filter fun c => !c.isOwned loopLabel := by
  induction s using Stmt.childInduction generalizing b with
  | step s ih =>
      by_cases hs : ∃ label, s = .continueTo label
      · rcases hs with ⟨label, rfl⟩
        rw [retarget_continueTo, Stmt.continues_continueTo]
        cases howned : (Continue.mk b label).isOwned loopLabel with
        | true => simp [howned, Stmt.continues, Stmt.children]
        | false => simp [howned, Stmt.continues_continueTo]
      · have hs : ∀ label, s ≠ .continueTo label := fun label h => hs ⟨label, h⟩
        have hs' : ∀ label, retarget loopLabel target b s ≠ .continueTo label := by
          intro label h
          cases s with
          | continueTo label' => exact hs label' rfl
          | block _ | decl _ _ _ | expr _ | ifElse _ _ _ | whileLoop _ _ | doWhile _ _
          | forLoop _ _ _ _ | forEach _ _ _ _ | labeled _ _ | switch _ _ | breakTo _ | ret _
          | raise _ | tryCatch _ _ _ | sync _ _ | unmodelled _ => cases h
        have hrest : ∀ t ∈ s.children,
            (retarget loopLabel target (b || s.isLoop) t).continues (b || s.isLoop) =
              (t.continues (b || s.isLoop)).filter fun c => !c.isOwned loopLabel :=
          fun t ht => ih t ht (b || s.isLoop)
        rw [Stmt.continues_eq b hs', Stmt.continues_eq b hs, isLoop_retarget,
          children_retarget loopLabel target b hs, List.flatMap_map, List.filter_flatMap]
        exact List.flatMap_congr hrest

end
end Weave

/-! ## What becomes of them -/

namespace Eval

/-- The flow of a body once its loop has taken the continues that belong to it. -/
def Flow.withoutOwned (loopLabel : Option String) : Flow → Flow
  | .continued none => .normal
  | .continued (some label) =>
      if loopLabel = some label then .normal else .continued (some label)
  | flow => flow

/-- A retargeted continue ends the labelled body; every other flow passes its label. -/
theorem Flow.Relabels.eq_withoutOwned {loopLabel : Option String} {target : String}
    {f f' : Flow} (h : Flow.Relabels loopLabel target f f') : f.withoutOwned loopLabel = f' := by
  rw [h.eq]
  match f with
  | .normal | .returned _ | .broke none => rfl
  | .broke (some label) =>
      have hne : label ≠ target := fun heq => h.clear (by rw [heq])
      simp only [Flow.withoutOwned, Flow.retarget, Flow.leaveLabel, if_neg hne]
  | .continued none => simp [Flow.withoutOwned, Flow.retarget, Flow.leaveLabel]
  | .continued (some label) =>
      by_cases hlabel : loopLabel = some label
      · simp [Flow.withoutOwned, Flow.retarget, Flow.leaveLabel, hlabel]
      · simp [Flow.withoutOwned, Flow.retarget, Flow.leaveLabel, hlabel]

end Eval

namespace Weave

open Code
open Eval (Program State Flow ClearOf)

/-- Retargeting redirects the continues of a loop, and no others.  Let the label of the loop,
if it has one, not be used again inside a statement, and let the new label be neither a label
nor the target of a break there.  Then from every state the labelled block around the
retargeted statement does what the block around the statement does, with the same state and
events, throwable or fault; it ends normally where the statement goes on with the loop, and
with the flow of the statement otherwise.  The continues that are left are those of inner
loops and other labels, in their order. -/
theorem retarget_redirects_owned_continues (p : Program) {b : Stmt} {loopLabel : Option String}
    {target : String} (hclear : b.Every (ClearOf loopLabel target)) :
    (∀ s, ∃ bound, ∀ steps ≥ bound,
      (p.evaluator steps).exec
          (.labeled target (.block [retarget loopLabel target false b])) s =
        ((p.evaluator steps).exec (.block [b]) >>= fun flow =>
          pure (flow.withoutOwned loopLabel)) s) ∧
    (retarget loopLabel target false b).continues false =
      (b.continues false).filter fun c => !c.isOwned loopLabel := by
  constructor
  · intro s
    have hblock : (Stmt.block [b]).Every (ClearOf loopLabel target) :=
      Stmt.every_block.mpr ⟨trivial, Stmt.everyIn_singleton.mpr hclear⟩
    have hflows : Eval.FlowsBy (Flow.Relabels loopLabel target)
        ((Eval.plain p.meaning p.meaning.eval).exec (.block [b])) _ :=
      Eval.flowsBy_labeled_retarget hblock rfl
    have hplain := (Eval.runs_meaning p).plain
    rw [hplain] at hflows
    have hsame := hflows.bind_eq fun f f' h => congrArg (pure : Flow → Eval.Action Flow)
      h.eq_withoutOwned
    rw [bind_pure] at hsame
    let labelled := Stmt.labeled target (.block [retarget loopLabel target false b])
    rcases p.has_tends.exec (.block [b]) s with ⟨N, hN⟩
    rcases p.has_tends.exec labelled s with ⟨N', hN'⟩
    exists max N N'
    intro steps hsteps
    have hbody : (p.evaluator steps).exec (.block [b]) s = p.meaning.exec (.block [b]) s :=
      hN steps (by omega)
    calc
      (p.evaluator steps).exec labelled s = p.meaning.exec labelled s := hN' steps (by omega)
      _ = (p.meaning.exec (.block [b]) >>= fun flow =>
            pure (flow.withoutOwned loopLabel)) s := (congrFun hsame s).symm
      _ = ((p.evaluator steps).exec (.block [b]) >>= fun flow =>
            pure (flow.withoutOwned loopLabel)) s := by
          show Eval.Action.bind _ _ s = Eval.Action.bind _ _ s
          unfold Eval.Action.bind
          rw [hbody]
  · exact continues_retarget loopLabel target false b

/-- Continues of a labelled loop from a branch, from a cleanup and from an inner loop, next to
one that belongs to the inner loop. -/
def skipping : Stmt :=
  .tryCatch
    [.ifElse (.binary .eq (.name "left") (.int 3)) (.continueTo none) none,
     .whileLoop (.binary .gt (.unary .postDec (.name "left")) (.int 0))
       (.ifElse (.binary .eq (.name "left") (.int 1)) (.continueTo (some "count"))
         (some (.continueTo none)))]
    [] (some [.ifElse (.binary .gt (.name "left") (.int 5)) (.continueTo (some "count")) none])

theorem retarget_redirects_owned_continues_skipping :
    skipping.Every (ClearOf (some "count") "end") ∧
    (∃ bound, ∀ steps ≥ bound,
      ((⟨drainUnit, Settings.standard.runtimeClass⟩ : Program).evaluator steps).exec
          (.labeled "end" (.block [retarget (some "count") "end" false skipping]))
          (State.initial.pushFrame (Eval.callFrame drainClass drainMethod [.int 5])) =
        (((⟨drainUnit, Settings.standard.runtimeClass⟩ : Program).evaluator steps).exec
          (.block [skipping]) >>= fun flow => pure (flow.withoutOwned (some "count")))
          (State.initial.pushFrame (Eval.callFrame drainClass drainMethod [.int 5]))) ∧
    (retarget (some "count") "end" false skipping).continues false =
      (skipping.continues false).filter fun c => !c.isOwned (some "count") := by
  have hclear : skipping.Every (ClearOf (some "count") "end") := by decide
  have h := retarget_redirects_owned_continues
    ⟨drainUnit, Settings.standard.runtimeClass⟩ hclear
  exact ⟨hclear, h.1 _, h.2⟩

end Weave
end TraceWeaving
