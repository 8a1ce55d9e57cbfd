import TraceWeaving.Proofs.Weave.Tracer
import TraceWeaving.Proofs.Weave.Traversal

/-!
# Leaving the body of a loop

A `continue` that became a `break` to a label of its own ends the body of its loop with
another flow and does everything else as before.  What happens to the flow is followed
through all statements, provided that the labels involved stay out of each other's way.
-/

namespace TraceWeaving
namespace Eval

open Code
open Trace (Throwable)
open Weave (retarget retargetAll retargetCases retargetCatches retargetCleanup retargetAll_eq
  retargetCases_eq retargetCatches_eq)

/-! ## Actions that differ in their flow -/

/-- Outcomes that are the same but for the flow of a statement. -/
inductive Outcome.FlowsBy (ρ : Flow → Flow → Prop) : Outcome Flow → Outcome Flow → Prop where
  | done {f f' : Flow} {s : State} : ρ f f' → FlowsBy ρ (.done f s) (.done f' s)
  | thrown {t : Throwable} {s : State} : FlowsBy ρ (.thrown t s) (.thrown t s)
  | fault {e : Fault} {s : State} : FlowsBy ρ (.fault e s) (.fault e s)
  | exhausted : FlowsBy ρ .exhausted .exhausted

def FlowsBy (ρ : Flow → Flow → Prop) (x y : Action Flow) : Prop :=
  ∀ s, (x s).FlowsBy ρ (y s)

namespace FlowsBy

variable {α : Type} {ρ σ : Flow → Flow → Prop} {x y : Action Flow}

theorem andThen {k k' : Flow → Action Flow} {g g' : Throwable → Action Flow}
    (hx : FlowsBy ρ x y) (hk : ∀ f f', ρ f f' → FlowsBy σ (k f) (k' f'))
    (hg : ∀ t, FlowsBy σ (g t) (g' t)) : FlowsBy σ (x.andThen k g) (y.andThen k' g') := by
  intro s
  show ((x s).andThen k g).FlowsBy σ ((y s).andThen k' g')
  have hs := hx s
  generalize x s = o, y s = o' at hs
  cases hs with
  | done h => exact hk _ _ h _
  | thrown => exact hg _ _
  | fault => exact .fault
  | exhausted => exact .exhausted

theorem bind {k k' : Flow → Action Flow} (hx : FlowsBy ρ x y)
    (hk : ∀ f f', ρ f f' → FlowsBy σ (k f) (k' f')) : FlowsBy σ (x >>= k) (y >>= k') := by
  rw [Action.bind_eq_andThen, Action.bind_eq_andThen]
  exact hx.andThen hk fun t s => .thrown

theorem after (x : Action α) {k k' : α → Action Flow} (hk : ∀ a, FlowsBy σ (k a) (k' a)) :
    FlowsBy σ (x >>= k) (x >>= k') := by
  intro s
  show (Action.bind x k s).FlowsBy σ (Action.bind x k' s)
  unfold Action.bind
  cases x s with
  | done a s' => exact hk a s'
  | thrown t s' => exact .thrown
  | fault e s' => exact .fault
  | exhausted => exact .exhausted

theorem pure {f f' : Flow} (h : ρ f f') : FlowsBy ρ (Pure.pure f) (Pure.pure f') :=
  fun _ => .done h

theorem raise (t : Throwable) : FlowsBy ρ (Action.raiseValue t) (Action.raiseValue t) :=
  fun _ => .thrown

theorem fail (f : Fault) : FlowsBy ρ (Action.fail f) (Action.fail f) :=
  fun _ => .fault

theorem inScope (hx : FlowsBy ρ x y) : FlowsBy ρ (Action.inScope x) (Action.inScope y) := by
  intro s
  show ((x s.pushScope).mapState State.popScope).FlowsBy ρ ((y s.pushScope).mapState _)
  have hs := hx s.pushScope
  generalize x s.pushScope = o, y s.pushScope = o' at hs
  cases hs with
  | done h => exact .done h
  | thrown => exact .thrown
  | fault => exact .fault
  | exhausted => exact .exhausted

theorem limit {x y : Nat → Action Flow} {x' y' : Action Flow} (h : ∀ n, FlowsBy ρ (x n) (y n))
    (hx : Tends (withLimit x x')) (hy : Tends (withLimit y y')) : FlowsBy ρ x' y' := by
  intro s
  rcases hx s with ⟨N, hN⟩
  rcases hy s with ⟨M, hM⟩
  have hx' : x (max N M) s = x' s := hN _ (by omega)
  have hy' : y (max N M) s = y' s := hM _ (by omega)
  rw [← hx', ← hy']
  exact h (max N M) s

theorem bind_eq {k k' : Flow → Action α} (h : FlowsBy ρ x y)
    (hk : ∀ f f', ρ f f' → k f = k' f') : x >>= k = y >>= k' := by
  funext s
  show Action.bind x k s = Action.bind y k' s
  unfold Action.bind
  have hs := h s
  generalize x s = o, y s = o' at hs
  cases hs with
  | done hf => exact congrFun (hk _ _ hf) _
  | thrown | fault | exhausted => rfl

end FlowsBy

/-! ## Flows of a loop body -/

section

variable (loopLabel : Option String) (target : String)

def Flow.retarget (inInnerLoop : Bool) : Flow → Flow
  | .continued none => if inInnerLoop then .continued none else .broke (some target)
  | .continued (some label) =>
      if loopLabel = some label then .broke (some target) else .continued (some label)
  | flow => flow

structure Flow.Retargets (inInnerLoop : Bool) (f f' : Flow) : Prop where
  eq : f' = f.retarget loopLabel target inInnerLoop
  clear : f ≠ .broke (some target)

/-- The statement neither has one of the labels nor leaves the new one. -/
def ClearOf : Stmt → Prop
  | .labeled label _ => label ≠ target ∧ loopLabel ≠ some label
  | .breakTo label => label ≠ some target
  | _ => True

instance : DecidablePred (ClearOf loopLabel target)
  | .labeled label _ => inferInstanceAs (Decidable (label ≠ target ∧ loopLabel ≠ some label))
  | .breakTo label => inferInstanceAs (Decidable (label ≠ some target))
  | .block _ | .decl _ _ _ | .expr _ | .ifElse _ _ _ | .whileLoop _ _ | .doWhile _ _
  | .forLoop _ _ _ _ | .forEach _ _ _ _ | .switch _ _ | .continueTo _ | .ret _ | .raise _
  | .tryCatch _ _ _ | .sync _ _ | .unmodelled _ => isTrue trivial

end

section

variable {loopLabel : Option String} {target : String} {b : Bool}

theorem Flow.Retargets.normal : Flow.Retargets loopLabel target b .normal .normal :=
  ⟨rfl, by simp⟩

theorem Flow.Retargets.returned (value : Value) :
    Flow.Retargets loopLabel target b (.returned value) (.returned value) :=
  ⟨rfl, by simp⟩

theorem Flow.Retargets.broke {label : Option String} (h : label ≠ some target) :
    Flow.Retargets loopLabel target b (.broke label) (.broke label) :=
  ⟨rfl, fun hf => h (by simpa using hf)⟩

variable (loopLabel target b) in
theorem Flow.retarget_continued (label : Option String) :
    Flow.retarget loopLabel target b (.continued label) = .continued label ∨
      Flow.retarget loopLabel target b (.continued label) = .broke (some target) := by
  cases label with
  | none => cases b <;> simp [Flow.retarget]
  | some label =>
      simp only [Flow.retarget]
      split
      · exact .inr rfl
      · exact .inl rfl

theorem FlowsBy.ifNormal {f f' : Flow} {k k' : Action Flow}
    (h : Flow.Retargets loopLabel target b f f')
    (hk : FlowsBy (Flow.Retargets loopLabel target b) k k') :
    FlowsBy (Flow.Retargets loopLabel target b) (Eval.ifNormal k f) (Eval.ifNormal k' f') := by
  rcases h with ⟨rfl, hclear⟩
  cases f with
  | normal => exact hk
  | returned value => exact .pure (.returned value)
  | broke label => exact .pure (.broke fun hl => hclear (by rw [hl]))
  | continued label =>
      rcases Flow.retarget_continued loopLabel target b label with h | h
      · rw [h]
        exact .pure ⟨h.symm, hclear⟩
      · rw [h]
        exact .pure ⟨h.symm, hclear⟩

/-- What the end of an iteration means for an inner loop, after which the flow is that of
a statement outside it. -/
theorem FlowsBy.proceed {label : Option String}
    (hl : ∀ l ∈ label, l ≠ target ∧ loopLabel ≠ some l)
    {f f' : Flow} (h : Flow.Retargets loopLabel target true f f') {goOn goOn' : Action Flow}
    (hg : FlowsBy (Flow.Retargets loopLabel target b) goOn goOn') :
    FlowsBy (Flow.Retargets loopLabel target b) ((LoopStep.ofFlow label f).proceed goOn)
      ((LoopStep.ofFlow label f').proceed goOn') := by
  rcases h with ⟨rfl, hclear⟩
  match f with
  | .normal => exact hg
  | .returned value => exact .pure (.returned value)
  | .broke none => exact .pure .normal
  | .broke (some l) =>
      have hne : some l ≠ some target := fun h => hclear (by rw [h])
      by_cases hlabel : label = some l
      · simp only [Flow.retarget, LoopStep.ofFlow, hlabel, if_true]
        exact .pure .normal
      · simp only [Flow.retarget, LoopStep.ofFlow, hlabel, if_false]
        exact .pure (.broke hne)
  | .continued none => exact hg
  | .continued (some l) =>
      by_cases hloop : loopLabel = some l
      · have hne : label ≠ some l := fun h => (hl l h).2 hloop
        have hne' : label ≠ some target := fun h => (hl target h).1 rfl
        simp only [Flow.retarget, LoopStep.ofFlow, hloop, hne, hne', if_true, if_false]
        exact .pure ⟨by simp [Flow.retarget], by simp⟩
      · by_cases hlabel : label = some l
        · simp only [Flow.retarget, LoopStep.ofFlow, hloop, hlabel, if_true, if_false]
          exact hg
        · simp only [Flow.retarget, LoopStep.ofFlow, hloop, hlabel, if_false]
          exact .pure ⟨by simp [Flow.retarget, hloop], by simp⟩

end

/-! ## Statements -/

section

variable {E : Evaluator} {returnBy : Expr → Action Value}
variable {loopLabel : Option String} {target : String}

def Retargeted (E : Evaluator) (returnBy : Expr → Action Value) (loopLabel : Option String)
    (target : String) (b : Bool) (s : Stmt) : Prop :=
  FlowsBy (Flow.Retargets loopLabel target b) ((plain E returnBy).exec s)
    ((plain E returnBy).exec (retarget loopLabel target b s))

theorem flowsBy_execAll {b : Bool} {stmts : List Stmt}
    (h : ∀ s ∈ stmts, Retargeted E returnBy loopLabel target b s) :
    FlowsBy (Flow.Retargets loopLabel target b) ((plain E returnBy).execAll stmts)
      ((plain E returnBy).execAll (retargetAll loopLabel target b stmts)) := by
  rw [retargetAll_eq]
  induction stmts with
  | nil => exact .pure .normal
  | cons s rest ih =>
      rw [List.map_cons, Evaluator.execAll_cons, Evaluator.execAll_cons]
      exact (h s List.mem_cons_self).bind fun f f' hf =>
        .ifNormal hf (ih fun t ht => h t (List.mem_cons_of_mem s ht))

theorem flowsBy_afterBody {b : Bool} {label : Option String}
    (hl : ∀ l ∈ label, l ≠ target ∧ loopLabel ≠ some l) {body : Stmt}
    (h : Retargeted E returnBy loopLabel target true body) {goOn goOn' : Action Flow}
    (hg : FlowsBy (Flow.Retargets loopLabel target b) goOn goOn') :
    FlowsBy (Flow.Retargets loopLabel target b) (afterBody (plain E returnBy) label body goOn)
      (afterBody (plain E returnBy) label (retarget loopLabel target true body) goOn') := by
  rw [afterBody_eq, afterBody_eq]
  exact h.bind fun _ _ hf => .proceed hl hf hg

def Loop.withBody (loop : Loop) (body : Stmt) : Loop :=
  match loop with
  | .whileLoop cond _ => .whileLoop cond body
  | .doWhile _ cond => .doWhile body cond
  | .forLoop cond update _ => .forLoop cond update body

theorem flowsBy_loopRound {b : Bool} {label : Option String}
    (hl : ∀ l ∈ label, l ≠ target ∧ loopLabel ≠ some l) {loop : Loop}
    (h : Retargeted E returnBy loopLabel target true loop.body) {goOn goOn' : Action Flow}
    (hg : FlowsBy (Flow.Retargets loopLabel target b) goOn goOn') :
    FlowsBy (Flow.Retargets loopLabel target b) (loopRound (plain E returnBy) label loop goOn)
      (loopRound (plain E returnBy) label
        (loop.withBody (retarget loopLabel target true loop.body)) goOn') := by
  cases loop with
  | whileLoop cond body =>
      refine .after _ fun holds => ?_
      cases holds with
      | true => exact flowsBy_afterBody hl h hg
      | false => exact .pure .normal
  | doWhile body cond =>
      refine flowsBy_afterBody hl h (.after _ fun holds => ?_)
      cases holds with
      | true => exact hg
      | false => exact .pure .normal
  | forLoop cond update body =>
      refine .after _ fun holds => ?_
      cases holds with
      | true => exact flowsBy_afterBody hl h (.after _ fun _ => hg)
      | false => exact .pure .normal

theorem flowsBy_iterate {b : Bool} {label : Option String}
    (hl : ∀ l ∈ label, l ≠ target ∧ loopLabel ≠ some l) (loop : Loop)
    (h : Retargeted E returnBy loopLabel target true loop.body) :
    FlowsBy (Flow.Retargets loopLabel target b) ((plain E returnBy).iterate label loop)
      ((plain E returnBy).iterate label
        (loop.withBody (retarget loopLabel target true loop.body))) := by
  have hplain := regular_plainRules E returnBy
  refine .limit (fun n => ?_) (hplain.tends_rounds label loop)
    (hplain.tends_rounds label (loop.withBody (retarget loopLabel target true loop.body)))
  induction n with
  | zero => exact fun _ => .exhausted
  | succ n ih => exact flowsBy_loopRound hl h ih

theorem flowsBy_execForItems {b : Bool} {label : Option String}
    (hl : ∀ l ∈ label, l ≠ target ∧ loopLabel ≠ some l) (ident : String) {body : Stmt}
    (h : Retargeted E returnBy loopLabel target true body) (items : List Value) :
    FlowsBy (Flow.Retargets loopLabel target b)
      (execForItems (plain E returnBy) label ident body items)
      (execForItems (plain E returnBy) label ident (retarget loopLabel target true body)
        items) := by
  induction items with
  | nil => exact .pure .normal
  | cons item items ih =>
      rw [execForItems_cons, execForItems_cons]
      exact (FlowsBy.inScope (.after _ fun _ => h)).bind fun _ _ hf => .proceed hl hf ih

theorem flowsBy_execLoop {b : Bool} {label : Option String}
    (hl : ∀ l ∈ label, l ≠ target ∧ loopLabel ≠ some l) {s : Stmt} (hs : s.isLoop = true)
    (h : ∀ t ∈ s.children, Retargeted E returnBy loopLabel target true t) :
    FlowsBy (Flow.Retargets loopLabel target b) (execLoop (plain E returnBy) label s)
      (execLoop (plain E returnBy) label (retarget loopLabel target b s)) := by
  cases s with
  | whileLoop cond body =>
      exact flowsBy_iterate hl (.whileLoop cond body) (h body (List.mem_singleton.mpr rfl))
  | doWhile body cond =>
      exact flowsBy_iterate hl (.doWhile body cond) (h body (List.mem_singleton.mpr rfl))
  | forLoop init cond update body =>
      exact .inScope (.after _ fun _ =>
        flowsBy_iterate hl (.forLoop cond update body) (h body (List.mem_singleton.mpr rfl)))
  | forEach type ident items body =>
      refine .after _ fun value => ?_
      cases value with
      | array address =>
          exact .after _ fun _ => flowsBy_execForItems hl ident
            (h body (List.mem_singleton.mpr rfl)) _
      | null | int _ | bool _ | str _ | object _ | throwable _ => exact .fail _
  | block _ | decl _ _ _ | expr _ | ifElse _ _ _ | labeled _ _ | switch _ _ | breakTo _
  | continueTo _ | ret _ | raise _ | tryCatch _ _ _ | sync _ _ | unmodelled _ =>
      exact absurd hs (by simp [Stmt.isLoop])

theorem flowsBy_leaveLabel {b : Bool} {label : String}
    (hl : label ≠ target ∧ loopLabel ≠ some label) {f f' : Flow}
    (h : Flow.Retargets loopLabel target b f f') :
    Flow.Retargets loopLabel target b (f.leaveLabel label) (f'.leaveLabel label) := by
  rcases h with ⟨rfl, hclear⟩
  match f with
  | .normal | .returned _ | .broke none => exact ⟨rfl, by simp [Flow.leaveLabel]⟩
  | .broke (some l) =>
      simp only [Flow.retarget, Flow.leaveLabel]
      split
      · exact .normal
      · exact .broke fun h => hclear (by rw [h])
  | .continued c =>
      have hstay : (Flow.broke (some target)).leaveLabel label = .broke (some target) := by
        simp only [Flow.leaveLabel, if_neg (Ne.symm hl.1)]
      rcases Flow.retarget_continued loopLabel target b c with h | h
      · rw [h]
        exact ⟨h.symm, by simp [Flow.leaveLabel]⟩
      · rw [h, hstay]
        exact ⟨h.symm, by simp [Flow.leaveLabel]⟩

theorem casesFrom_map (value : Value) {f : SwitchCase → SwitchCase}
    (hf : ∀ c, (f c).labels = c.labels) (cases : List SwitchCase) :
    casesFrom value (cases.map f) = (casesFrom value cases).map f := by
  have hdrop : ∀ (test : List Literal → Bool),
      (cases.map f).dropWhile (fun c => test c.labels) =
        (cases.dropWhile fun c => test c.labels).map f := by
    intro test
    rw [List.dropWhile_map]
    simp only [Function.comp_def, hf]
  unfold casesFrom
  rw [hdrop fun labels => !labels.any fun l => Value.ofLiteral l = value,
    hdrop fun labels => !labels.isEmpty]
  cases cases.dropWhile fun c => !c.labels.any fun l => Value.ofLiteral l = value <;> rfl

theorem casesFrom_retargetCases (b : Bool) (value : Value) (cases : List SwitchCase) :
    casesFrom value (retargetCases loopLabel target b cases) =
      retargetCases loopLabel target b (casesFrom value cases) := by
  rw [retargetCases_eq, retargetCases_eq]
  refine casesFrom_map value ?_ cases
  exact fun _ => rfl

theorem flowsBy_execCases {b : Bool} {cases : List SwitchCase}
    (h : ∀ c ∈ cases, ∀ s ∈ c.body, Retargeted E returnBy loopLabel target b s) :
    FlowsBy (Flow.Retargets loopLabel target b) (execCases (plain E returnBy) cases)
      (execCases (plain E returnBy) (retargetCases loopLabel target b cases)) := by
  rw [retargetCases_eq]
  induction cases with
  | nil => exact .pure .normal
  | cons c rest ih =>
      have hrest := ih fun c' hc' => h c' (List.mem_cons_of_mem c hc')
      refine (flowsBy_execAll (h c List.mem_cons_self)).bind fun f f' hf => ?_
      rcases hf with ⟨rfl, hclear⟩
      match f with
      | .normal => exact hrest
      | .returned value => exact .pure (.returned value)
      | .broke none => exact .pure .normal
      | .broke (some l) => exact .pure (.broke fun h => hclear (by rw [h]))
      | .continued c =>
          rcases Flow.retarget_continued loopLabel target b c with h | h
          · rw [h]
            exact .pure ⟨h.symm, hclear⟩
          · rw [h]
            exact .pure ⟨h.symm, hclear⟩

theorem flowsBy_execBefore {b : Bool} {cleanup : List Stmt} {o o' : Action Flow}
    (h : ∀ s ∈ cleanup, Retargeted E returnBy loopLabel target b s)
    (ho : FlowsBy (Flow.Retargets loopLabel target b) o o') :
    FlowsBy (Flow.Retargets loopLabel target b) (execBefore (plain E returnBy) cleanup o)
      (execBefore (plain E returnBy) (retargetAll loopLabel target b cleanup) o') := by
  have hbefore : ∀ (cleanup : List Stmt) (o : Action Flow),
      execBefore (plain E returnBy) cleanup o =
        (plain E returnBy).execBlock cleanup >>= ifNormal o :=
    fun _ _ => rfl
  rw [hbefore, hbefore]
  exact (flowsBy_execAll h).inScope.bind fun _ _ hf => .ifNormal hf ho

theorem find?_retargetCatches (b : Bool) (t : Throwable) (catches : List CatchClause) :
    (retargetCatches loopLabel target b catches).find? (fun c => catchesType c.type t) =
      (catches.find? fun c => catchesType c.type t).map fun c =>
        .mk c.type c.ident (retargetAll loopLabel target b c.body) := by
  rw [retargetCatches_eq, List.find?_map]
  rfl

theorem flowsBy_execCatching {b : Bool} {body : List Stmt} {catches : List CatchClause}
    (hbody : ∀ s ∈ body, Retargeted E returnBy loopLabel target b s)
    (hcatches : ∀ c ∈ catches, ∀ s ∈ c.body, Retargeted E returnBy loopLabel target b s) :
    FlowsBy (Flow.Retargets loopLabel target b) (execCatching (plain E returnBy) body catches)
      (execCatching (plain E returnBy) (retargetAll loopLabel target b body)
        (retargetCatches loopLabel target b catches)) := by
  rw [execCatching_eq, execCatching_eq]
  refine (flowsBy_execAll hbody).inScope.andThen (fun _ _ hf => .pure hf) fun t => ?_
  unfold execHandler
  rw [find?_retargetCatches]
  cases hc : catches.find? fun c => catchesType c.type t with
  | none => exact .raise t
  | some c =>
      exact .inScope (.after _ fun _ =>
        flowsBy_execAll (hcatches c (List.mem_of_find?_eq_some hc)))

theorem flowsBy_execTry {b : Bool} {body : List Stmt} {catches : List CatchClause}
    {cleanup : Option (List Stmt)}
    (hbody : ∀ s ∈ body, Retargeted E returnBy loopLabel target b s)
    (hcatches : ∀ c ∈ catches, ∀ s ∈ c.body, Retargeted E returnBy loopLabel target b s)
    (hcleanup : ∀ stmts ∈ cleanup, ∀ s ∈ stmts, Retargeted E returnBy loopLabel target b s) :
    FlowsBy (Flow.Retargets loopLabel target b) (execTry (plain E returnBy) body catches cleanup)
      (execTry (plain E returnBy) (retargetAll loopLabel target b body)
        (retargetCatches loopLabel target b catches)
        (retargetCleanup loopLabel target b cleanup)) := by
  have hcatching := flowsBy_execCatching hbody hcatches
  cases cleanup with
  | none => exact hcatching
  | some stmts =>
      rw [retargetCleanup, execTry_cleanup_eq, execTry_cleanup_eq]
      exact hcatching.andThen (fun _ _ hf => flowsBy_execBefore (hcleanup stmts rfl) (.pure hf))
        fun t => flowsBy_execBefore (hcleanup stmts rfl) (.raise t)

theorem isLoop_retarget (b : Bool) (s : Stmt) :
    (retarget loopLabel target b s).isLoop = s.isLoop := by
  cases s with
  | continueTo label =>
      cases label with
      | none => cases b <;> rfl
      | some label =>
          unfold retarget
          split <;> rfl
  | block _ | decl _ _ _ | expr _ | ifElse _ _ _ | whileLoop _ _ | doWhile _ _
  | forLoop _ _ _ _ | forEach _ _ _ _ | labeled _ _ | switch _ _ | breakTo _ | ret _ | raise _
  | tryCatch _ _ _ | sync _ _ | unmodelled _ => rfl

theorem execLabeled_eq (r : Evaluator) (label : String) {body : Stmt}
    (hb : body.isLoop = false) :
    execLabeled r label body =
      r.exec body >>= fun flow => Pure.pure (flow.leaveLabel label) := by
  unfold execLabeled
  simp only [hb]
  show r.exec body >>= _ = _
  congr 1
  funext flow
  match flow with
  | .broke (some target) =>
      simp only [Flow.leaveLabel]
      split <;> rfl
  | .broke none | .normal | .returned _ | .continued _ => rfl

/-- A statement whose labels stay clear ends like before but for its flow. -/
theorem retargeted_of_clear (s : Stmt) (h : s.Every (ClearOf loopLabel target)) :
    (∀ b, Retargeted E returnBy loopLabel target b s) ∧
      ∀ t ∈ s.children, ∀ b, Retargeted E returnBy loopLabel target b t := by
  induction s using Stmt.childInduction with
  | step s ih =>
      have hchild : ∀ t ∈ s.children, ∀ b, Retargeted E returnBy loopLabel target b t :=
        fun t ht => (ih t ht (h.child ht)).1
      refine ⟨fun b => ?_, hchild⟩
      unfold Retargeted
      rw [exec_plain, exec_plain]
      cases s with
      | block stmts =>
          exact (flowsBy_execAll fun t ht => hchild t ht b).inScope
      | decl type ident init =>
          exact .after _ fun _ => .after _ fun _ => .pure .normal
      | expr e => exact .after _ fun _ => .pure .normal
      | ifElse cond ifTrue ifFalse =>
          refine .after _ fun holds => ?_
          cases holds with
          | true => exact hchild ifTrue List.mem_cons_self b
          | false =>
              cases ifFalse with
              | none => exact .pure .normal
              | some s => exact hchild s (by simp [Stmt.children]) b
      | whileLoop _ _ | doWhile _ _ | forLoop _ _ _ _ | forEach _ _ _ _ =>
          exact flowsBy_execLoop (fun _ hl => absurd hl (by simp)) rfl fun t ht => hchild t ht true
      | labeled label body =>
          have hl : label ≠ target ∧ loopLabel ≠ some label := h.here
          show FlowsBy _ (execLabeled _ label body) (execLabeled _ label (retarget _ _ b body))
          by_cases hb : body.isLoop = true
          · have hgrand := (ih body (List.mem_singleton.mpr rfl)
              (h.child (List.mem_singleton.mpr rfl))).2
            unfold execLabeled
            simp only [isLoop_retarget, hb, if_true]
            refine flowsBy_execLoop (fun l hm => ?_) hb fun t ht => hgrand t ht true
            obtain rfl := Option.some.inj hm
            exact hl
          · rw [execLabeled_eq _ _ (Bool.eq_false_iff.mpr hb),
              execLabeled_eq _ _ ((isLoop_retarget b body).trans (Bool.eq_false_iff.mpr hb))]
            exact (hchild body (List.mem_singleton.mpr rfl) b).bind fun _ _ hf =>
              .pure (flowsBy_leaveLabel hl hf)
      | switch selector cases =>
          refine .after _ fun value => .inScope ?_
          have hcases : ∀ c ∈ casesFrom value cases, ∀ t ∈ c.body,
              Retargeted E returnBy loopLabel target b t := fun c hc t ht =>
            hchild t (List.mem_flatMap.mpr ⟨c, ClosedCore.mem_of_mem_casesFrom hc, ht⟩) b
          have hrun := flowsBy_execCases hcases
          rw [← casesFrom_retargetCases] at hrun
          exact hrun
      | breakTo label => exact .pure (.broke h.here)
      | continueTo label =>
          cases label with
          | none => cases b <;> exact .pure ⟨by simp [Flow.retarget], by simp⟩
          | some label =>
              unfold retarget
              split
              · exact .pure ⟨by simp [Flow.retarget, *], by simp⟩
              · exact .pure ⟨by simp [Flow.retarget, *], by simp⟩
      | ret value =>
          cases value with
          | none => exact .pure (.returned .null)
          | some value => exact .after _ fun _ => .pure (.returned _)
      | raise value =>
          refine .after _ fun v => ?_
          cases v with
          | throwable t => exact .raise t
          | null => exact .raise _
          | int _ | bool _ | str _ | array _ | object _ => exact .fail _
      | tryCatch body catches cleanup =>
          refine flowsBy_execTry (fun t ht => hchild t ?_ b) (fun c hc t ht => hchild t ?_ b)
            fun stmts hs t ht => hchild t ?_ b
          · exact List.mem_append_left _ (List.mem_append_left _ ht)
          · exact List.mem_append_left _
              (List.mem_append_right _ (List.mem_flatMap.mpr ⟨c, hc, ht⟩))
          · cases hs
            exact List.mem_append_right _ ht
      | sync lock body =>
          exact .after _ fun _ => (flowsBy_execAll fun t ht => hchild t ht b).inScope
      | unmodelled text => exact .fail _

/-- The flow of a body, and the one with which its labelled form is left. -/
structure Flow.Relabels (loopLabel : Option String) (target : String) (f f' : Flow) : Prop where
  eq : f' = (f.retarget loopLabel target false).leaveLabel target
  clear : f ≠ .broke (some target)

theorem flowsBy_labeled_retarget {body : Stmt} (h : body.Every (ClearOf loopLabel target))
    (hb : body.isLoop = false) :
    FlowsBy (Flow.Relabels loopLabel target) ((plain E returnBy).exec body)
      ((plain E returnBy).exec (.labeled target (retarget loopLabel target false body))) := by
  rw [exec_plain _ _ (.labeled _ _)]
  show FlowsBy _ _ (execLabeled _ target (retarget loopLabel target false body))
  rw [execLabeled_eq _ _ ((isLoop_retarget false body).trans hb),
    ← bind_pure ((plain E returnBy).exec body)]
  have hbody : Retargeted E returnBy loopLabel target false body :=
    (retargeted_of_clear body h).1 false
  exact hbody.bind fun f f' hf => .pure ⟨by rw [hf.eq], hf.clear⟩

end

end Eval
end TraceWeaving
