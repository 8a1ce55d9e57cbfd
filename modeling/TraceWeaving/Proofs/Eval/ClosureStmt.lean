import TraceWeaving.Proofs.Code.Nodes
import TraceWeaving.Proofs.Eval.Closure

/-!
# Closed properties and statements

The rules for statements in terms of what they ask for: the expressions, the inner
statements, and the loop that a statement starts.
-/

namespace TraceWeaving

namespace Eval

open Code
open Trace (Throwable)

namespace Loop

def exprs : Loop → List Expr
  | whileLoop cond _ => [cond]
  | doWhile _ cond => [cond]
  | forLoop cond update _ => cond.toList ++ update

def body : Loop → Stmt
  | whileLoop _ body => body
  | doWhile body _ => body
  | forLoop _ _ body => body

end Loop

end Eval

namespace Code.Stmt

open Eval (Loop)

/-- The iterations that a statement starts. -/
def loop? : Stmt → Option Loop
  | whileLoop cond body => some (.whileLoop cond body)
  | doWhile body cond => some (.doWhile body cond)
  | forLoop _ cond update body => some (.forLoop cond update body)
  | _ => none

def headerExprs : Stmt → List Expr
  | forLoop init _ _ _ => init.operands
  | forEach _ _ items _ => [items]
  | _ => []

def ownBodies : Stmt → List Stmt
  | forEach _ _ _ body => [body]
  | _ => []

def exprs : Stmt → List Expr
  | decl _ _ init => init.toList
  | expr e => [e]
  | ifElse cond _ _ => [cond]
  | forLoop init _ _ _ => init.operands
  | forEach _ _ items _ => [items]
  | labeled _ body => if body.isLoop then body.headerExprs else []
  | switch selector _ => [selector]
  | ret value => value.toList
  | raise value => [value]
  | sync lock _ => [lock]
  | _ => []

def stmts : Stmt → List Stmt
  | block stmts => stmts
  | ifElse _ ifTrue ifFalse => ifTrue :: ifFalse.toList
  | forEach _ _ _ body => [body]
  | labeled _ body => if body.isLoop then body.ownBodies else [body]
  | switch _ cases => cases.flatMap SwitchCase.body
  | tryCatch body catches cleanup =>
      body ++ catches.flatMap CatchClause.body ++ cleanup.getD []
  | sync _ body => body
  | _ => []

def startedLoop? : Stmt → Option Loop
  | labeled _ body => body.loop?
  | s => s.loop?

end Code.Stmt

namespace Eval

open Code
open Trace (Throwable)

/-! ## Rules that handle thrown values -/

def execHandler (r : Evaluator) (catches : List CatchClause) (t : Throwable) : Action Flow :=
  match catches.find? fun c => catchesType c.type t with
  | some c =>
      Action.inScope do
        Action.modify fun s => s.declare c.ident (.throwable t)
        r.execAll c.body
  | none => Action.raiseValue t

theorem execCatching_eq (r : Evaluator) (body : List Stmt) (catches : List CatchClause) :
    execCatching r body catches =
      (r.execBlock body).andThen Pure.pure (execHandler r catches) := by
  funext s
  unfold execCatching Action.andThen Outcome.andThen
  cases r.execBlock body s with
  | thrown t s =>
      show (match catches.find? fun c => catchesType c.type t with
        | some c => _
        | none => Outcome.thrown t s) = execHandler r catches t s
      unfold execHandler
      split
      · rename_i c hc
        simp only [hc]
      · rename_i hc
        simp only [hc]
        rfl
  | done _ _ | fault _ _ | exhausted => rfl

def execBefore (r : Evaluator) (cleanup : List Stmt) (outcome : Action Flow) : Action Flow := do
  match ← r.execBlock cleanup with
  | .normal => outcome
  | abrupt => return abrupt

theorem execTry_cleanup_eq (r : Evaluator) (body : List Stmt) (catches : List CatchClause)
    (cleanup : List Stmt) :
    execTry r body catches (some cleanup) =
      (execCatching r body catches).andThen
        (fun flow => execBefore r cleanup (Pure.pure flow))
        (fun t => execBefore r cleanup (Action.raiseValue t)) := by
  funext s
  show execCleanup r cleanup (execCatching r body catches s) = _
  unfold execCleanup Action.andThen Outcome.andThen
  cases execCatching r body catches s <;> rfl

/-! ## Rounds of a loop -/

/-- One round of a loop, with what the loop does when it goes on. -/
def loopRound (r : Evaluator) (label : Option String) (loop : Loop) (goOn : Action Flow) :
    Action Flow :=
  match loop with
  | .whileLoop cond body => do
      if ← r.evalBool cond "while" then afterBody r label body goOn else return .normal
  | .doWhile body cond =>
      afterBody r label body do
        if ← r.evalBool cond "do-while" then goOn else return .normal
  | .forLoop cond update body => do
      if ← evalForTest r cond then
        afterBody r label body do
          r.evalEach update
          goOn
      else return .normal

theorem iterateStep_eq (r : Evaluator) (label : Option String) (loop : Loop) :
    iterateStep r label loop = loopRound r label loop (r.iterate label loop) := by
  cases loop <;> rfl

namespace ClosedCore

variable {ι : Type} {P : ∀ {α : Type}, (ι → Action α) → Prop} (h : ClosedCore P)
variable {r : ι → Evaluator}

include h

/-! ## Rules without declarations -/

theorem afterBody {label : Option String} {body : Stmt} {goOn : ι → Action Flow}
    (hx : P fun i => (r i).exec body) (hg : P goOn) :
    P fun i => afterBody (r i) label body (goOn i) := by
  refine h.bind hx fun flow => ?_
  cases LoopStep.ofFlow label flow with
  | next => exact hg
  | stop => exact h.pure _
  | leave flow => exact h.pure flow

theorem evalForTest {cond : Option Expr} (he : ∀ e ∈ cond, P fun i => (r i).eval e) :
    P fun i => evalForTest (r i) cond := by
  cases cond with
  | none => exact h.pure true
  | some e => exact h.evalBool (he e rfl) _

theorem loopRound {label : Option String} {loop : Loop} {g : ι → Action Flow}
    (he : ∀ e ∈ loop.exprs, P fun i => (r i).eval e) (hx : P fun i => (r i).exec loop.body)
    (hg : P g) : P fun i => loopRound (r i) label loop (g i) := by
  cases loop with
  | whileLoop cond body =>
      refine h.bind (h.evalBool (he cond (by simp [Loop.exprs])) _) fun b => ?_
      cases b with
      | false => exact h.pure _
      | true => exact h.afterBody hx hg
  | doWhile body cond =>
      refine h.afterBody hx (h.bind (h.evalBool (he cond (by simp [Loop.exprs])) _) fun b => ?_)
      cases b with
      | false => exact h.pure _
      | true => exact hg
  | forLoop cond update body =>
      have hcond : ∀ e ∈ cond, P fun i => (r i).eval e := fun e hm =>
        he e (by simp only [Loop.exprs, List.mem_append, Option.mem_toList]; exact .inl hm)
      have hupdate : ∀ e ∈ update, P fun i => (r i).eval e := fun e hm =>
        he e (by simp only [Loop.exprs, List.mem_append]; exact .inr hm)
      refine h.bind (h.evalForTest hcond) fun b => ?_
      cases b with
      | false => exact h.pure _
      | true => exact h.afterBody hx (h.bind (h.evalEach hupdate) fun _ => hg)

theorem execCases {cases : List SwitchCase}
    (hx : ∀ c ∈ cases, ∀ s ∈ c.body, P fun i => (r i).exec s) :
    P fun i => execCases (r i) cases := by
  induction cases with
  | nil => exact h.pure _
  | cons c rest ih =>
      have hrest := ih fun c' hc' => hx c' (List.mem_cons_of_mem c hc')
      refine h.bind (h.execAll (hx c List.mem_cons_self)) fun flow => ?_
      match flow with
      | .normal => exact hrest
      | .broke none => exact h.pure _
      | .broke (some _) => exact h.pure _
      | .returned _ => exact h.pure _
      | .continued _ => exact h.pure _

omit h in
theorem mem_of_mem_casesFrom {value : Value} {cases : List SwitchCase} {c : SwitchCase}
    (hc : c ∈ casesFrom value cases) : c ∈ cases := by
  unfold casesFrom at hc
  split at hc
  · exact (List.dropWhile_suffix _).subset hc
  · exact (List.dropWhile_suffix _).subset hc

theorem execSwitch {selector : Expr} {cases : List SwitchCase}
    (he : P fun i => (r i).eval selector)
    (hx : ∀ c ∈ cases, ∀ s ∈ c.body, P fun i => (r i).exec s) :
    P fun i => execSwitch (r i) selector cases :=
  h.bind he fun _ => h.inScope (h.execCases fun c hc => hx c (mem_of_mem_casesFrom hc))

theorem execBefore {cleanup : List Stmt} {o : ι → Action Flow}
    (hx : ∀ s ∈ cleanup, P fun i => (r i).exec s) (ho : P o) :
    P fun i => execBefore (r i) cleanup (o i) := by
  refine h.bind (h.execBlock hx) fun flow => ?_
  cases flow with
  | normal => exact ho
  | returned _ | broke _ | continued _ => exact h.pure _

theorem execRaise {value : Expr} (he : P fun i => (r i).eval value) :
    P fun i => execRaise (r i) value := by
  refine h.bind he fun v => ?_
  cases v with
  | throwable t => exact h.raise t
  | null => exact h.raiseNew _ _
  | int _ | bool _ | str _ | array _ | object _ => exact h.fail _

theorem execReturn {value : Option Expr} (he : ∀ e ∈ value, P fun i => (r i).eval e) :
    P fun i => execReturn (r i) value := by
  cases value with
  | none => exact h.pure _
  | some e => exact h.bind (he e rfl) fun v => h.pure _

end ClosedCore

namespace ClosedStmtCore

variable {ι : Type} {P : ∀ {α : Type}, (ι → Action α) → Prop} (h : ClosedStmtCore P)
variable {r : ι → Evaluator}

include h

/-! ## Rules with declarations -/

theorem execForInit {init : ForInit} (he : ∀ e ∈ init.operands, P fun i => (r i).eval e) :
    P fun i => execForInit (r i) init := by
  cases init with
  | exprs es => exact h.evalEach he
  | decl type ident init =>
      exact h.bind (he init (by simp [ForInit.operands])) fun value => h.declare ident value

theorem execForItems {label : Option String} {ident : String} {body : Stmt}
    (hx : P fun i => (r i).exec body) (items : List Value) :
    P fun i => execForItems (r i) label ident body items := by
  induction items with
  | nil => exact h.pure _
  | cons item items ih =>
      refine h.bind (h.inScope (h.bind (h.declare ident item) fun _ => hx)) fun flow => ?_
      cases LoopStep.ofFlow label flow with
      | next => exact ih
      | stop => exact h.pure _
      | leave flow => exact h.pure flow

theorem execForEach {label : Option String} {ident : String} {items : Expr} {body : Stmt}
    (he : P fun i => (r i).eval items) (hx : P fun i => (r i).exec body) :
    P fun i => execForEach (r i) label ident items body := by
  simp only [execForEach_eq]
  refine h.bind he fun value => ?_
  cases value with
  | array address => exact h.bind (h.look _) fun values => h.execForItems hx values
  | null | int _ | bool _ | str _ | object _ | throwable _ => exact h.fail _

theorem execLoop {label : Option String} {s : Stmt} (hs : s.isLoop = true)
    (he : ∀ e ∈ s.headerExprs, P fun i => (r i).eval e)
    (hx : ∀ t ∈ s.ownBodies, P fun i => (r i).exec t)
    (hi : ∀ loop ∈ s.loop?, P fun i => (r i).iterate label loop) :
    P fun i => execLoop (r i) label s := by
  cases s with
  | whileLoop cond body => exact hi _ rfl
  | doWhile body cond => exact hi _ rfl
  | forLoop init cond update body =>
      exact h.inScope (h.bind (h.execForInit he) fun _ => hi _ rfl)
  | forEach type ident items body =>
      exact h.execForEach (he items (by simp [Stmt.headerExprs]))
        (hx body (by simp [Stmt.ownBodies]))
  | block _ | decl _ _ _ | expr _ | ifElse _ _ _ | labeled _ _ | switch _ _ | breakTo _
  | continueTo _ | ret _ | raise _ | tryCatch _ _ _ | sync _ _ | unmodelled _ =>
      simp [Stmt.isLoop] at hs

theorem execHandler {catches : List CatchClause}
    (hx : ∀ c ∈ catches, ∀ s ∈ c.body, P fun i => (r i).exec s) (t : Throwable) :
    P fun i => execHandler (r i) catches t := by
  unfold Eval.execHandler
  cases hc : catches.find? fun c => catchesType c.type t with
  | none => exact h.raise t
  | some c =>
      exact h.inScope (h.bind (h.declare c.ident _) fun _ =>
        h.execAll (hx c (List.mem_of_find?_eq_some hc)))

theorem execCatching {body : List Stmt} {catches : List CatchClause}
    (hbody : ∀ s ∈ body, P fun i => (r i).exec s)
    (hx : ∀ c ∈ catches, ∀ s ∈ c.body, P fun i => (r i).exec s) :
    P fun i => execCatching (r i) body catches := by
  simp only [execCatching_eq]
  exact h.andThen (h.execBlock hbody) (fun flow => h.pure flow) (h.execHandler hx)

theorem execTry {body : List Stmt} {catches : List CatchClause} {cleanup : Option (List Stmt)}
    (hbody : ∀ s ∈ body, P fun i => (r i).exec s)
    (hx : ∀ c ∈ catches, ∀ s ∈ c.body, P fun i => (r i).exec s)
    (hclean : ∀ stmts ∈ cleanup, ∀ s ∈ stmts, P fun i => (r i).exec s) :
    P fun i => execTry (r i) body catches cleanup := by
  cases cleanup with
  | none => exact h.execCatching hbody hx
  | some stmts =>
      simp only [execTry_cleanup_eq]
      exact h.andThen (h.execCatching hbody hx)
        (fun flow => h.execBefore (hclean stmts rfl) (h.pure flow))
        (fun t => h.execBefore (hclean stmts rfl) (h.raise t))

theorem execDecl {type : TypeName} {ident : String} {init : Option Expr}
    (he : ∀ e ∈ init, P fun i => (r i).eval e) :
    P fun i => execDecl (r i) type ident init :=
  h.bind (h.evalInit he type) fun value => h.bind (h.declare ident value) fun _ => h.pure _

theorem execLabeled {label : String} {body : Stmt}
    (he : ∀ e ∈ (Stmt.labeled label body).exprs, P fun i => (r i).eval e)
    (hx : ∀ t ∈ (Stmt.labeled label body).stmts, P fun i => (r i).exec t)
    (hi : ∀ loop ∈ body.loop?, ∀ l, P fun i => (r i).iterate l loop) :
    P fun i => execLabeled (r i) label body := by
  unfold Eval.execLabeled
  by_cases hb : body.isLoop = true
  · simp only [Stmt.exprs, Stmt.stmts, hb, if_true] at he hx ⊢
    exact h.execLoop hb he hx fun loop hl => hi loop hl _
  · simp only [Stmt.stmts, hb] at hx ⊢
    refine h.bind (hx body (by simp)) fun flow => ?_
    match flow with
    | .broke (some target) =>
        dsimp only
        split
        · exact h.pure _
        · exact h.pure _
    | .broke none => exact h.pure _
    | .normal => exact h.pure _
    | .returned _ => exact h.pure _
    | .continued _ => exact h.pure _

theorem execStep {s : Stmt} (he : ∀ e ∈ s.exprs, P fun i => (r i).eval e)
    (hx : ∀ t ∈ s.stmts, P fun i => (r i).exec t)
    (hi : ∀ loop ∈ s.startedLoop?, ∀ l, P fun i => (r i).iterate l loop) :
    P fun i => execStep (r i) s := by
  cases s with
  | block stmts => exact h.execBlock hx
  | decl type ident init =>
      exact h.execDecl fun e hm => he e (by simpa [Stmt.exprs] using hm)
  | expr e => exact h.bind (he e (by simp [Stmt.exprs])) fun _ => h.pure _
  | ifElse cond ifTrue ifFalse =>
      refine h.bind (h.evalBool (he cond (by simp [Stmt.exprs])) _) fun b => ?_
      cases b with
      | true => exact hx ifTrue (by simp [Stmt.stmts])
      | false =>
          cases ifFalse with
          | none => exact h.pure _
          | some s => exact hx s (by simp [Stmt.stmts])
  | whileLoop cond body => exact hi _ rfl none
  | doWhile body cond => exact hi _ rfl none
  | forLoop init cond update body =>
      exact h.inScope (h.bind (h.execForInit he) fun _ => hi _ rfl none)
  | forEach type ident items body =>
      exact h.execForEach (he items (by simp [Stmt.exprs])) (hx body (by simp [Stmt.stmts]))
  | labeled label body => exact h.execLabeled he hx hi
  | switch selector cases =>
      refine h.execSwitch (he selector (by simp [Stmt.exprs])) fun c hc s hs => hx s ?_
      exact List.mem_flatMap.mpr ⟨c, hc, hs⟩
  | breakTo label => exact h.pure _
  | continueTo label => exact h.pure _
  | ret value => exact h.execReturn fun e hm => he e (by simpa [Stmt.exprs] using hm)
  | raise value => exact h.execRaise (he value (by simp [Stmt.exprs]))
  | tryCatch body catches cleanup =>
      refine h.execTry (fun s hs => hx s ?_) (fun c hc s hs => hx s ?_)
        fun stmts hst s hs => hx s ?_
      · exact List.mem_append_left _ (List.mem_append_left _ hs)
      · exact List.mem_append_left _
          (List.mem_append_right _ (List.mem_flatMap.mpr ⟨c, hc, hs⟩))
      · cases hst
        exact List.mem_append_right _ hs
  | sync lock body =>
      exact h.bind (he lock (by simp [Stmt.exprs])) fun _ => h.execBlock hx
  | unmodelled text => exact h.fail _

end ClosedStmtCore

end Eval

/-! ## Conditions on nodes -/

namespace Code

theorem Expr.placeOperands_subset (e : Expr) : e.placeOperands ⊆ e.children := by
  cases e <;> simp [placeOperands, children]

theorem Expr.Every.operand {q : Expr → Prop} {e e' : Expr} (h : e.Every q)
    (he : e' ∈ e.operands) : e'.Every q := by
  cases e with
  | assign op target value =>
      rcases List.mem_append.mp he with he | he
      · have htarget : target.Every q := h.child (by simp [children])
        exact htarget.child (target.placeOperands_subset he)
      · exact h.child (by simpa [children] using .inr (List.mem_singleton.mp he))
  | unary op operand =>
      simp only [operands] at he
      split at he
      · have hoperand : operand.Every q := h.child (by simp [children])
        exact hoperand.child (operand.placeOperands_subset he)
      · exact h.child he
  | lit _ | name _ | self | field _ _ | index _ _ | binary _ _ _ | conditional _ _ _
  | call _ _ _ | new _ _ | newArray _ _ | superCall _ | selfCall _ => exact h.child he

namespace Stmt

variable {q : Expr → Prop} {Q : Stmt → Prop}

theorem headerExprs_subset (s : Stmt) : s.headerExprs ⊆ s.ownExprs := by
  cases s <;> simp [headerExprs, ownExprs, ForInit.operands]

theorem ownBodies_subset (s : Stmt) : s.ownBodies ⊆ s.children := by
  cases s <;> simp [ownBodies, children]

theorem Every.exprs {s : Stmt} (h : s.Every (HoldsHere q)) : ∀ e ∈ s.exprs, q e := by
  intro e he
  cases s with
  | labeled label body =>
      simp only [Stmt.exprs] at he
      split at he
      · exact (every_labeled.mp h).2.here e (body.headerExprs_subset he)
      · exact absurd he List.not_mem_nil
  | forLoop init cond update body =>
      exact h.here e (by
        simp only [ownExprs, List.mem_append]
        exact .inl (.inl he))
  | block _ | decl _ _ _ | expr _ | ifElse _ _ _ | forEach _ _ _ _ | switch _ _
  | breakTo _ | continueTo _ | ret _ | raise _ | tryCatch _ _ _ | sync _ _ | unmodelled _ =>
      exact h.here e he
  | whileLoop _ _ | doWhile _ _ => exact absurd he List.not_mem_nil

theorem Every.stmts {s : Stmt} (h : s.Every Q) : ∀ t ∈ s.stmts, t.Every Q := by
  intro t ht
  cases s with
  | labeled label body =>
      simp only [Stmt.stmts] at ht
      split at ht
      · exact (every_labeled.mp h).2.child (body.ownBodies_subset ht)
      · exact h.child ht
  | block _ | ifElse _ _ _ | forEach _ _ _ _ | switch _ _ | tryCatch _ _ _ | sync _ _ =>
      exact h.child ht
  | decl _ _ _ | expr _ | breakTo _ | continueTo _ | ret _ | raise _ | unmodelled _
  | whileLoop _ _ | doWhile _ _ | forLoop _ _ _ _ => exact absurd ht List.not_mem_nil

theorem loop?_subset {s : Stmt} {loop : Eval.Loop} (hl : loop ∈ s.loop?) :
    loop.exprs ⊆ s.ownExprs ∧ loop.body ∈ s.children := by
  cases s with
  | whileLoop cond body | doWhile body cond =>
      obtain rfl := Option.some.inj hl
      exact ⟨List.Subset.refl _, List.mem_singleton_self body⟩
  | forLoop init cond update body =>
      obtain rfl := Option.some.inj hl
      refine ⟨fun e he => ?_, List.mem_singleton_self body⟩
      simp only [ownExprs, List.append_assoc, List.mem_append]
      exact .inr (List.mem_append.mp he)
  | block _ | decl _ _ _ | expr _ | ifElse _ _ _ | forEach _ _ _ _ | labeled _ _ | switch _ _
  | breakTo _ | continueTo _ | ret _ | raise _ | tryCatch _ _ _ | sync _ _ | unmodelled _ =>
      exact absurd hl (by simp [Stmt.loop?])

theorem Every.ofLoop {s : Stmt} (h : s.Every (HoldsHere q)) {loop : Eval.Loop}
    (hl : loop ∈ s.loop?) : (∀ e ∈ loop.exprs, q e) ∧ loop.body.Every (HoldsHere q) :=
  ⟨fun e he => h.here e ((loop?_subset hl).1 he), h.child (loop?_subset hl).2⟩

/-- The loop that a statement starts is the statement, or what its label stands on. -/
theorem Every.exists_loop {s : Stmt} (h : s.Every Q) {loop : Eval.Loop}
    (hl : loop ∈ s.startedLoop?) : ∃ t : Stmt, t.Every Q ∧ loop ∈ t.loop? := by
  cases s with
  | labeled label body => exact ⟨body, (every_labeled.mp h).2, hl⟩
  | block _ | decl _ _ _ | expr _ | ifElse _ _ _ | whileLoop _ _ | doWhile _ _
  | forLoop _ _ _ _ | forEach _ _ _ _ | switch _ _ | breakTo _ | continueTo _ | ret _
  | raise _ | tryCatch _ _ _ | sync _ _ | unmodelled _ => exact ⟨_, h, hl⟩

theorem Every.startedLoop {s : Stmt} (h : s.Every (HoldsHere q)) {loop : Eval.Loop}
    (hl : loop ∈ s.startedLoop?) : (∀ e ∈ loop.exprs, q e) ∧ loop.body.Every (HoldsHere q) := by
  rcases h.exists_loop hl with ⟨t, ht, hl⟩
  exact ht.ofLoop hl

end Stmt
end Code
end TraceWeaving
