import TraceWeaving.Proofs.Weave.Normal

/-!
# Placed reports make the tracer's reports

Executing code with reports in place is tracing the code without them.  The proof goes
through the forms of statements and, in each, compares the placed statement with what the
tracer does itself.  Blocks that come from placing do not matter, because reports and
tests do not see the scope that such a block starts.
-/

namespace TraceWeaving
namespace Eval

open Code
open Weave

theorem reportAfter_nil (r : Evaluator) (id : String) (x : Action Flow) :
    reportAfter (.reporting r id) [] x = x := by
  show x >>= ifNormal (Pure.pure .normal) = x
  rw [Evaluator.ifNormal_pure]
  exact bind_pure x

theorem tracedTest_congr {r r' : Evaluator} (h : r.eval = r'.eval) (watch : Watch)
    (operation : String) (cond : Expr) :
    tracedTest r watch operation cond = tracedTest r' watch operation cond := by
  unfold tracedTest
  rw [evalBool_congr h]

/-- Rules by which loops report the writes of their tests and of their updates. -/
structure Rules.Traces (R : Rules) (E : Evaluator) (id : String) : Prop where
  regular : R.Regular
  eval : R.eval = fun _ => E.eval
  round : R.round = fun r => tracedRound r (.reporting E id)

theorem Rules.Traces.eval_meaning {R : Rules} {E : Evaluator} {id : String}
    (hR : R.Traces E id) : R.meaning.eval = E.eval := by
  funext e
  rw [hR.regular.eval_meaning, hR.eval]

theorem traces_tracedRules (E : Evaluator) (id : String) (returnBy : Expr → Action Value) :
    (tracedRules E (.reporting E id) returnBy).Traces E id :=
  ⟨regular_tracedRules E (.reporting E id) returnBy, rfl, rfl⟩

section

variable (E : Evaluator) (id : String)

theorem tracedTest_of_isEmpty {cond : Expr} (hw : (writesIn cond).isEmpty = true)
    (r : Evaluator) (operation : String) :
    tracedTest r (.reporting E id) operation cond = r.evalBool cond operation := by
  unfold tracedTest
  rw [List.isEmpty_iff.mp hw]
  exact bind_pure _

theorem testName_of_isEmpty {cond : Expr} (hw : (writesIn cond).isEmpty = true)
    (operation : String) : (Watch.reporting E id).testName operation cond = operation :=
  if_pos hw

theorem testName_of_writes {cond : Expr} (hw : (writesIn cond).isEmpty = false)
    (operation : String) : (Watch.reporting E id).testName operation cond = "!" := by
  show (if (writesIn cond).isEmpty then operation else "!") = "!"
  rw [hw]
  rfl

end

theorem isLoop_of_isBlock {s : Stmt} (h : s.isBlock = true) : s.isLoop = false := by
  cases s with
  | block stmts => rfl
  | decl _ _ _ | expr _ | ifElse _ _ _ | whileLoop _ _ | doWhile _ _ | forLoop _ _ _ _
  | forEach _ _ _ _ | labeled _ _ | switch _ _ | breakTo _ | continueTo _ | ret _ | raise _
  | tryCatch _ _ _ | sync _ _ | unmodelled _ => exact absurd h (by simp [Stmt.isBlock])

theorem isBlock_retarget (loopLabel : Option String) (target : String) (b : Bool) {s : Stmt}
    (h : s.isBlock = true) : (retarget loopLabel target b s).isBlock = true := by
  cases s with
  | block stmts => rfl
  | decl _ _ _ | expr _ | ifElse _ _ _ | whileLoop _ _ | doWhile _ _ | forLoop _ _ _ _
  | forEach _ _ _ _ | labeled _ _ | switch _ _ | breakTo _ | continueTo _ | ret _ | raise _
  | tryCatch _ _ _ | sync _ _ | unmodelled _ => exact absurd h (by simp [Stmt.isBlock])

/-- After an iteration that was left by its label the test is made. -/
theorem Flow.Relabels.proceed {label : Option String} {target : String} {f f' : Flow}
    (h : Flow.Relabels label target f f') (test : Action Bool) (goOn : Action Flow) :
    (ifNormal (test >>= fun holds => Pure.pure (if holds then Flow.normal else .broke none)) f' >>=
        fun flow => (LoopStep.ofFlow label flow).proceed goOn) =
      (LoopStep.ofFlow label f).proceed
        (test >>= fun holds => if holds then goOn else Pure.pure .normal) := by
  have htest : (test >>= fun holds => Pure.pure (if holds then Flow.normal else .broke none)) >>=
      (fun flow => (LoopStep.ofFlow label flow).proceed goOn) =
        test >>= fun holds => if holds then goOn else Pure.pure .normal := by
    rw [bind_assoc]
    congr 1
    funext holds
    cases holds <;> rfl
  rcases h with ⟨rfl, hclear⟩
  match f with
  | .normal => exact htest
  | .returned value => rfl
  | .broke none => rfl
  | .broke (some l) =>
      have hl : ¬ l = target := fun h => hclear (by rw [h])
      simp only [Flow.retarget, Flow.leaveLabel, hl, if_false]
      show (LoopStep.ofFlow label (.broke (some l))).proceed goOn = _
      by_cases hlabel : label = some l
      · simp only [LoopStep.ofFlow, hlabel, if_true]
        rfl
      · simp only [LoopStep.ofFlow, hlabel, if_false]
        rfl
  | .continued none =>
      simp only [Flow.retarget, Bool.false_eq_true, if_false, Flow.leaveLabel, if_true]
      exact htest
  | .continued (some l) =>
      by_cases hl : label = some l
      · simp only [Flow.retarget, hl, if_true, Flow.leaveLabel, LoopStep.ofFlow] at htest ⊢
        exact htest
      · simp only [Flow.retarget, hl, if_false, Flow.leaveLabel]
        show (LoopStep.ofFlow label (.continued (some l))).proceed goOn = _
        simp only [LoopStep.ofFlow, hl, if_false]
        rfl

def around (r : Evaluator) (before : List Stmt) (x : Action Flow) : Action Flow :=
  if before.isEmpty then x else .inScope (r.execAll before >>= ifNormal x)

/-! ## What is put in front of a body -/

section

variable {hooks : Hooks} {id : String} {E : Evaluator} {returnBy : Expr → Action Value}

theorem exec_plain_block (stmts : List Stmt) :
    (plain E returnBy).exec (.block stmts) = (plain E returnBy).execBlock stmts :=
  exec_plain E returnBy (.block stmts)

theorem exec_prepend {front : List Stmt} {body : Stmt}
    (hfront : PassesFrom 0 ((plain E returnBy).execAll front))
    (hbody : PassesFrom 0 ((plain E returnBy).exec body)) :
    (plain E returnBy).exec (prepend front body) =
      (plain E returnBy).execAll front >>= ifNormal ((plain E returnBy).exec body) := by
  by_cases hne : front = []
  · rw [hne]
    rfl
  · rcases prepend_eq front body hne with ⟨inner, heq, hinner⟩
    have hscope : Action.inScope ((plain E returnBy).execAll inner) =
        (plain E returnBy).exec body := by
      rcases hinner with rfl | rfl
      · exact (exec_plain_block inner).symm
      · rw [Evaluator.execAll_singleton]
        exact inScope_eq hbody
    rw [heq, exec_plain_block]
    unfold Evaluator.execBlock
    rw [Evaluator.execAll_append, inScope_bind hfront]
    congr 1
    funext flow
    cases flow with
    | normal => exact hscope
    | returned _ | broke _ | continued _ => rfl

variable (hE : Reporting hooks id E)

include hE

theorem Reporting.execAll_front (writes : List Write) (stmts : List Stmt) :
    (plain E returnBy).execAll (reports hooks id writes ++ stmts) =
      reportWrites E id writes >>= fun _ => (plain E returnBy).execAll stmts := by
  rw [Evaluator.execAll_append, hE.execAll_reports, bind_assoc]
  rfl

theorem Reporting.execBlock_front (writes : List Write) (stmts : List Stmt) :
    (plain E returnBy).execBlock (reports hooks id writes ++ stmts) =
      reportWrites E id writes >>= fun _ => (plain E returnBy).execBlock stmts := by
  unfold Evaluator.execBlock
  rw [hE.execAll_front, inScope_bind (hE.passes_reportWrites writes)]

theorem Reporting.exec_prepend_reports (writes : List Write) {body : Stmt}
    (hbody : PassesFrom 0 ((plain E returnBy).exec body)) :
    (plain E returnBy).exec (prepend (reports hooks id writes) body) =
      reportWrites E id writes >>= fun _ => (plain E returnBy).exec body := by
  have hfront := hE.execAll_reports returnBy writes
  rw [exec_prepend _ hbody, hfront, bind_assoc]
  · rfl
  · rw [hfront]
    exact (closed_passes 0).bind (x := fun _ => reportWrites E id writes)
      (f := fun _ _ => Pure.pure Flow.normal) (hE.passes_reportWrites writes)
      fun _ => (closed_passes 0).pure _

/-! ## Tests inside a body -/

theorem Reporting.evalBool_true {r : Evaluator} (hr : r.eval = E.eval) (operation : String) :
    r.evalBool (.bool true) operation = Pure.pure true := by
  rw [evalBool_congr hr]
  show E.eval (.bool true) >>= _ = _
  rw [hE.bool]
  rfl

theorem Reporting.passes_tracedTest (operation : String) (cond : Expr) :
    PassesFrom 0 (tracedTest E (.reporting E id) operation cond) := by
  have hbool : PassesFrom 0 (E.evalBool cond operation) :=
    (closed_passes 0).evalBool (r := fun _ => E) (hE.passes cond) operation
  exact (closed_passes 0).bind (x := fun _ => E.evalBool cond operation)
    (f := fun _ holds => reportWrites E id (writesIn cond) >>= fun _ => Pure.pure holds) hbool
    fun holds => (closed_passes 0).bind (x := fun _ => reportWrites E id (writesIn cond))
      (f := fun _ _ => Pure.pure holds) (hE.passes_reportWrites _)
      fun _ => (closed_passes 0).pure holds

theorem Reporting.execAll_testInBody (cond : Expr) :
    (plain E returnBy).execAll (testInBody hooks id cond (writesIn cond)) =
      tracedTest E (.reporting E id) "!" cond >>= fun holds =>
        Pure.pure (if holds then Flow.normal else .broke none) := by
  have hreports := hE.execAll_reports returnBy (writesIn cond)
  have hbreak : (plain E returnBy).exec
      (.block (reports hooks id (writesIn cond) ++ [.breakTo none])) =
        reportWrites E id (writesIn cond) >>= fun _ => Pure.pure (.broke none) := by
    rw [exec_plain_block, hE.execBlock_front]
    congr 1
    funext _
    unfold Evaluator.execBlock
    rw [Evaluator.execAll_singleton, exec_plain]
    rfl
  unfold testInBody
  rw [Evaluator.execAll_cons, exec_plain, hreports]
  show ((plain E returnBy).evalBool (.unary .not cond) "if" >>= fun holds =>
    if holds then (plain E returnBy).exec _ else Pure.pure .normal) >>= _ = _
  rw [evalBool_congr (eval_plain E returnBy), hE.evalBool_not, hbreak]
  unfold tracedTest
  simp only [bind_assoc, pure_bind]
  congr 1
  funext holds
  cases holds with
  | true => rfl
  | false =>
      simp only [Bool.not_false, if_true, bind_assoc, pure_bind]
      rfl

theorem Reporting.exec_prepend_test (cond : Expr) {body : Stmt}
    (hbody : PassesFrom 0 ((plain E returnBy).exec body)) :
    (plain E returnBy).exec (prepend (testInBody hooks id cond (writesIn cond)) body) =
      tracedTest E (.reporting E id) "!" cond >>= fun holds =>
        if holds then (plain E returnBy).exec body else Pure.pure (.broke none) := by
  have htest := @Reporting.execAll_testInBody _ _ _ returnBy hE cond
  rw [exec_prepend _ hbody, htest, bind_assoc]
  · congr 1
    funext holds
    cases holds <;> rfl
  · rw [htest]
    exact (closed_passes 0).bind (x := fun _ => tracedTest E (.reporting E id) "!" cond)
      (f := fun _ holds => Pure.pure (if holds then Flow.normal else .broke none))
      (hE.passes_tracedTest "!" cond) fun _ => (closed_passes 0).pure _

theorem Reporting.afterBody_prepend_test (label : Option String) (cond : Expr) {body : Stmt}
    (hbody : PassesFrom 0 ((plain E returnBy).exec body)) (goOn : Action Flow) :
    afterBody (plain E returnBy) label
        (prepend (testInBody hooks id cond (writesIn cond)) body) goOn =
      tracedTest E (.reporting E id) "!" cond >>= fun holds =>
        if holds then afterBody (plain E returnBy) label body goOn else Pure.pure .normal := by
  rw [afterBody_eq, hE.exec_prepend_test cond hbody, bind_assoc]
  congr 1
  funext holds
  cases holds <;> rfl

/-! ## Loops -/

omit hE in
theorem Rules.Traces.iterate_eq {R : Rules} (hR : R.Traces E id) {label : Option String}
    {loop loop' : Loop}
    (h : ∀ goOn, loopRound (plain E returnBy) label loop goOn =
      tracedRound R.meaning (.reporting E id) label loop' goOn) :
    (plain E returnBy).iterate label loop = R.meaning.iterate label loop' := by
  apply (regular_plainRules E returnBy).iterate_congr hR.regular
  rw [hR.round]
  exact h

variable (hret : ∀ e, PassesFrom 0 (returnBy e))

include hret

theorem Reporting.passes_exec_block {s : Stmt} (hs : s.isBlock = true) :
    PassesFrom 0 ((plain E returnBy).exec s) := by
  cases s with
  | block stmts =>
      rw [exec_plain_block]
      exact (passes_plain hE.passes hret).execBlock stmts
  | decl _ _ _ | expr _ | ifElse _ _ _ | whileLoop _ _ | doWhile _ _ | forLoop _ _ _ _
  | forEach _ _ _ _ | labeled _ _ | switch _ _ | breakTo _ | continueTo _ | ret _ | raise _
  | tryCatch _ _ _ | sync _ _ | unmodelled _ => exact absurd hs (by simp [Stmt.isBlock])

theorem Reporting.passes_iterate (label : Option String) {loop : Loop}
    (hbody : loop.body.isBlock = true) : PassesFrom 0 ((plain E returnBy).iterate label loop) :=
  passes_iterate_plain hE.passes label (hE.passes_exec_block hret hbody)

theorem Reporting.passes_exec_labeled (label : String) {s : Stmt} (hs : s.isBlock = true) :
    PassesFrom 0 ((plain E returnBy).exec (.labeled label s)) := by
  rw [exec_plain]
  show PassesFrom 0 (execLabeled _ label s)
  rw [execLabeled_eq _ _ (isLoop_of_isBlock hs)]
  exact (closed_passes 0).bind (x := fun _ => (plain E returnBy).exec s)
    (f := fun _ flow => Pure.pure (flow.leaveLabel label)) (hE.passes_exec_block hret hs)
    fun _ => (closed_passes 0).pure _

section

variable {R : Rules} (hR : R.Traces E id)
variable (label : Option String) {body body' : Stmt} (hb : body'.isBlock = true)
variable (hbody : (plain E returnBy).exec body' = R.meaning.exec body)

include hR hb hbody

theorem Reporting.execLoop_placeWhile (cond : Expr) :
    execLoop (plain E returnBy) label (placeWhile hooks id cond body') =
      tracedLoop R.meaning (.reporting E id) label (.whileLoop cond body) := by
  have heval := hR.eval_meaning.trans (eval_plain E returnBy).symm
  show _ = R.meaning.iterate label (.whileLoop cond body)
  unfold placeWhile
  simp only
  cases hw : (writesIn cond).isEmpty with
  | true =>
      refine hR.iterate_eq fun goOn => ?_
      show (plain E returnBy).evalBool cond "while" >>= _ = tracedTest _ _ _ cond >>= _
      rw [testName_of_isEmpty E id hw, tracedTest_of_isEmpty E id hw, evalBool_congr heval]
      simp only [afterBody_congr hbody]
  | false =>
      refine hR.iterate_eq fun goOn => ?_
      show (plain E returnBy).evalBool (.bool true) "while" >>= _ = tracedTest _ _ _ cond >>= _
      rw [testName_of_writes E id hw, tracedTest_congr hR.eval_meaning,
        hE.evalBool_true (eval_plain E returnBy), pure_bind]
      show afterBody _ label (prepend _ body') goOn = _
      rw [hE.afterBody_prepend_test label cond (hE.passes_exec_block hret hb)]
      simp only [afterBody_congr hbody]

omit hR hbody in
/-- The labelled body of a `do` loop and the test that follows it. -/
theorem Reporting.exec_iteration (cond : Expr) (target : String) :
    (plain E returnBy).exec (.block (.labeled target (retarget label target false body')
        :: testInBody hooks id cond (writesIn cond))) =
      (plain E returnBy).exec (.labeled target (retarget label target false body')) >>=
        ifNormal (tracedTest E (.reporting E id) "!" cond >>= fun holds =>
          Pure.pure (if holds then Flow.normal else .broke none)) := by
  have htest := @Reporting.execAll_testInBody _ _ _ returnBy hE cond
  have hpasses : PassesFrom 0 ((plain E returnBy).execAll
      (testInBody hooks id cond (writesIn cond))) := by
    rw [htest]
    exact (closed_passes 0).bind (x := fun _ => tracedTest E (.reporting E id) "!" cond)
      (f := fun _ holds => Pure.pure (if holds then Flow.normal else .broke none))
      (hE.passes_tracedTest "!" cond) fun _ => (closed_passes 0).pure _
  rw [exec_plain_block]
  unfold Evaluator.execBlock
  rw [Evaluator.execAll_cons, inScope_bind]
  · rw [← htest]
    congr 1
    funext flow
    cases flow with
    | normal => exact inScope_eq hpasses
    | returned _ | broke _ | continued _ => rfl
  · exact hE.passes_exec_labeled hret target (isBlock_retarget label target false hb)

theorem Reporting.execLoop_placeDoWhile (cond : Expr) {k : Nat}
    (hclear : body'.Every (ClearOf label (reservedName "iteration" k))) :
    execLoop (plain E returnBy) label (placeDoWhile hooks id body' cond label k).1 =
      tracedLoop R.meaning (.reporting E id) label (.doWhile body cond) := by
  have heval := hR.eval_meaning.trans (eval_plain E returnBy).symm
  show _ = R.meaning.iterate label (.doWhile body cond)
  cases hw : (writesIn cond).isEmpty with
  | true =>
      rw [placeDoWhile_of_isEmpty hw]
      refine hR.iterate_eq fun goOn => ?_
      show afterBody _ label body' _ = afterBody _ label body (tracedTest _ _ _ cond >>= _)
      rw [testName_of_isEmpty E id hw, tracedTest_of_isEmpty E id hw, evalBool_congr heval]
      exact afterBody_congr hbody label _
  | false =>
      rw [placeDoWhile_of_writes hw]
      have hblock : asBlock body' = body' := by
        unfold asBlock
        rw [if_pos hb]
      refine hR.iterate_eq fun goOn => ?_
      show (plain E returnBy).evalBool (.bool true) "while" >>= _ =
        afterBody _ label body (tracedTest _ _ _ cond >>= _)
      rw [testName_of_writes E id hw, tracedTest_congr hR.eval_meaning,
        hE.evalBool_true (eval_plain E returnBy), pure_bind, hblock]
      show afterBody _ label (.block _) goOn = _
      rw [afterBody_eq, afterBody_eq, hE.exec_iteration hret label hb, bind_assoc, ← hbody]
      refine ((flowsBy_labeled_retarget hclear ?_).bind_eq fun f f' hf => ?_).symm
      · exact isLoop_of_isBlock hb
      · exact (hf.proceed _ goOn).symm

omit hret hb hbody in
theorem Reporting.evalEach_reported (es : List Expr) :
    (plain E returnBy).evalEach (es ++ reportCalls hooks id (es.flatMap writesIn)) =
      R.meaning.evalEach es >>= fun _ =>
        reportWrites E id (es.flatMap writesIn) := by
  rw [evalEach_append, evalEach_congr (eval_plain E returnBy),
    evalEach_congr (eval_plain E returnBy), hE.evalEach_reportCalls,
    evalEach_congr hR.eval_meaning]

theorem Reporting.iterate_forLoop (cond : Option Expr) (update : List Expr) :
    (plain E returnBy).iterate label (.forLoop (forTest hooks id cond body').1
        (update ++ reportCalls hooks id (update.flatMap writesIn))
        (forTest hooks id cond body').2) =
      R.meaning.iterate label (.forLoop cond update body) := by
  have heval := hR.eval_meaning.trans (eval_plain E returnBy).symm
  have hupdate : ∀ goOn : Action Flow,
      ((plain E returnBy).evalEach (update ++ reportCalls hooks id (update.flatMap writesIn)) >>=
          fun _ => goOn) =
        R.meaning.evalEach update >>= fun _ =>
          reportWrites E id (update.flatMap writesIn) >>= fun _ => goOn := by
    intro goOn
    rw [hE.evalEach_reported hR, bind_assoc]
  refine hR.iterate_eq fun goOn => ?_
  show (evalForTest (plain E returnBy) _ >>= fun holds => if holds then
      afterBody (plain E returnBy) label _
        ((plain E returnBy).evalEach (update ++ _) >>= fun _ => goOn)
    else Pure.pure .normal) = (tracedForTest R.meaning (.reporting E id) cond >>= _)
  rw [hupdate]
  cases cond with
  | none =>
      show afterBody _ label body' _ = afterBody _ label body _
      exact afterBody_congr hbody label _
  | some test =>
      show _ = tracedTest _ _ _ test >>= _
      cases hw : (writesIn test).isEmpty with
      | true =>
          simp only [forTest, hw, if_true]
          show (plain E returnBy).evalBool test "for" >>= _ = _
          rw [testName_of_isEmpty E id hw, tracedTest_of_isEmpty E id hw, evalBool_congr heval]
          simp only [afterBody_congr hbody]
          rfl
      | false =>
          simp only [forTest, hw]
          show afterBody _ label (prepend _ body') _ = _
          rw [testName_of_writes E id hw, tracedTest_congr hR.eval_meaning,
            hE.afterBody_prepend_test label test (hE.passes_exec_block hret hb)]
          simp only [afterBody_congr hbody]
          rfl

omit hret hE hR hbody in
theorem isBlock_forTest (cond : Option Expr) : (forTest hooks id cond body').2.isBlock = true := by
  cases cond with
  | none => exact hb
  | some test =>
      simp only [forTest]
      split
      · exact hb
      · rcases prepend_eq (testInBody hooks id test (writesIn test)) body'
          (by simp [testInBody]) with ⟨inner, heq, _⟩
        rw [heq]
        rfl

omit hret hR hb hbody in
theorem Reporting.execAll_start (type : TypeName) (ident : String) (init : Expr) :
    (plain E returnBy).execAll (.declare type ident init
        :: reports hooks id (writesIn init ++ [Write.ofVariable ident])) =
      execForInit E (.decl type ident init) >>= fun _ =>
        reportWrites E id (writesIn init ++ [Write.ofVariable ident]) >>= fun _ =>
          Pure.pure .normal := by
  rw [Evaluator.execAll_cons, hE.execAll_reports, exec_plain]
  show (((plain E returnBy).eval init >>= fun value =>
    Action.modify (fun s => s.declare ident value) >>= fun _ => Pure.pure Flow.normal) >>= _) =
      (E.eval init >>= fun value => Action.modify fun s => s.declare ident value) >>= _
  rw [eval_plain]
  simp only [bind_assoc, pure_bind]
  rfl

theorem Reporting.execLoop_placeFor (init : ForInit) (cond : Option Expr) (update : List Expr) :
    around (plain E returnBy) (placeFor hooks id init cond update body').before
        (execLoop (plain E returnBy) label (placeFor hooks id init cond update body').stmt) =
      tracedLoop R.meaning (.reporting E id) label (.forLoop init cond update body) := by
  have heval := hR.eval_meaning.trans (eval_plain E returnBy).symm
  have hloop := hE.iterate_forLoop hret hR label hb hbody cond update
  have hpasses : PassesFrom 0 ((plain E returnBy).iterate label
      (.forLoop (forTest hooks id cond body').1
        (update ++ reportCalls hooks id (update.flatMap writesIn))
        (forTest hooks id cond body').2)) :=
    hE.passes_iterate hret label (isBlock_forTest hb cond)
  rw [placeFor_eq]
  cases init with
  | exprs es =>
      show Action.inScope ((plain E returnBy).evalEach (es ++ _) >>= fun _ =>
        (plain E returnBy).iterate label _) = Action.inScope _
      rw [hE.evalEach_reported hR, hloop, bind_assoc]
      rfl
  | decl type ident init =>
      show Action.inScope ((plain E returnBy).execAll (.declare type ident init :: reports hooks id
        (writesIn init ++ [Write.ofVariable ident])) >>= ifNormal (Action.inScope
          ((plain E returnBy).iterate label _))) = Action.inScope _
      rw [inScope_eq hpasses, hloop, hE.execAll_start, bind_assoc]
      simp only [bind_assoc, pure_bind, Eval.ifNormal]
      show _ = Action.inScope (execForInit R.meaning (.decl type ident init) >>= _)
      rw [execForInit_congr hR.eval_meaning]
      rfl

theorem Reporting.execLoop_forEach (type : TypeName) (ident : String) (items : Expr) :
    execLoop (plain E returnBy) label (.forEach type ident items
        (prepend (reports hooks id [Write.ofVariable ident]) body')) =
      tracedLoop R.meaning (.reporting E id) label (.forEach type ident items body) := by
  have heval : (plain E returnBy).eval = (R.meaning.preceded
      (reportWrites E id [Write.ofVariable ident])).eval :=
    (eval_plain E returnBy).trans hR.eval_meaning.symm
  refine execForEach_congr heval label ident items ?_
  rw [hE.exec_prepend_reports _ (hE.passes_exec_block hret hb), hbody]
  rfl

end

end

end Eval
end TraceWeaving
