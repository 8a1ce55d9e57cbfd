import TraceWeaving.Proofs.Weave.Comparing

/-!
# Observers of the same code

An observer that watches nothing executes statements in the usual way.  Observers that
differ in what they report go the same way wherever the code writes to own paths.
-/

namespace TraceWeaving
namespace Eval

open Code
open Weave (Write writesIn)

def Watch.when (E : Evaluator) (id : String) (changes : Bool) : Watch :=
  if changes then .reporting E id else .idle

/-! ## Watching nothing -/

section

variable {r : Evaluator} {ret : Expr → Action Value}

theorem tracedTest_idle (operation : String) (cond : Expr) :
    tracedTest r .idle operation cond = r.evalBool cond operation :=
  bind_pure (r.evalBool cond operation)

theorem reportAfter_idle (writes : List Write) (x : Action Flow) :
    reportAfter .idle writes x = x := by
  have hsame : ifNormal ((Watch.idle).report writes >>= fun _ => pure Flow.normal) = pure := by
    funext flow
    cases flow with
    | normal | returned _ | broke _ | continued _ => rfl
  unfold reportAfter
  rw [hsame]
  exact bind_pure x

theorem tracedRound_idle (label : Option String) (loop : Loop) (goOn : Action Flow) :
    tracedRound r .idle label loop goOn = loopRound r label loop goOn := by
  cases loop with
  | whileLoop cond body =>
      simp only [tracedRound, tracedTest_idle]
      rfl
  | doWhile body cond =>
      simp only [tracedRound, tracedTest_idle]
      rfl
  | forLoop cond update body =>
      have htest : tracedForTest r .idle cond = evalForTest r cond := by
        cases cond with
        | none => rfl
        | some cond => exact tracedTest_idle "for" cond
      simp only [tracedRound, htest]
      rfl

theorem tracedLoop_idle (label : Option String) (s : Stmt) :
    tracedLoop r .idle label s = execLoop r label s := by
  cases s with
  | forLoop _ _ _ _ | forEach _ _ _ _ | block _ | decl _ _ _ | expr _ | ifElse _ _ _
  | whileLoop _ _ | doWhile _ _ | labeled _ _ | switch _ _ | breakTo _ | continueTo _ | ret _
  | raise _ | tryCatch _ _ _ | sync _ _ | unmodelled _ => rfl

theorem tracedStep_idle_eq_core (s : Stmt) :
    tracedStep r .idle ret s = tracedCore r .idle ret s :=
  reportAfter_idle _ _

theorem tracedStep_idle
    (hr : ∀ s, r.exec s = tracedStep r .idle ret s ∨ r.exec s = plainStep r ret s) (s : Stmt) :
    tracedStep r .idle ret s = plainStep r ret s := by
  induction s using Stmt.childInduction with
  | step s ih =>
      rw [tracedStep_idle_eq_core]
      cases s with
      | ifElse cond ifTrue ifFalse =>
          simp only [tracedCore, tracedTest_idle]
          rfl
      | sync lock body => rfl
      | labeled label body =>
          have hbody : r.exec body = tracedCore r .idle ret body := by
            rw [← tracedStep_idle_eq_core]
            rcases hr body with h | h
            · exact h
            · rw [h, ih body (List.mem_singleton_self body)]
          show _ = execLabeled r label body
          by_cases hloop : body.isLoop = true
          · simp only [tracedCore, execLabeled, hloop, if_true, tracedLoop_idle]
          · rw [execLabeled_eq r label (Bool.eq_false_iff.mpr hloop), hbody]
            simp only [tracedCore, hloop]
            rfl
      | ret value =>
          cases value with
          | none => rfl
          | some value => rfl
      | whileLoop _ _ | doWhile _ _ | forLoop _ _ _ _ | forEach _ _ _ _ => rfl
      | block _ | decl _ _ _ | expr _ | switch _ _ | breakTo _ | continueTo _ | raise _
      | tryCatch _ _ _ | unmodelled _ => rfl

end

theorem tracedRules_idle (E : Evaluator) (ret : Expr → Action Value) :
    (tracedRules E .idle ret).meaning = plain E ret := by
  have htraced := regular_tracedRules E .idle ret
  have hplain := regular_plainRules E ret
  apply htraced.meaning_eq hplain
  · have hexec : tracedStep (plain E ret) .idle ret = (plain E ret).exec := by
      funext s
      rw [tracedStep_idle (fun s => .inr (exec_plain E ret s)), exec_plain]
    have hiterate : (fun label loop => tracedRound (plain E ret) .idle label loop
        ((plain E ret).iterate label loop)) = (plain E ret).iterate := by
      funext label loop
      rw [tracedRound_idle, ← iterate_plain]
    show Evaluator.mk E.eval (tracedStep (plain E ret) .idle ret) (fun label loop =>
      tracedRound (plain E ret) .idle label loop ((plain E ret).iterate label loop)) = plain E ret
    rw [hexec, hiterate, ← eval_plain E ret]
  · have hstmt := htraced.exec_meaning
    have hexec : plainStep (tracedRules E .idle ret).meaning ret =
        (tracedRules E .idle ret).meaning.exec := by
      funext s
      rw [← tracedStep_idle (fun s => .inl (hstmt s))]
      exact (hstmt s).symm
    have hiterate : (fun label loop => loopRound (tracedRules E .idle ret).meaning label loop
        ((tracedRules E .idle ret).meaning.iterate label loop)) =
          (tracedRules E .idle ret).meaning.iterate := by
      funext label loop
      rw [← tracedRound_idle]
      exact (htraced.iterate_meaning label loop).symm
    have heval : E.eval = (tracedRules E .idle ret).meaning.eval :=
      funext fun e => (htraced.eval_meaning e).symm
    show Evaluator.mk E.eval (plainStep (tracedRules E .idle ret).meaning ret)
      (fun label loop => loopRound (tracedRules E .idle ret).meaning label loop
        ((tracedRules E .idle ret).meaning.iterate label loop)) = _
    rw [hexec, hiterate, heval]

theorem observer_eq (E : Evaluator) (id : String) (changes : Bool) (ret : Expr → Action Value) :
    observer E id changes ret = (tracedRules E (.when E id changes) ret).meaning := by
  cases changes with
  | true => rfl
  | false => exact (tracedRules_idle E ret).symm

/-! ## Reports of writes -/

namespace Comparison

open Trace (Report)

def IsChanged : Report → Prop
  | .changed _ _ => True
  | _ => False

def IsReturning : Report → Prop
  | .returning _ => True
  | _ => False

variable {C : Comparison} {id : String} {changes returns : Bool → Bool}

section

variable (hchanges : C.Optional changes IsChanged)

include hchanges

theorem trails_reportWrite (w : Write) :
    C.Trails [w] fun i => if changes i then (do
      let value ← C.evaluator.eval w.target
      let copy ← value.snapshot
      Action.record id (.changed w.path copy)) else pure () where
  grows i := by
    cases changes i with
    | false => exact .pure ()
    | true =>
        have hcopy : ∀ value : Value, Grows value.snapshot := closed_grows.snapshot
        exact (C.growing.eval w.target).bind fun value => (hcopy value).bind fun copy =>
          .receive id _
  matched s k hs hshows hk := by
    -- the place reads as the same value in both runs, and reading it changes nothing
    have hreadable := hshows w (List.mem_singleton_self w)
    rcases C.runs.eval_readable hs.2 hreadable with ⟨value, hvalue⟩
    have hsame : C.evaluator.eval w.target (s.recording k) = .done value (s.recording k) := by
      have hmatched : Outcome.Matched _ C.related (C.evaluator.eval w.target s)
        (C.evaluator.eval w.target (s.recording k)) := C.followed.eval w.target s k hs.1 hk
      rw [hvalue] at hmatched
      rcases hmatched with ⟨-, k', ho, -⟩
      have hown : OwnNamed C.program (s.recording k).frame.cls := hs.2
      have hreadable' : Readable (s.recording k) w.target := hreadable
      rcases C.runs.eval_readable hown hreadable' with ⟨value', hvalue'⟩
      rw [hvalue'] at ho
      obtain ⟨rfl, -⟩ := Outcome.done.inj ho
      exact hvalue'
    have htrails : C.Trails [w] _ :=
      trails_copy hchanges (fun copy => .changed w.path copy) (fun _ => trivial) id value
    have hcopy := htrails.matched s k hs hshows hk
    have hread : ∀ s' : State, C.evaluator.eval w.target s' = .done value s' → ∀ i,
        (if changes i then (do
          let value ← C.evaluator.eval w.target
          let copy ← value.snapshot
          Action.record id (.changed w.path copy)) else pure () : Action Unit) s' =
        (if changes i then
          value.snapshot >>= fun copy => Action.record id (.changed w.path copy)
          else pure () : Action Unit) s' := by
      intro s' hs' i
      cases changes i with
      | false => rfl
      | true => exact Action.bind_of_eq_done hs' _
    rw [hread s hvalue, hread (s.recording k) hsame]
    exact hcopy

theorem trails_report (ws : List Write) :
    C.Trails ws fun i => (Watch.when C.evaluator id (changes i)).report ws := by
  induction ws with
  | nil =>
      have hnil : ∀ on, (Watch.when C.evaluator id on).report [] = pure () := by
        intro on
        cases on <;> rfl
      simp only [hnil]
      exact (C.closed_trails []).pure ()
  | cons w ws ih =>
      have hcons : ∀ on, (Watch.when C.evaluator id on).report (w :: ws) =
          (if on then (do
            let value ← C.evaluator.eval w.target
            let copy ← value.snapshot
            Action.record id (.changed w.path copy)) else pure ()) >>= fun _ =>
              (Watch.when C.evaluator id on).report ws := by
        intro on
        cases on with
        | false => rfl
        | true =>
            show reportWrites C.evaluator id (w :: ws) = _
            simp only [if_true, bind_assoc]
            rfl
      simp only [hcons]
      apply (C.closed_trails (w :: ws)).bind
      · exact (trails_reportWrite hchanges w).weaken (by simp)
      · exact fun _ => ih.weaken (List.subset_cons_self w ws)

end

/-- Watches whose reports go the same way from wherever the places of the writes can be
read. -/
def Watching (C : Comparison) (watch : Bool → Watch) : Prop :=
  ∀ ws, C.Trails ws fun i => (watch i).report ws

section

variable {watch : Bool → Watch} (hwatch : C.Watching watch)

include hwatch

/-- Reports follow what made their places readable. -/
theorem Leaving.report {ws : List Write} {α β : Type} {x : Bool → Action α}
    {f : Bool → α → Action β} (hx : C.Leaving ws x) (hf : ∀ a, C.Trails [] fun i => f i a) :
    C.Trails [] fun i => x i >>= fun a => (watch i).report ws >>= fun _ => f i a :=
  hx.bind fun a => (C.closed_trails ws).bind (hwatch ws) fun _ => (hf a).of_nil

theorem trails_reportAfter {ws : List Write} {x : Bool → Action Flow} (hx : C.Leaving ws x) :
    C.Trails [] fun i => reportAfter (watch i) ws (x i) := by
  apply hx.bind
  intro flow
  cases flow with
  | normal =>
      exact (C.closed_trails ws).bind (hwatch ws) fun _ =>
        (C.closed_trails ws).pure Flow.normal
  | returned _ | broke _ | continued _ => exact (C.closed_trails ws).pure _

end

theorem trails_returnRule (hreturns : C.Optional returns IsReturning) (value : Expr) :
    C.Trails [] fun i => returnRule C.evaluator id (returns i) value := by
  apply (C.closed_trails []).bind (trails_eval value)
  intro result
  have hhand : ∀ on, handOver id on result = (if on then
      result.snapshot >>= fun copy => Action.record id (.returning copy) else pure ()) >>=
        fun _ => pure result := by
    intro on
    cases on with
    | false => rfl
    | true =>
        simp only [if_true, bind_assoc]
        rfl
  simp only [hhand]
  exact (C.closed_trails []).bind (trails_copy hreturns .returning (fun _ => trivial) id result)
    fun _ => (C.closed_trails []).pure result

/-! ## Statements -/

structure Together (C : Comparison) (valued : Bool) (r : Bool → Evaluator) : Prop where
  eval : ∀ e, C.Trails [] fun i => (r i).eval e
  leaves : ∀ e, ReportsOwn e → Leaves C.program (writesIn e) ((r false).eval e)
  exec : ∀ s : Stmt, s.Every (ReportsHere valued) → C.Trails [] fun i => (r i).exec s
  iterate : ∀ label (loop : Loop), (∀ e ∈ loop.exprs, ReportsOwn e) →
    loop.body.Every (ReportsHere valued) → C.Trails [] fun i => (r i).iterate label loop

namespace Together

variable {valued : Bool} {r : Bool → Evaluator} (hr : C.Together valued r) {watch : Bool → Watch}
variable {returnBy : Bool → Expr → Action Value}

include hr

theorem leaving_eval {e : Expr} (he : ReportsOwn e) :
    C.Leaving (writesIn e) fun i => (r i).eval e :=
  ⟨hr.eval e, hr.leaves e he⟩

theorem leaving_evalEach {es : List Expr} (hes : ∀ e ∈ es, ReportsOwn e) :
    C.Leaving (es.flatMap writesIn) fun i => (r i).evalEach es :=
  ⟨(C.closed_trails []).evalEach fun e _ => hr.eval e,
    .evalEach fun e he => hr.leaves e (hes e he)⟩

theorem leaving_evalBool {cond : Expr} (hcond : ReportsOwn cond) (operation : Bool → String) :
    C.Leaving (writesIn cond) fun i => (r i).evalBool cond (operation i) := by
  unfold Evaluator.evalBool
  apply (hr.leaving_eval hcond).andThen
  intro value
  cases value with
  | bool b => exact (C.closed_trails []).pure b
  | null | int _ | str _ | array _ | object _ | throwable _ => exact trails_fail fun _ => _

theorem leaving_forInit {init : ForInit} (hinit : ∀ e ∈ init.operands, ReportsOwn e) :
    C.Leaving (initWrites init) fun i => execForInit (r i) init := by
  cases init with
  | exprs es => exact hr.leaving_evalEach hinit
  | decl type ident init =>
      exact (hr.leaving_eval (hinit init (List.mem_singleton_self init))).both
        fun value => leaving_declare ident value

variable (hwatch : C.Watching watch)

include hwatch

theorem trails_tracedTest {cond : Expr} (hcond : ReportsOwn cond) (operation : Bool → String) :
    C.Trails [] fun i =>
      tracedTest (r i) (watch i) (operation i) cond :=
  (hr.leaving_evalBool hcond operation).report hwatch fun holds => (C.closed_trails []).pure holds

theorem trails_tracedForTest {cond : Option Expr} (hcond : ∀ e ∈ cond, ReportsOwn e) :
    C.Trails [] fun i => tracedForTest (r i) (watch i) cond := by
  cases cond with
  | none => exact (C.closed_trails []).pure true
  | some cond => exact hr.trails_tracedTest hwatch (hcond cond rfl) _

theorem trails_tracedRound (label : Option String) {loop : Loop}
    (hexprs : ∀ e ∈ loop.exprs, ReportsOwn e) (hexec : C.Trails [] fun i => (r i).exec loop.body)
    {goOn : Bool → Action Flow} (hagain : C.Trails [] goOn) :
    C.Trails [] fun i => tracedRound (r i) (watch i) label loop (goOn i) := by
  have h := C.closed_trails []
  cases loop with
  | whileLoop cond body =>
      apply h.bind (hr.trails_tracedTest hwatch (hexprs cond (List.mem_singleton_self cond)) _)
      intro holds
      cases holds with
      | false => exact h.pure _
      | true => exact h.afterBody hexec hagain
  | doWhile body cond =>
      apply h.afterBody hexec
      apply h.bind (hr.trails_tracedTest hwatch (hexprs cond (List.mem_singleton_self cond)) _)
      intro holds
      cases holds with
      | false => exact h.pure _
      | true => exact hagain
  | forLoop cond update body =>
      have hcond : ∀ e ∈ cond, ReportsOwn e := fun e he =>
        hexprs e (List.mem_append_left _ (Option.mem_toList.mpr he))
      have hupdate : ∀ e ∈ update, ReportsOwn e := fun e he =>
        hexprs e (List.mem_append_right _ he)
      apply h.bind (hr.trails_tracedForTest hwatch hcond)
      intro holds
      cases holds with
      | false => exact h.pure _
      | true =>
          exact h.afterBody hexec ((hr.leaving_evalEach hupdate).report hwatch fun _ => hagain)

theorem trails_forItems (label : Option String) (ident : String) {body : Stmt}
    (hbody : body.Every (ReportsHere valued)) (items : List Value) :
    C.Trails [] fun i => execForItems
      ((r i).preceded ((watch i).report [.ofVariable ident]))
      label ident body items := by
  have h := C.closed_trails []
  induction items with
  | nil => exact h.pure _
  | cons item items ih =>
      apply h.bind
      · exact h.inScope ((leaving_declare ident item).report hwatch fun _ => hr.exec body hbody)
      · intro flow
        cases LoopStep.ofFlow label flow with
        | next => exact ih
        | stop => exact h.pure _
        | leave flow => exact h.pure flow

theorem leaving_tracedLoop (label : Option String) {s : Stmt} (hs : s.isLoop = true)
    (hown : s.Every (ReportsHere valued)) :
    C.Leaving (endWrites s) fun i =>
      tracedLoop (r i) (watch i) label s := by
  have h := C.closed_trails []
  have hiterate : ∀ loop ∈ s.loop?, C.Trails [] fun i => (r i).iterate label loop :=
    fun loop hloop => hr.iterate label loop (reportsHere_ofLoop hown hloop).1
      (reportsHere_ofLoop hown hloop).2
  cases s with
  | whileLoop cond body => exact .of_trails (hiterate _ rfl)
  | doWhile body cond => exact .of_trails (hiterate _ rfl)
  | forLoop init cond update body =>
      apply Leaving.of_trails
      apply h.inScope
      have hinit : ∀ e ∈ init.operands, ReportsOwn e := fun e he =>
        hown.here e (List.mem_append_left _ (List.mem_append_left _ he))
      apply (hr.leaving_forInit hinit).report hwatch
      exact fun _ => hiterate _ rfl
  | forEach type ident items body =>
      have hbody : body.Every (ReportsHere valued) := (Stmt.every_forEach.mp hown).2
      simp only [tracedLoop, execForEach_eq]
      apply (hr.leaving_eval (hown.here items (List.mem_singleton_self items))).andThen
      intro value
      cases value with
      | array address =>
          exact h.bind (h.look _) fun values =>
            hr.trails_forItems hwatch label ident hbody values
      | null | int _ | bool _ | str _ | object _ | throwable _ => exact h.fail _
  | block _ | decl _ _ _ | expr _ | ifElse _ _ _ | labeled _ _ | switch _ _ | breakTo _
  | continueTo _ | ret _ | raise _ | tryCatch _ _ _ | sync _ _ | unmodelled _ =>
      exact absurd hs (by simp [Stmt.isLoop])

variable (hreturn : ∀ value, C.Trails [] fun i => returnBy i value)

include hreturn

/-- Statements go the same way, and what is reported once they end can be read then. -/
theorem leaving_tracedCore (s : Stmt) (hown : s.Every (ReportsHere valued)) :
    C.Leaving (endWrites s) fun i => tracedCore (r i) (watch i)
      (returnBy i) s := by
  have h := C.closed_trails []
  induction s using Stmt.childInduction with
  | step s ih =>
      have hstep : C.Trails [] fun i => execStep (r i) s := by
        apply h.execStep (fun e _ => hr.eval e) fun t ht => hr.exec t (hown.stmts t ht)
        intro loop hstarted label
        rcases hown.exists_loop hstarted with ⟨t, ht, hloop⟩
        have hparts := reportsHere_ofLoop ht hloop
        exact hr.iterate label loop hparts.1 hparts.2
      have hloop : s.isLoop = true → C.Leaving (endWrites s) fun i =>
          tracedLoop (r i) (watch i) none s :=
        fun hs => hr.leaving_tracedLoop hwatch none hs hown
      cases s with
      | ifElse cond ifTrue ifFalse =>
          apply Leaving.of_trails
          have hcond : ReportsOwn cond := hown.here cond (List.mem_singleton_self cond)
          apply h.bind (hr.trails_tracedTest hwatch hcond fun _ => "if")
          intro holds
          cases holds with
          | true => exact hr.exec ifTrue (hown.child (by simp [Stmt.children]))
          | false =>
              cases ifFalse with
              | none => exact h.pure _
              | some s => exact hr.exec s (hown.child (by simp [Stmt.children]))
      | sync lock body =>
          apply Leaving.of_trails
          have hlock : ReportsOwn lock := hown.here lock (List.mem_singleton_self lock)
          apply (hr.leaving_eval hlock).report hwatch
          exact fun _ => h.execBlock fun t ht => hr.exec t (hown.child ht)
      | labeled label body =>
          have hbody : body.Every (ReportsHere valued) := (Stmt.every_labeled.mp hown).2
          by_cases hloop : body.isLoop = true
          · simp only [tracedCore, hloop, if_true]
            exact hr.leaving_tracedLoop hwatch (some label) hloop hbody
          · simp only [tracedCore, hloop]
            exact (ih body (List.mem_singleton_self body) hbody).andThen fun _ => h.pure _
      | ret value =>
          apply Leaving.of_trails
          cases value with
          | none => exact hstep
          | some value => exact h.bind (hreturn value) fun _ => h.pure _
      | expr e =>
          exact (hr.leaving_eval (hown.here e (List.mem_singleton_self e))).andThen
            fun _ => h.pure _
      | decl type ident init =>
          cases init with
          | none => exact .of_trails hstep
          | some init =>
              have hinit : ReportsOwn init := hown.here init (List.mem_singleton_self init)
              exact (hr.leaving_eval hinit).both fun value =>
                (leaving_declare ident value).andThen fun _ => h.pure _
      | switch selector cases =>
          have hselector : ReportsOwn selector := hown.here selector (List.mem_singleton_self selector)
          apply (hr.leaving_eval hselector).andThen
          intro value
          apply h.inScope
          apply h.execCases
          intro c hc t ht
          have hcase := ClosedCore.mem_of_mem_casesFrom hc
          exact hr.exec t (hown.child (List.mem_flatMap.mpr ⟨c, hcase, ht⟩))
      | whileLoop _ _ | doWhile _ _ | forLoop _ _ _ _ | forEach _ _ _ _ => exact hloop rfl
      | block _ | breakTo _ | continueTo _ | raise _ | tryCatch _ _ _ | unmodelled _ =>
          exact .of_trails hstep

end Together

/-! ## Observers -/

noncomputable def observers (C : Comparison) (watch : Bool → Watch)
    (returnBy : Bool → Expr → Action Value) (n : Nat) (i : Bool) : Evaluator :=
  if i then (tracedRules C.evaluator (watch true) (returnBy true)).meaning
  else (tracedRules C.evaluator (watch false) (returnBy false)).within n

theorem observers_succ (C : Comparison) (watch : Bool → Watch)
    (returnBy : Bool → Expr → Action Value) (n : Nat) :
    C.observers watch returnBy (n + 1) = fun i =>
      (tracedRules C.evaluator (watch i) (returnBy i)).step (C.observers watch returnBy n i) := by
  funext i
  cases i with
  | false => rfl
  | true => exact (regular_tracedRules _ _ _).step_meaning.symm

theorem growing_observer {E : Evaluator} (hE : E.Growing) {watch : Watch}
    {returnBy : Expr → Action Value} (hreport : ∀ writes, Grows (watch.report writes))
    (hreturn : ∀ value, Grows (returnBy value)) :
    (tracedRules E watch returnBy).meaning.Growing := by
  apply (regular_tracedRules E _ _).growing_meaning
  intro r hr
  constructor
  · exact hE.eval
  · intro s
    let returning : Unit → Expr → Action Value := fun _ => returnBy
    have hret : ∀ e, True → Grows (returning () e) := fun e _ => hreturn e
    have hon := Evaluator.Has.on (r := fun _ => r) hr fun _ => True
    have hstep : ∀ i, Grows (tracedStep r watch (returning i) s) := fun _ =>
      closed_grows.tracedStep hon hreport hret (every_true s)
    exact hstep ()
  · exact fun label loop => closed_grows.tracedRound (r := fun _ => r)
      (g := fun _ => r.iterate label loop) hreport label (fun e _ => hr.eval e)
      (hr.exec loop.body) (hr.iterate label loop)

section

variable {watch : Bool → Watch} {returnBy : Bool → Expr → Action Value}
variable (hwatch : C.Watching watch) (hreturn : ∀ value, C.Trails [] fun i => returnBy i value)

include hwatch hreturn

theorem growing_observers (i : Bool) :
    (tracedRules C.evaluator (watch i) (returnBy i)).meaning.Growing :=
  growing_observer C.growing (fun ws => (hwatch ws).grows i) fun value => (hreturn value).grows i

theorem together_observers (valued : Bool) (n : Nat) :
    C.Together valued (C.observers watch returnBy n) := by
  induction n with
  | zero =>
      have hgrows := growing_observers hwatch hreturn true
      have hzero : ∀ {α : Type} {x : Bool → Action α}, x false = .exhausted → Grows (x true) →
          C.Trails [] x := by
        intro α x hx hgrow
        constructor
        · intro i
          cases i with
          | false =>
              rw [hx]
              exact fun _ => trivial
          | true => exact hgrow
        · intro s k _ _ _
          rw [hx]
          trivial
      constructor
      · exact fun e => hzero rfl (hgrows.eval e)
      · exact fun e _ => ⟨fun _ => trivial,
          fun _ ho => absurd ho (by simp [observers, Rules.within, Action.exhausted])⟩
      · exact fun s _ => hzero rfl (hgrows.exec s)
      · exact fun label loop _ _ => hzero rfl (hgrows.iterate label loop)
  | succ n ih =>
      rw [observers_succ]
      constructor
      · exact fun e => trails_eval e
      · exact fun e he => leaves_eval C.runs.toHosts C.growing e he
      · exact fun s hs => trails_reportAfter hwatch (ih.leaving_tracedCore hwatch hreturn s hs)
      · exact fun label loop hexprs hbody => ih.trails_tracedRound hwatch label hexprs
          (ih.exec loop.body hbody) (ih.iterate label loop hexprs hbody)

theorem trails_tracer {valued : Bool} {s : Stmt} (hs : s.Every (ReportsHere valued)) :
    C.Trails [] fun i => (tracedRules C.evaluator (watch i) (returnBy i)).meaning.exec s := by
  apply Trails.of_followed
  · exact fun i => (growing_observers hwatch hreturn i).exec s
  · have htends := (regular_tracedRules C.evaluator (watch false) (returnBy false)).tends_exec s
    intro st k hst hk
    refine Followed.limit htends (fun n st k hst hk => ?_) st k hst hk
    exact ((together_observers hwatch hreturn valued n).exec s hs).to_followed st k hst hk

theorem trails_tracer_execAll {valued : Bool} {body : List Stmt}
    (hbody : Stmt.EveryIn (ReportsHere valued) body) :
    C.Trails [] fun i =>
      (tracedRules C.evaluator (watch i) (returnBy i)).meaning.execAll body :=
  (C.closed_trails []).execAll fun s hs => trails_tracer hwatch hreturn (hbody s hs)

end

theorem trails_observer_execAll (hchanges : C.Optional changes IsChanged)
    (hreturns : C.Optional returns IsReturning) {valued : Bool} {body : List Stmt}
    (hbody : Stmt.EveryIn (ReportsHere valued) body) :
    C.Trails [] fun i =>
      (observer C.evaluator id (changes i) (returnRule C.evaluator id (returns i))).execAll
        body := by
  simp only [observer_eq]
  exact trails_tracer_execAll (trails_report hchanges) (trails_returnRule hreturns) hbody

end Comparison

end Eval
end TraceWeaving
