import TraceWeaving.Proofs.Weave.Filtering

/-!
# Loops with moved tests

The test of a loop that writes moves into the body of the loop, together with the reports of
its writes.  The loop goes the same way as before: breaks and continues of the body reach
the same end, the test is made in the same rounds, and the updates of a `for` loop still
follow each iteration.

Only the loop itself has its reports in place here.  What its body does stays as it is.
-/

namespace TraceWeaving
namespace Eval

open Code
open Code.Stmt (HoldsHere)
open Weave

def withLabel : Option String → Stmt → Stmt
  | none, s => s
  | some label, s => .labeled label s

/-! ## Watched tests -/

/-- The rules of loops whose tests are watched, while their bodies are executed as they
stand. -/
def testedRules (E : Evaluator) (watch : Watch) : Rules where
  eval _ := E.eval
  exec _ := E.exec
  round r := tracedRound r watch

section

variable (E : Evaluator) (watch : Watch)

theorem regular_testedRules : (testedRules E watch).Regular where
  eval _ hconst _ _ _ := hconst _
  exec _ hconst _ _ _ := hconst _
  round h hconst _ hr label loop _ hg :=
    h.tracedRound (fun _ => hconst _) label (fun e _ => hr.eval e) (hr.exec loop.body) hg

theorem eval_tested : (testedRules E watch).meaning.eval = E.eval :=
  funext fun e => (regular_testedRules E watch).eval_meaning e

theorem exec_tested : (testedRules E watch).meaning.exec = E.exec :=
  funext fun s => (regular_testedRules E watch).exec_meaning s

theorem traces_testedRules (id : String) : (testedRules E (.reporting E id)).Traces E id :=
  ⟨regular_testedRules E (.reporting E id), rfl, rfl⟩

end

theorem tracedForTest_congr {r r' : Evaluator} (h : r.eval = r'.eval) (watch : Watch)
    (cond : Option Expr) : tracedForTest r watch cond = tracedForTest r' watch cond := by
  cases cond with
  | none => rfl
  | some cond => exact tracedTest_congr h watch _ cond

theorem tracedRound_congr {r r' : Evaluator} (heval : r.eval = r'.eval) (hexec : r.exec = r'.exec)
    (watch : Watch) (label : Option String) (loop : Loop) (goOn : Action Flow) :
    tracedRound r watch label loop goOn = tracedRound r' watch label loop goOn := by
  have hbody : ∀ body goOn, afterBody r label body goOn = afterBody r' label body goOn :=
    fun body goOn => afterBody_congr (congrFun hexec body) label goOn
  cases loop with
  | whileLoop cond body => simp only [tracedRound, tracedTest_congr heval, hbody]
  | doWhile body cond => simp only [tracedRound, tracedTest_congr heval, hbody]
  | forLoop cond update body =>
      simp only [tracedRound, tracedForTest_congr heval, evalEach_congr heval, hbody]

theorem iterate_tested_idle {E : Evaluator} (hE : plain E E.eval = E) (label : Option String)
    (loop : Loop) : (testedRules E .idle).meaning.iterate label loop = E.iterate label loop := by
  have heval := eval_tested E .idle
  have hexec := exec_tested E .idle
  have hsame : (testedRules E .idle).meaning.iterate label loop =
      (plain E E.eval).iterate label loop := by
    apply (regular_testedRules E .idle).iterate_congr (regular_plainRules E E.eval)
    intro goOn
    show tracedRound _ .idle label loop goOn = loopRound (plain E E.eval) label loop goOn
    rw [hE, tracedRound_congr heval hexec, tracedRound_idle]
  rw [hsame, hE]

theorem tracedLoop_tested_idle {E : Evaluator} (hE : plain E E.eval = E) (label : Option String)
    {s : Stmt} (hs : s.loop?.isSome = true) :
    tracedLoop (testedRules E .idle).meaning .idle label s = execLoop E label s := by
  rw [tracedLoop_idle]
  cases s with
  | whileLoop _ _ | doWhile _ _ => exact iterate_tested_idle hE label _
  | forLoop init cond update body =>
      simp only [execLoop, iterate_tested_idle hE, execForInit_congr (eval_tested E .idle)]
  | forEach _ _ _ _ | block _ | decl _ _ _ | expr _ | ifElse _ _ _ | labeled _ _ | switch _ _
  | breakTo _ | continueTo _ | ret _ | raise _ | tryCatch _ _ _ | sync _ _ | unmodelled _ =>
      exact absurd hs (by simp [Stmt.loop?])

/-! ## Placed loops -/

theorem isLoop_of_loop? {s : Stmt} (hs : s.loop?.isSome = true) : s.isLoop = true := by
  cases s with
  | whileLoop _ _ | doWhile _ _ | forLoop _ _ _ _ | forEach _ _ _ _ => rfl
  | block _ | decl _ _ _ | expr _ | ifElse _ _ _ | labeled _ _ | switch _ _ | breakTo _
  | continueTo _ | ret _ | raise _ | tryCatch _ _ _ | sync _ _ | unmodelled _ =>
      exact absurd hs (by simp [Stmt.loop?])

section

variable {p : Program} {E : Evaluator} (hE : Runs p E) {s : Stmt}

include hE

theorem exec_withLabel (hs : s.isLoop = true) (label : Option String) :
    E.exec (withLabel label s) = execLoop E label s := by
  rw [hE.exec]
  cases label with
  | none =>
      cases s with
      | whileLoop _ _ | doWhile _ _ | forLoop _ _ _ _ | forEach _ _ _ _ => rfl
      | block _ | decl _ _ _ | expr _ | ifElse _ _ _ | labeled _ _ | switch _ _ | breakTo _
      | continueTo _ | ret _ | raise _ | tryCatch _ _ _ | sync _ _ | unmodelled _ =>
          exact absurd hs (by simp [Stmt.isLoop])
  | some label => exact if_pos hs

theorem execAll_placed {placed : Placed} (hafter : placed.after = []) :
    E.execAll placed.stmts = around E placed.before (E.exec placed.stmt) := by
  have hblock : ∀ stmts, E.exec (.block stmts) = E.execBlock stmts := fun stmts => hE.exec _
  unfold Placed.stmts around
  rw [hafter]
  split
  · exact Evaluator.execAll_singleton E placed.stmt
  · rw [Evaluator.execAll_singleton, hblock]
    unfold Evaluator.execBlock
    rw [Evaluator.execAll_append, Evaluator.execAll_singleton]

variable {hooks : Hooks} (hp : p.runtimeClass = hooks.runtimeClass) (id : String)

include hp

/-- Executing a loop with its reports in place is executing it with watched tests. -/
theorem execAll_place_loop (hs : s.loop?.isSome = true) (hnormal : NormalHere s)
    {label : Option String} {k : Nat}
    (hclear : ∀ t ∈ s.children, t.Every (ClearOf label (reservedName "iteration" k))) :
    E.execAll (place hooks id (withLabel label s) k).1.stmts =
      tracedLoop (testedRules E (.reporting E id)).meaning (.reporting E id) label s := by
  have hloop := isLoop_of_loop? hs
  have hplaced : (place hooks id (withLabel label s) k).1 =
      { (placeLoop hooks id label s k).1 with
        stmt := withLabel label (placeLoop hooks id label s k).1.stmt } := by
    cases label with
    | none => rw [withLabel, place_of_isLoop hooks id hloop]; rfl
    | some label => exact place_labeled_loop hooks id label hloop k
  have hexec : ∀ body, (plain E E.eval).exec body =
      (testedRules E (.reporting E id)).meaning.exec body := by
    intro body
    rw [hE.plain, exec_tested]
  have hreporting := hE.reporting hE.passes hp id
  have hR := traces_testedRules E id
  have hafter : (placeLoop hooks id label s k).1.after = [] := by
    cases s with
    | whileLoop _ _ | doWhile _ _ => rfl
    | forLoop init cond update body =>
        show (placeFor hooks id init cond update body).after = []
        rw [placeFor_eq]
        cases init <;> rfl
    | forEach _ _ _ _ | block _ | decl _ _ _ | expr _ | ifElse _ _ _ | labeled _ _ | switch _ _
    | breakTo _ | continueTo _ | ret _ | raise _ | tryCatch _ _ _ | sync _ _ | unmodelled _ =>
        exact absurd hs (by simp [Stmt.loop?])
  rw [execAll_placed hE (by rw [hplaced]; exact hafter), hplaced]
  show around E (placeLoop hooks id label s k).1.before
    (E.exec (withLabel label (placeLoop hooks id label s k).1.stmt)) = _
  rw [exec_withLabel hE (isLoop_placeLoop hooks id label hloop k), ← hE.plain]
  cases s with
  | whileLoop cond body =>
      have h := hreporting.execLoop_placeWhile hE.passes hR label hnormal (hexec body) cond
      rw [hE.plain] at h ⊢
      exact h
  | doWhile body cond =>
      have h := hreporting.execLoop_placeDoWhile hE.passes hR label hnormal (hexec body) cond
        (hclear body (List.mem_singleton_self body))
      rw [hE.plain] at h ⊢
      exact h
  | forLoop init cond update body =>
      have h := hreporting.execLoop_placeFor hE.passes hR label hnormal (hexec body) init cond
        update
      rw [hE.plain] at h ⊢
      exact h
  | forEach _ _ _ _ | block _ | decl _ _ _ | expr _ | ifElse _ _ _ | labeled _ _ | switch _ _
  | breakTo _ | continueTo _ | ret _ | raise _ | tryCatch _ _ _ | sync _ _ | unmodelled _ =>
      exact absurd hs (by simp [Stmt.loop?])

end

/-! ## Loops with and without reports -/

namespace Comparison

variable {C : Comparison}

theorem together_evaluator (C : Comparison) (valued : Bool) :
    C.Together valued fun _ => C.evaluator where
  eval e := trails_eval e
  leaves e he := leaves_eval C.runs.toHosts C.growing e he
  exec s _ := trails_exec s
  iterate label loop _ _ :=
    .of_good (fun _ => C.growing.iterate label loop) (C.followed.iterate label loop)

section

variable {watch : Bool → Watch} (hwatch : C.Watching watch)

include hwatch

theorem growing_tested (i : Bool) : (testedRules C.evaluator (watch i)).meaning.Growing := by
  apply (regular_testedRules C.evaluator (watch i)).growing_meaning
  intro r hr
  constructor
  · exact C.growing.eval
  · exact C.growing.exec
  · exact fun label loop => closed_grows.tracedRound (r := fun _ => r)
      (g := fun _ => r.iterate label loop) (fun ws => (hwatch ws).grows i) label
      (fun e _ => hr.eval e) (hr.exec loop.body) (hr.iterate label loop)

/-- Loops go the same way, whoever watches their tests. -/
theorem trails_iterate_tested (label : Option String) {loop : Loop}
    (hexprs : ∀ e ∈ loop.exprs, ReportsOwn e) :
    C.Trails [] fun i => (testedRules C.evaluator (watch i)).meaning.iterate label loop := by
  let R := fun i => testedRules C.evaluator (watch i)
  have hR : ∀ i, (R i).Regular := fun i => regular_testedRules C.evaluator (watch i)
  have hgrows : ∀ i, Grows ((R i).meaning.iterate label loop) :=
    fun i => (growing_tested hwatch i).iterate label loop
  have hsame : ∀ i goOn, (R i).round (R i).meaning label loop goOn =
      tracedRound C.evaluator (watch i) label loop goOn := fun i goOn =>
    tracedRound_congr (eval_tested C.evaluator (watch i)) (exec_tested C.evaluator (watch i))
      (watch i) label loop goOn
  -- the first rounds of the one loop are followed by the other one, which has no bound
  have hrounds : ∀ n, C.Trails [] fun i =>
      if i then (R true).meaning.iterate label loop
      else (R false).rounds (R false).meaning label loop n := by
    intro n
    induction n with
    | zero =>
        constructor
        · intro i
          cases i with
          | false => exact fun _ => trivial
          | true => exact hgrows true
        · exact fun _ _ _ _ _ => trivial
    | succ n ih =>
        have hround := (C.together_evaluator true).trails_tracedRound hwatch label hexprs
          (trails_exec loop.body) ih
        have hnext : ∀ i, tracedRound C.evaluator (watch i) label loop
            (if i then (R true).meaning.iterate label loop
              else (R false).rounds (R false).meaning label loop n) =
              if i then (R true).meaning.iterate label loop
              else (R false).rounds (R false).meaning label loop (n + 1) := by
          intro i
          cases i with
          | false => exact (hsame false _).symm
          | true =>
              have hiterate := (hR true).iterate_meaning label loop
              rw [hsame] at hiterate
              exact hiterate.symm
        simp only [hnext] at hround
        exact hround
  apply Trails.of_followed hgrows
  intro st k hst hk
  refine Followed.limit ((hR false).tends_rounds label loop) (fun n st k hst hk => ?_) st k hst hk
  exact (hrounds n).to_followed st k hst hk

theorem trails_tracedLoop_tested (label : Option String) {s : Stmt} (hs : s.loop?.isSome = true)
    (hown : HoldsHere ReportsOwn s) :
    C.Trails [] fun i =>
      tracedLoop (testedRules C.evaluator (watch i)).meaning (watch i) label s := by
  cases s with
  | whileLoop cond body => exact trails_iterate_tested hwatch label hown
  | doWhile body cond => exact trails_iterate_tested hwatch label hown
  | forLoop init cond update body =>
      have hinit : ∀ e ∈ init.operands, ReportsOwn e := fun e he =>
        hown e (List.mem_append_left _ (List.mem_append_left _ he))
      have hexprs : ∀ e ∈ (Loop.forLoop cond update body).exprs, ReportsOwn e := by
        intro e he
        apply hown
        rw [Stmt.ownExprs, List.append_assoc]
        exact List.mem_append_right _ he
      simp only [tracedLoop, execForInit_congr (eval_tested C.evaluator _)]
      apply (C.closed_trails []).inScope
      apply ((C.together_evaluator true).leaving_forInit hinit).report hwatch
      exact fun _ => trails_iterate_tested hwatch label hexprs
  | forEach _ _ _ _ | block _ | decl _ _ _ | expr _ | ifElse _ _ _ | labeled _ _ | switch _ _
  | breakTo _ | continueTo _ | ret _ | raise _ | tryCatch _ _ _ | sync _ _ | unmodelled _ =>
      exact absurd hs (by simp [Stmt.loop?])

end

end Comparison

/-- The execution of a statement during which no array ever contains itself. -/
def Program.ExecStaysAcyclic (p : Program) (s : Stmt) (st : State) : Prop :=
  st.heap.isAcyclic = true ∧
    (p.careful Heap.isAcyclic).meaning.exec s st = p.meaning.exec s st

theorem Program.execStaysAcyclic_of_isDone {p : Program} {n : Nat} {s : Stmt} {st : State}
    (hst : st.heap.isAcyclic = true)
    (h : (((p.careful Heap.isAcyclic).within n).exec s st).isDone = true) :
    p.ExecStaysAcyclic s st :=
  ⟨hst, Within.eq_of_isDone (((p.regular_careful Heap.isAcyclic).below_meaning n).exec s)
    ((p.careful_meaning_below Heap.isAcyclic).exec s) h⟩

end Eval

namespace Weave

open Code
open Code.Stmt (HoldsHere)
open Eval (Program State Heap Comparison OwnNamed ReportsOwn Watch SameBut ClearOf withLabel
  testedRules)

abbrev otherReports : Toggles :=
  ⟨false, true, true⟩

section

variable {p : Program} {hooks : Hooks} (hp : p.runtimeClass = hooks.runtimeClass) (id : String)
variable {s : Stmt} (hs : s.loop?.isSome = true) (hnormal : NormalHere s)
variable (hown : HoldsHere ReportsOwn s) {label : Option String} {n : Nat}
variable (hclear : ∀ t ∈ s.children, t.Every (ClearOf label (reservedName "iteration" n)))
variable {st : State} (hst : OwnNamed p st.frame.cls)

include hp hs hnormal hown hclear hst

/-- Of a loop and the loop with its reports in place, the second in the list goes the way of
the first one.  Reports can be added while the heap is good for it. -/
theorem matched_placed (ok : Heap → Bool) (hok : ok st.heap = true) (changes : Bool → Bool)
    (hacyclic : changes true = false ∨ ∀ heap, ok heap = true → heap.isAcyclic = true) :
    ((if changes false then
        (p.careful ok).meaning.execAll (place hooks id (withLabel label s) n).1.stmts
      else (p.careful ok).meaning.exec (withLabel label s)) st).Matched
      (fun heap cls => ok heap = true ∧ OwnNamed p cls) (SameReports otherReports)
      ((if changes true then
        (p.careful ok).meaning.execAll (place hooks id (withLabel label s) n).1.stmts
      else (p.careful ok).meaning.exec (withLabel label s)) st) := by
  let C : Comparison := .careful p ok (SameBut.kept fun e => !otherReports.reports e)
  have hchanges : C.Optional changes Comparison.IsChanged := by
    have hswitched := switched_of_le (t := otherReports) (T := fun i => ⟨changes i, true, true⟩)
      (fun _ => ⟨fun hoff => absurd hoff (by decide), fun hon => hon, fun hon => hon⟩)
      (hacyclic.imp_left fun hoff => by rw [hoff]) p
    exact hswitched.changes
  have hwatch : C.Watching fun i => Watch.when C.evaluator id (changes i) :=
    Comparison.trails_report hchanges
  have hloop : ∀ i, (if changes i then
        C.evaluator.execAll (place hooks id (withLabel label s) n).1.stmts
      else C.evaluator.exec (withLabel label s)) =
        Eval.tracedLoop (testedRules C.evaluator (.when C.evaluator id (changes i))).meaning
          (.when C.evaluator id (changes i)) label s := by
    intro i
    cases changes i with
    | true => exact Eval.execAll_place_loop C.runs hp id hs hnormal hclear
    | false =>
        exact (Eval.exec_withLabel C.runs (Eval.isLoop_of_loop? hs) label).trans
          (Eval.tracedLoop_tested_idle C.runs.plain label hs).symm
  have htrails := (Comparison.trails_tracedLoop_tested hwatch label hs hown).to_followed st
    st.recorder ⟨hok, hst⟩ (.refl _)
  rw [← hloop false, ← hloop true] at htrails
  exact htrails

end

/-- Moving a test that writes into the body preserves the loop.  Let the test, the start and
the updates of a loop in normal form report writes to own paths only, let its label not be
used again inside, and let the new label be new.  Then the loop and the loop with its reports
in place end normally, with the same jump or with the same throwable, or both in a fault, or
none of them ends; and the states they leave are the same but for the value changes that are
recorded.  The loop must not put an array into itself, as such an array cannot be reported. -/
theorem moved_test_preserves_loop {p : Program} {hooks : Hooks}
    (hp : p.runtimeClass = hooks.runtimeClass) (id : String) {s : Stmt}
    (hs : s.loop?.isSome = true) (hnormal : NormalHere s) (hown : HoldsHere ReportsOwn s)
    {label : Option String} {n : Nat}
    (hclear : ∀ t ∈ s.children, t.Every (ClearOf label (reservedName "iteration" n)))
    {st : State} (hst : OwnNamed p st.frame.cls)
    (hacyclic : p.ExecStaysAcyclic (withLabel label s) st) :
    ∃ bound, ∀ steps ≥ bound,
      ((p.evaluator steps).exec (withLabel label s) st).Agrees (SameReports otherReports)
        ((p.evaluator steps).execAll (place hooks id (withLabel label s) n).1.stmts st) := by
  have hloop := p.has_tends.exec (withLabel label s)
  have hplaced := Eval.closed_tends.execAll_of_has p.has_tends
    (place hooks id (withLabel label s) n).1.stmts
  rcases hloop st with ⟨N, hN⟩
  rcases hplaced st with ⟨N', hN'⟩
  refine ⟨max N N', fun steps hsteps => ?_⟩
  have hrun : (p.evaluator steps).exec (withLabel label s) st =
      p.meaning.exec (withLabel label s) st := hN steps (by omega)
  have hrun' : (p.evaluator steps).execAll (place hooks id (withLabel label s) n).1.stmts st =
      p.meaning.execAll (place hooks id (withLabel label s) n).1.stmts st := hN' steps (by omega)
  rw [hrun, hrun']
  have hforth := matched_placed hp id hs hnormal hown hclear hst Heap.isAcyclic hacyclic.1
    (fun i => i) (.inr fun _ hgood => hgood)
  have hback := matched_placed hp id hs hnormal hown hclear hst (fun _ => true) rfl
    (fun i => !i) (.inl rfl)
  simp only [Bool.false_eq_true, if_false, if_true, Bool.not_false, Bool.not_true] at hforth hback
  rw [hacyclic.2] at hforth
  rw [p.careful_true] at hback
  have hwithin := Eval.closed_below.execAll_of_has (p.careful_meaning_below Heap.isAcyclic)
    (place hooks id (withLabel label s) n).1.stmts
  exact (hforth.of_within hwithin).agrees_of_matched hback

def countdown : Stmt :=
  .doWhile
    (.block
      [.ifElse (.binary .eq (.name "left") (.int 3)) (.block [.continueTo (some "count")]) none,
       .ifElse (.binary .eq (.name "left") (.int 1)) (.block [.breakTo (some "count")]) none])
    (.binary .gt (.unary .postDec (.name "left")) (.int 0))

theorem moved_test_preserves_loop_countdown :
    NormalHere countdown ∧ HoldsHere ReportsOwn countdown ∧
    (∀ t ∈ countdown.children, t.Every (ClearOf (some "count") (reservedName "iteration" 0))) ∧
    (⟨drainUnit, Settings.standard.runtimeClass⟩ : Program).ExecStaysAcyclic
      (withLabel (some "count") countdown)
      (State.initial.pushFrame (Eval.callFrame drainClass drainMethod [.int 5])) ∧
    ∃ bound, ∀ steps ≥ bound,
      (((⟨drainUnit, Settings.standard.runtimeClass⟩ : Program).evaluator steps).exec
        (withLabel (some "count") countdown)
        (State.initial.pushFrame (Eval.callFrame drainClass drainMethod [.int 5]))).Agrees
          (SameReports otherReports)
        (((⟨drainUnit, Settings.standard.runtimeClass⟩ : Program).evaluator steps).execAll
          (place (Weaver.ofSettings .standard).hooks "Tank.drain"
            (withLabel (some "count") countdown) 0).1.stmts
          (State.initial.pushFrame (Eval.callFrame drainClass drainMethod [.int 5]))) := by
  have hnormal : NormalHere countdown := rfl
  have hown : HoldsHere ReportsOwn countdown := by decide
  have hclear : ∀ t ∈ countdown.children,
      t.Every (ClearOf (some "count") (reservedName "iteration" 0)) := by
    decide
  have hacyclic : (⟨drainUnit, Settings.standard.runtimeClass⟩ : Program).ExecStaysAcyclic
      (withLabel (some "count") countdown)
      (State.initial.pushFrame (Eval.callFrame drainClass drainMethod [.int 5])) :=
    Program.execStaysAcyclic_of_isDone rfl (n := 30) (by decide +kernel)
  exact ⟨hnormal, hown, hclear, hacyclic,
    moved_test_preserves_loop rfl "Tank.drain" rfl hnormal hown hclear ⟨drainClass, rfl, rfl⟩
      hacyclic⟩

def fieldLoop : Stmt :=
  .whileLoop (.binary .eq (.set (.field .self "f") (.int 0)) (.int 1)) (.block [])

/-- Where a class is found in place of the running one, the report of a moved test can read
a field that is not there: the loop ends, and the loop with its reports in place does not. -/
theorem shadowed_test_faults :
    NormalHere fieldLoop ∧ HoldsHere ReportsOwn fieldLoop ∧
    (∀ t ∈ fieldLoop.children, t.Every (ClearOf none (reservedName "iteration" 0))) ∧
    (⟨shadowUnit, Settings.standard.runtimeClass⟩ : Program).ExecStaysAcyclic fieldLoop
      (State.initial.pushFrame (.start "p.A" [])) ∧
    (((⟨shadowUnit, Settings.standard.runtimeClass⟩ : Program).evaluator 20).exec fieldLoop
      (State.initial.pushFrame (.start "p.A" []))).isDone = true ∧
    (((⟨shadowUnit, Settings.standard.runtimeClass⟩ : Program).evaluator 20).execAll
      (place (Weaver.ofSettings .standard).hooks "p.p.A.run" fieldLoop 0).1.stmts
      (State.initial.pushFrame (.start "p.A" []))).isFault = true := by
  refine ⟨rfl, by decide, by decide, Program.execStaysAcyclic_of_isDone rfl (n := 20) ?_, ?_, ?_⟩
  · decide +kernel
  · decide +kernel
  · decide +kernel

end Weave
end TraceWeaving
