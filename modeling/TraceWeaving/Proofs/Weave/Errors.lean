import TraceWeaving.Proofs.Eval.Careful
import TraceWeaving.Proofs.Weave.Balance

/-!
# Reports of errors

A wrapper reports the error that leaves its activation, and only that one, right before
the exit.  Whether errors are reported makes no difference to anything else: weaving
succeeds for the same units, and runs go the same way.
-/

namespace TraceWeaving
namespace Weave

open Code

/-! ## The switch for errors -/

def Weaver.tracingErrors (w : Weaver) (errors : Bool) : Weaver :=
  { w with settings := { w.settings with traceErrors := errors } }

theorem errors_takes (w : Weaver) (s : Session) (inner : List Stmt) (number : Nat) :
    ∃ after, Pass.Takes w s .errors
      (s.holding (wrap w.hooks s.id s.decl.params inner) number) after := by
  unfold Pass.Takes
  by_cases he : (Pass.errors.applies w.settings s) = true
  · simp only [he, if_true]
    show ∃ after, (changeWrapper w.hooks _ (wrap w.hooks s.id s.decl.params inner) >>=
      fun body => _) = Except.ok after
    unfold changeWrapper wrap
    rw [updateWrapper?_wrapper]
    exact ⟨_, rfl⟩
  · simp only [he]
    exact ⟨_, rfl⟩

theorem delegation_takes (w : Weaver) (s : Session) (body : List Stmt) (number : Nat) :
    ∃ after, Pass.Takes w s .delegation (s.holding body number) after := by
  unfold Pass.Takes
  by_cases hc : s.decl.isConstructor = true
  · have hc' : (s.holding body number).decl.isConstructor = true := hc
    simp only [Pass.applies, hc, if_true, Pass.run, hc']
    exact ⟨_, rfl⟩
  · simp only [Pass.applies, hc]
    exact ⟨_, rfl⟩

theorem runPasses_tracingErrors {w : Weaver} {s after : Session} {body : List Stmt}
    (hbody : s.decl.body = some body) (hnumber : s.nextName = 0)
    (h : w.runPasses (w.passesFor s) s = .ok after) (errors : Bool) :
    ∃ after', (w.tracingErrors errors).runPasses ((w.tracingErrors errors).passesFor s) s =
      .ok after' := by
  have hstart := s.eq_holding hbody hnumber
  unfold Weaver.passesFor Pass.canonical at h ⊢
  rcases runPasses_filter_cons h with ⟨s1, h1, h⟩
  rcases runPasses_filter_cons h with ⟨s2, h2, h⟩
  rcases runPasses_filter_cons h with ⟨s3, h3, h⟩
  rcases runPasses_filter_cons h with ⟨s4, h4, h⟩
  rcases runPasses_filter_cons h with ⟨s5, h5, h⟩
  have h1' := h1
  rw [hstart] at h1'
  rcases Pass.Takes.normalize_holding h1' with ⟨-, rfl⟩
  obtain rfl := Pass.Takes.changes_holding h2
  obtain rfl := Pass.Takes.entryExit_holding h3
  obtain rfl := Pass.Takes.returns_holding h4
  obtain rfl := Pass.Takes.timeout_holding h5
  rcases errors_takes (w.tracingErrors errors) s
    (w.deadline s ++ (w.returned s (w.changed s (normalizeAll body) 0).1
      (w.changed s (normalizeAll body) 0).2).1)
    (w.returned s (w.changed s (normalizeAll body) 0).1
      (w.changed s (normalizeAll body) 0).2).2 with ⟨s6, h6⟩
  obtain rfl := Pass.Takes.errors_holding h6
  rcases delegation_takes (w.tracingErrors errors) s _ _ with ⟨s7, h7⟩
  exact ⟨s7, runPasses_of_takes h1 (runPasses_of_takes h2 (runPasses_of_takes h3
    (runPasses_of_takes h4 (runPasses_of_takes h5 (runPasses_of_takes h6
      (runPasses_of_takes h7 rfl))))))⟩

theorem weaveMethod_tracingErrors {w : Weaver} {u : CompilationUnit} {c : ClassDecl}
    {m : MethodDecl} {result : MethodDecl × MethodReport}
    (h : w.weaveMethod (w.session u c m) = .ok result) (errors : Bool) :
    ∃ result', (w.tracingErrors errors).weaveMethod (w.session u c m) = .ok result' := by
  have hsame : (w.tracingErrors errors).decide (w.session u c m) = w.decide (w.session u c m) :=
    rfl
  unfold Weaver.weaveMethod
  rw [hsame]
  rcases weaveMethod_cases h with ⟨reason, hdec, -, -⟩ | ⟨hdec, body, after, hbody, hrun, -, -⟩
  · rw [hdec]
    exact ⟨_, rfl⟩
  · rcases runPasses_tracingErrors hbody rfl hrun errors with ⟨after', hafter⟩
    rw [hdec]
    simp only [hafter]
    exact ⟨_, rfl⟩

theorem weaveUnit_tracingErrors {w : Weaver} {u : CompilationUnit}
    {result : CompilationUnit × UnitReport} (h : w.weaveUnit u = .ok result) (errors : Bool) :
    ∃ u' report, (w.tracingErrors errors).weaveUnit u = .ok (u', report) := by
  have hclass : ∀ c result, w.weaveClass u c = .ok result →
      ∃ result', (w.tracingErrors errors).weaveClass u c = .ok result' := by
    intro c result hc
    rcases ok_of_bind_ok hc with ⟨results, hmap, -⟩
    rcases mapM_ok_of_ok (fun m _ hm => weaveMethod_tracingErrors hm errors) hmap with
      ⟨results', hresults⟩
    unfold Weaver.weaveClass
    rw [show c.methods.mapM (fun m => (w.tracingErrors errors).weaveMethod
      ((w.tracingErrors errors).session u c m)) = .ok results' from hresults]
    exact ⟨_, rfl⟩
  rcases ok_of_bind_ok h with ⟨results, hmap, -⟩
  rcases mapM_ok_of_ok hclass hmap with ⟨results', hresults⟩
  unfold Weaver.weaveUnit
  rw [hresults]
  exact ⟨_, _, rfl⟩

/-! ## Runs with and without reports of errors -/

open Eval (Program Evaluator Action Within Followed SameBut Good closed_followed_heap passOn guarded
  sides)
open Trace (Event Recorder Throwable)

def Weaver.program (w : Weaver) (u : CompilationUnit) : Program :=
  (⟨u, w.hooks.runtimeClass⟩ : Program).withBodies (w.bodies u)

abbrev FollowedButErrors {α : Type} (x : Bool → Action α) : Prop :=
  Followed (Good fun _ => true) (SameBut Event.isFailed) x

theorem closed_butErrors : Eval.ClosedStmt (ι := Bool) FollowedButErrors :=
  closed_followed_heap (SameBut.kept _)

section

variable (errors : Bool → Bool)

theorem followed_passOn {I : Eval.Proviso} {drop : Event → Bool}
    (hdrop : errors false = errors true ∨ ∀ id error, drop (.failed id error) = true) (id : String)
    (t : Throwable) : Followed I (SameBut drop) fun i => passOn (errors i) id t := by
  intro s k hs hk
  have hfailed : ∀ {k k' : Recorder}, errors false ≠ errors true → SameBut drop k k' →
      SameBut drop k (k'.receive id (.failed (.error t))) := by
    intro k k' hne hk
    rcases hdrop with h | h
    · exact absurd h hne
    · exact hk.receive_of_drop (fun _ => rfl) (fun _ => rfl) (h id (.error t))
  simp only [passOn]
  cases hfalse : errors false with
  | false =>
      cases htrue : errors true with
      | false => exact ⟨hs, k, rfl, hk⟩
      | true =>
          exact ⟨hs, k.receive id (.failed (.error t)), rfl,
            hfailed (by rw [hfalse, htrue]; decide) hk⟩
  | true =>
      cases htrue : errors true with
      | false =>
          exact ⟨hs, k, rfl, (hfailed (by rw [hfalse, htrue]; decide) hk.symm).symm⟩
      | true =>
          exact ⟨hs, k.receive id (.failed (.error t)), rfl,
            (SameBut.kept drop).receive hk id (.failed (.error t))⟩

theorem followed_guarding {I : Eval.Proviso} {drop : Event → Bool}
    (hdrop : errors false = errors true ∨ ∀ id error, drop (.failed id error) = true) (id : String)
    {x : Bool → Action Eval.Flow} (hx : Followed I (SameBut drop) x) :
    Followed I (SameBut drop) fun i => Eval.guarding (errors i) id (x i) := by
  have h : Eval.ClosedStmtHere (ι := Bool) (Followed I (SameBut drop)) :=
    Eval.closed_followed (SameBut.kept drop)
  have hexit : Followed I (SameBut drop) fun _ => Action.record id .exiting :=
    .record (f := fun k => k.receive id .exiting) fun _ _ hk =>
      (SameBut.kept drop).receive hk id .exiting
  exact h.guarding (followed_passOn errors hdrop id) hexit hx

variable (w : Weaver) (u : CompilationUnit)

noncomputable def errorSides (n : Nat) : Bool → Evaluator :=
  sides ⟨u, w.hooks.runtimeClass⟩ (fun i => (w.tracingErrors (errors i)).bodies u) (fun _ => true) n

variable {w u errors}

theorem followed_wrapped {n : Nat}
    (hr : Evaluator.Has FollowedButErrors (errorSides errors w u n)) (id : String)
    (params : List Param) (inner : List Stmt) :
    FollowedButErrors fun i =>
      (errorSides errors w u n i).execAll (wrapped w.hooks id params (errors i) inner) := by
  have h := closed_butErrors
  have hfalse : errorSides errors w u n false =
      ((w.tracingErrors (errors false)).program u).evaluator n :=
    Eval.sides_true _ _ n false
  have htrue : errorSides errors w u n true =
      ((w.tracingErrors (errors true)).program u).meaning :=
    Eval.sides_true _ _ n true
  have hbounded : Within
      ((errorSides errors w u n false).execAll (wrapped w.hooks id params (errors false) inner))
      ((errorSides errors w u n false).exec (w.hooks.entering id params) >>=
        Eval.ifNormal (guarded (errorSides errors w u n false) (errors false) id inner)) := by
    rw [hfalse]
    exact Eval.execAll_wrapped_within (p := (w.tracingErrors (errors false)).program u) rfl
      (Eval.approximates_evaluator _ n) params (errors false) id inner
  have hunbounded :
      (errorSides errors w u n true).execAll (wrapped w.hooks id params (errors true) inner) =
        (errorSides errors w u n true).exec (w.hooks.entering id params) >>=
          Eval.ifNormal (guarded (errorSides errors w u n true) (errors true) id inner) := by
    rw [htrue]
    exact (Eval.hosts_meaning ((w.tracingErrors (errors true)).program u)).execAll_wrapped rfl
      params (errors true) id inner
  refine Followed.of_within hbounded ?_
  have hboth : FollowedButErrors fun i =>
      (errorSides errors w u n i).exec (w.hooks.entering id params) >>=
        Eval.ifNormal (guarded (errorSides errors w u n i) (errors i) id inner) := by
    refine h.bind (hr.exec _) fun flow => ?_
    cases flow with
    | normal =>
        exact followed_guarding errors (.inr fun _ _ => rfl) id (h.execBlock fun s _ => hr.exec s)
    | returned _ | broke _ | continued _ => exact h.pure _
  intro s k hs hk
  have hboth := hboth s k hs hk
  simp only [if_true]
  rw [hunbounded]
  exact hboth

/-- The bodies of a method on both sides are the same, or wrappers around the same code. -/
theorem followed_runMethod {n : Nat}
    (hr : Evaluator.Has FollowedButErrors (errorSides errors w u n)) (c : ClassDecl)
    (m : MethodDecl) (args : List Eval.Value) :
    FollowedButErrors fun i => Eval.runMethod (errorSides errors w u n i) c
      { m with body := (w.tracingErrors (errors i)).bodies u c m } args := by
  have h := closed_butErrors
  have huse : FollowedButErrors fun i => Eval.useClass (errorSides errors w u n i) c :=
    h.useClass fun _ _ e _ => hr.eval e
  cases hdec : w.decide (w.session u c m) with
  | skip reason =>
      have hbodies : ∀ e, (w.tracingErrors e).bodies u c m = m.body := fun e => by
        unfold Weaver.bodies
        rw [show (w.tracingErrors e).decide ((w.tracingErrors e).session u c m) = _ from hdec]
      simp only [hbodies]
      exact h.runMethod huse (fun body _ frame => h.inFrame frame (h.execAll fun s _ => hr.exec s))
        args
  | weave =>
      obtain ⟨body, hbody⟩ : ∃ body, m.body = some body := Weaver.body_of_decide hdec
      have hbodies : ∀ e, (w.tracingErrors e).bodies u c m =
          some ((w.front (w.session u c m) body).toList.map .expr ++
            wrapped w.hooks (w.session u c m).id m.params e (w.rest (w.session u c m) body)) :=
        fun e => by
          unfold Weaver.bodies
          rw [show (w.tracingErrors e).decide ((w.tracingErrors e).session u c m) = _ from hdec,
            hbody]
          exact congrArg some ((w.tracingErrors e).bodyOf_eq _ body)
      simp only [hbodies]
      refine h.runBody huse (fun frame => h.inFrame frame ?_) args
      have hwrapped := followed_wrapped hr (w.session u c m).id m.params
        (w.rest (w.session u c m) body)
      cases w.front (w.session u c m) body with
      | none => exact hwrapped
      | some e =>
          simp only [Option.toList_some, List.map_cons, List.map_nil, List.cons_append,
            List.nil_append, Evaluator.execAll_cons]
          refine h.bind (hr.exec _) fun flow => ?_
          cases flow with
          | normal => exact hwrapped
          | returned _ | broke _ | continued _ => exact h.pure _

theorem call_thrown_tracingErrors {cls method : String} {args : List Eval.Value}
    {s s' : Eval.State} {t : Throwable} {n : Nat} (errors' : Bool)
    (h : ((w.tracingErrors errors').program u).call n cls method args s = .thrown t s')
    (errors : Bool) :
    ∃ m s'', ((w.tracingErrors errors).program u).call m cls method args s = .thrown t s'' := by
  let side : Bool → Bool := fun i => if i then errors else errors'
  have hfollowed := Eval.followed_outcomeWhile (SameBut.kept _) ⟨u, w.hooks.runtimeClass⟩
    (fun i => (w.tracingErrors (side i)).bodies u) (fun _ => true)
    (fun n hr c _ m _ args _ => followed_runMethod hr c m args) cls method args
  have hmatched := hfollowed s s.recorder rfl (.refl _)
  simp only [Program.outcomeWhile_true] at hmatched
  change Eval.Outcome.Matched _ _
    (((w.tracingErrors errors').program u).outcomeOf cls method args s)
    (((w.tracingErrors errors).program u).outcomeOf cls method args s) at hmatched
  have hends : ((w.tracingErrors errors').program u).outcomeOf cls method args s = .thrown t s' := by
    rcases Program.call_below ((w.tracingErrors errors').program u) n cls method args s with
      hcut | hsame
    · exact absurd (h.symm.trans hcut) (by simp)
    · exact hsame.symm.trans h
  rw [hends] at hmatched
  rcases hmatched with ⟨-, k, ho, -⟩
  rcases Program.tends_call ((w.tracingErrors errors).program u) cls method args s with ⟨N, hN⟩
  exact ⟨N, s'.recording k, (hN N (Nat.le_refl N)).trans ho⟩

end

/-! ## Errors of activations -/

theorem bodies_of_isWoven {w : Weaver} {u : CompilationUnit} {c : ClassDecl} {m d : MethodDecl}
    {report : MethodReport} (h : w.weaveMethod (w.session u c m) = .ok (d, report))
    (hwoven : report.isWoven = true) :
    ∃ body, m.body = some body ∧ d = { m with body := some (w.bodyOf (w.session u c m) body) } := by
  rcases weaveMethod_woven h hwoven with ⟨-, body, after, hbody, hrun, rfl⟩
  exact ⟨body, hbody, (runPasses_passesFor hbody rfl hrun).2⟩

theorem call_not_failed {w : Weaver} {u : CompilationUnit} (hu : u.Avoids w.hooks.runtimeClass)
    (steps : Nat) (cls method : String) (args : List Eval.Value) (s : Eval.State) :
    match ((w.tracingErrors false).program u).call steps cls method args
      { s with recorder := .empty } with
    | .done _ s' | .thrown _ s' | .fault _ s' => ∀ e ∈ s'.recorder.events, e.isFailed = false
    | .exhausted => True := by
  have hemits := Orderly.emits_call (orderly_bodies (w.tracingErrors false) hu) steps cls method
    args { s with recorder := .empty }
  have hnone : ∀ {v : List Event}, (∀ e ∈ v, e.isFailed = true → false = true) →
      ∀ e ∈ v, e.isFailed = false := fun h e he =>
    Bool.eq_false_iff.mpr fun hf => absurd (h e he hf) (by simp)
  change Eval.Outcome.Adds _ _ _ (((w.tracingErrors false).program u).call steps cls method args
    { s with recorder := .empty }) at hemits
  cases ho : ((w.tracingErrors false).program u).call steps cls method args
      { s with recorder := .empty } with
  | done _ s' | thrown _ s' | fault _ s' =>
      rw [ho] at hemits
      rcases hemits with ⟨v, hs, hv⟩
      have hevents : s'.recorder.events = v := hs
      show ∀ e ∈ s'.recorder.events, e.isFailed = false
      rw [hevents]
      exact hnone hv.nested
  | exhausted => trivial

/-- Errors pass through woven methods unchanged.  With reports of errors, an activation
that got past what stands in front of its entry and throws reports that error once, right
before a missed deadline and the exit, and reports no error of its own otherwise.  Without
them no error is ever reported.  Calls throw the same in both cases. -/
theorem errors_pass_through {w : Weaver} {u u' : CompilationUnit} {report : UnitReport}
    (hu : u.Avoids w.hooks.runtimeClass) (hw : w.weaveUnit u = .ok (u', report)) :
    ∃ on onReport off offReport,
      (w.tracingErrors true).weaveUnit u = .ok (on, onReport) ∧
      (w.tracingErrors false).weaveUnit u = .ok (off, offReport) ∧
      (∀ c ∈ u.classes, ∀ m ∈ c.methods, ∀ c' reports m' methodReport,
        (w.tracingErrors true).weaveClass u c = .ok (c', reports) →
        (w.tracingErrors true).weaveMethod (w.session u c m) = .ok (m', methodReport) →
        methodReport.isWoven = true →
        ∃ front rest,
          m'.body = some (front ++ w.hooks.entering (w.session u c m).id m.params :: rest) ∧
          ∀ steps args s,
            match Eval.runMethod ((⟨on, w.hooks.runtimeClass⟩ : Program).evaluator steps) c'
              { m' with body := some front } args s with
            | .done _ s₀ =>
                (Eval.runMethod ((⟨on, w.hooks.runtimeClass⟩ : Program).evaluator steps) c' m'
                  args s).Activated true (w.session u c m).id s₀.events
            | .thrown t s₀ =>
                Eval.runMethod ((⟨on, w.hooks.runtimeClass⟩ : Program).evaluator steps) c' m'
                  args s = .thrown t s₀
            | .fault f s₀ =>
                Eval.runMethod ((⟨on, w.hooks.runtimeClass⟩ : Program).evaluator steps) c' m'
                  args s = .fault f s₀
            | .exhausted => True) ∧
      (∀ steps cls method args (s : Eval.State),
        match (⟨off, w.hooks.runtimeClass⟩ : Program).call steps cls method args
          { s with recorder := .empty } with
        | .done _ s' | .thrown _ s' | .fault _ s' => ∀ e ∈ s'.recorder.events, e.isFailed = false
        | .exhausted => True) ∧
      ∀ cls method args s t,
        (∃ steps s', (⟨on, w.hooks.runtimeClass⟩ : Program).call steps cls method args s =
          .thrown t s') ↔
        ∃ steps s', (⟨off, w.hooks.runtimeClass⟩ : Program).call steps cls method args s =
          .thrown t s' := by
  rcases weaveUnit_tracingErrors hw true with ⟨on, onReport, hon⟩
  rcases weaveUnit_tracingErrors hw false with ⟨off, offReport, hoff⟩
  have honProgram : (⟨on, w.hooks.runtimeClass⟩ : Program) = (w.tracingErrors true).program u :=
    weaveUnit_ok hon _
  have hoffProgram : (⟨off, w.hooks.runtimeClass⟩ : Program) =
      (w.tracingErrors false).program u :=
    weaveUnit_ok hoff _
  refine ⟨on, onReport, off, offReport, hon, hoff, ?_, ?_, ?_⟩
  · intro c hc m hm c' reports m' methodReport hc' hm' hwoven
    rcases bodies_of_isWoven hm' hwoven with ⟨body, hbody, rfl⟩
    rw [Weaver.bodyOf_eq, honProgram]
    refine ⟨_, _, rfl, fun steps args s => ?_⟩
    have horderly := orderly_bodies (w.tracingErrors true) hu
    exact Eval.runMethod_activated (Eval.approximates_evaluator _ steps)
      (horderly.emitsCalm steps) rfl c' m m.params _
      (calm_rest (w.tracingErrors true) (w.session u c m)
        ((hu c hc).2 m hm body (Option.mem_toList.mpr hbody))) args s
  · intro steps cls method args s
    rw [hoffProgram]
    exact call_not_failed hu steps cls method args s
  · intro cls method args s t
    rw [honProgram, hoffProgram]
    constructor
    · rintro ⟨steps, s', h⟩
      exact call_thrown_tracingErrors true h false
    · rintro ⟨steps, s', h⟩
      exact call_thrown_tracingErrors false h true

def thrownClass? {α : Type} : Eval.Outcome α → Option String
  | .thrown t _ => some t.cls
  | .done _ _ | .fault _ _ | .exhausted => none

theorem exists_of_thrownClass? {α : Type} {o : Eval.Outcome α} {cls : String}
    (h : thrownClass? o = some cls) : ∃ t s, o = .thrown t s ∧ t.cls = cls := by
  cases o with
  | thrown t s => exact ⟨t, s, rfl, Option.some.inj h⟩
  | done _ _ | fault _ _ | exhausted => exact nomatch h

theorem errors_pass_through_counter :
    counterUnit.Avoids (Weaver.ofSettings .standard).hooks.runtimeClass ∧
    ∃ on onReport off offReport,
      ((Weaver.ofSettings .standard).tracingErrors true).weaveUnit counterUnit =
        .ok (on, onReport) ∧
      ((Weaver.ofSettings .standard).tracingErrors false).weaveUnit counterUnit =
        .ok (off, offReport) ∧
      (∃ c ∈ counterUnit.classes, ∃ m ∈ c.methods, ∃ c' reports m' methodReport rest value t,
        ∃ s₀ s' : Eval.State,
        ((Weaver.ofSettings .standard).tracingErrors true).weaveClass counterUnit c =
          .ok (c', reports) ∧
        ((Weaver.ofSettings .standard).tracingErrors true).weaveMethod
          ((Weaver.ofSettings .standard).session counterUnit c m) = .ok (m', methodReport) ∧
        m'.body = some ((Weaver.ofSettings .standard).hooks.entering "demo.Counter.add" m.params ::
          rest) ∧
        Eval.runMethod ((⟨on, (Weaver.ofSettings .standard).hooks.runtimeClass⟩ :
          Program).evaluator 20) c' { m' with body := some [] } [.int (-1)] .initial =
            .done value s₀ ∧
        Eval.runMethod ((⟨on, (Weaver.ofSettings .standard).hooks.runtimeClass⟩ :
          Program).evaluator 20) c' m' [.int (-1)] .initial = .thrown t s' ∧
        t.cls = "IllegalArgumentException" ∧
        ∃ w, s'.events = s₀.events ++ w ∧ Eval.Activation true "demo.Counter.add" (some t) w) ∧
      ∀ s t,
        (∃ steps s', (⟨on, (Weaver.ofSettings .standard).hooks.runtimeClass⟩ : Program).call steps
          "Counter" "add" [.int (-1)] s = .thrown t s') ↔
        ∃ steps s', (⟨off, (Weaver.ofSettings .standard).hooks.runtimeClass⟩ : Program).call steps
          "Counter" "add" [.int (-1)] s = .thrown t s' := by
  have hu : counterUnit.Avoids (Weaver.ofSettings .standard).hooks.runtimeClass := by decide
  have hw : ∃ result, (Weaver.ofSettings .standard).weaveUnit counterUnit = .ok result := ⟨_, rfl⟩
  rcases hw with ⟨⟨u', report⟩, hw⟩
  rcases errors_pass_through hu hw with
    ⟨on, onReport, off, offReport, hon, hoff, hactivated, -, hsame⟩
  rcases exists_woven hon (List.mem_singleton_self _) (List.mem_singleton_self _) rfl with
    ⟨c', reports, m', methodReport, hc', hm', hwoven⟩
  rcases hactivated _ (List.mem_singleton_self _) _ (List.mem_singleton_self _) c' reports m'
    methodReport hc' hm' hwoven with ⟨front, rest, hbody, hends⟩
  have hclass : c' = ClassDecl.withBodies _ _ := weaveClass_ok hc'
  have hmethod := weaveMethod_ok (w := (Weaver.ofSettings .standard).tracingErrors true) hm'
  -- the woven body is the entry and a `try`, so nothing can stand in front of the entry
  have hfront : front = [] := by
    rw [hmethod] at hbody
    have htail := congrArg (Option.map List.tail) hbody
    rcases front with _ | ⟨_, _ | ⟨_, _ | ⟨_, _⟩⟩⟩
    · rfl
    · exact nomatch htail
    · exact nomatch htail
    · exact nomatch htail
  rw [hfront] at hbody hends
  have hdone : (Eval.runMethod ((⟨on, (Weaver.ofSettings .standard).hooks.runtimeClass⟩ :
      Program).evaluator 20) c' { m' with body := some [] } [.int (-1)] .initial).isDone =
        true := by
    rw [hmethod, hclass, weaveUnit_ok hon]
    decide +kernel
  have hthrown : thrownClass? (Eval.runMethod ((⟨on, (Weaver.ofSettings
      .standard).hooks.runtimeClass⟩ : Program).evaluator 20) c' m' [.int (-1)] .initial) =
        some "IllegalArgumentException" := by
    rw [hmethod, hclass, weaveUnit_ok hon]
    decide +kernel
  rcases Eval.Outcome.exists_of_isDone hdone with ⟨value, s₀, hstart⟩
  rcases exists_of_thrownClass? hthrown with ⟨t, s', hend, hcls⟩
  have hevents := hends 20 [.int (-1)] .initial
  rw [hstart, hend] at hevents
  exact ⟨hu, on, onReport, off, offReport, hon, hoff,
    ⟨_, List.mem_singleton_self _, _, List.mem_singleton_self _, c', reports, m', methodReport, rest,
      value, t, s₀, s', hc', hm', hbody, hstart, hend, hcls, hevents⟩,
    fun s t => hsame "Counter" "add" [.int (-1)] s t⟩

end Weave
end TraceWeaving
