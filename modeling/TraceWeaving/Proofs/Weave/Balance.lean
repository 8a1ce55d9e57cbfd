import TraceWeaving.Proofs.Weave.Conditions
import TraceWeaving.Proofs.Weave.Orderly

/-!
# Balance of entries and exits

Code without calls on the runtime class is orderly after weaving, so the events of every
run of it form a well-bracketed word, or the start of one when a fault ends the run.
-/

namespace TraceWeaving
namespace Weave

open Code
open Code.Stmt (HoldsHere)
open Eval (Program Benign CalmExpr Calm Orderly OrderlyBody Emission Broken Emits)
open Trace (Event Bracketed Cut)

/-! ## Woven code is orderly -/

theorem benign_of_not_call {runtimeClass : String} {own : Option String} {e : Expr}
    (h : e.isCallOn runtimeClass = false) : Benign runtimeClass own e := by
  intro hook args he
  subst he
  simp [Expr.isCallOn] at h

theorem calmExpr_of_avoids {runtimeClass : String} {e : Expr} (h : e.Avoids runtimeClass)
    (own : Option String) : CalmExpr runtimeClass own e :=
  fun e' he' => benign_of_not_call (h e' he')

theorem avoids_of_isStablePath (runtimeClass : String) {e : Expr} (h : isStablePath e = true) :
    e.Avoids runtimeClass := by
  fun_induction isStablePath e with
  | case1 ident => exact Expr.every_iff.mpr ⟨rfl, by simp [Expr.children]⟩
  | case2 member =>
      refine Expr.every_iff.mpr ⟨rfl, fun e he => ?_⟩
      obtain rfl := List.mem_singleton.mp he
      exact Expr.every_iff.mpr ⟨rfl, by simp [Expr.children]⟩
  | case3 target member _ ih =>
      refine Expr.every_iff.mpr ⟨rfl, fun e he => ?_⟩
      obtain rfl := List.mem_singleton.mp he
      exact ih h
  | case4 => exact absurd h (by simp)

/-- The expressions of a woven body: reports are those of its activation, and there are
none in calls of other constructors, which may move in front of the entry. -/
def WovenExpr (runtimeClass id : String) (e : Expr) : Prop :=
  CalmExpr runtimeClass (some id) e ∧ (e.isDelegation = true → CalmExpr runtimeClass none e)

theorem wovenExpr_of_avoids {runtimeClass : String} {e : Expr} (h : e.Avoids runtimeClass)
    (id : String) : WovenExpr runtimeClass id e :=
  ⟨calmExpr_of_avoids h _, fun _ => calmExpr_of_avoids h _⟩

theorem wovenExpr_of_leaf {runtimeClass : String} {e : Expr} (id : String)
    (hcall : e.isCallOn runtimeClass = false) (hc : e.children = []) :
    WovenExpr runtimeClass id e :=
  wovenExpr_of_avoids (Expr.every_iff.mpr ⟨hcall, by simp [hc]⟩) id

theorem wovenExpr_call {hooks : Hooks} {id hook : String} {args : List Expr}
    (hhook : hook ∈ Eval.innerHooks)
    (hargs : ∀ e ∈ args, CalmExpr hooks.runtimeClass (some id) e) :
    WovenExpr hooks.runtimeClass id (hooks.call hook (.text id :: args)) := by
  refine ⟨Expr.every_iff.mpr ⟨?_, fun e he => ?_⟩, fun hd => absurd hd (by
    simp [Hooks.call, Expr.callOn, Expr.isDelegation])⟩
  · intro hook' args' he
    obtain ⟨rfl, rfl⟩ : hook = hook' ∧ .text id :: args = args' := by
      simpa [Hooks.call, Expr.callOn] using he
    exact ⟨id, rfl, hhook, args, rfl⟩
  · simp only [Hooks.call, Expr.callOn, Expr.children, Option.toList_some, List.cons_append,
      List.nil_append, List.mem_cons] at he
    rcases he with rfl | rfl | he
    · exact (wovenExpr_of_leaf id rfl rfl).1
    · exact (wovenExpr_of_leaf id rfl rfl).1
    · exact hargs e he

theorem weavable_wovenExpr (w : Weaver) (id : String) :
    Weavable w id (WovenExpr w.hooks.runtimeClass id) where
  not he := by
    refine ⟨Expr.every_iff.mpr ⟨benign_of_not_call rfl, fun e' he' => ?_⟩, fun hd => ?_⟩
    · obtain rfl := List.mem_singleton.mp he'
      exact he.1
    · exact absurd hd (by simp [Expr.isDelegation])
  bool _ := wovenExpr_of_leaf id rfl rfl
  name _ := wovenExpr_of_leaf id rfl rfl
  changed _ path target ht := by
    refine wovenExpr_call (by simp [Eval.innerHooks]) fun e he => ?_
    simp only [List.mem_cons, List.not_mem_nil, or_false] at he
    rcases he with rfl | rfl
    · exact (wovenExpr_of_leaf id rfl rfl).1
    · exact calmExpr_of_avoids (avoids_of_isStablePath _ ht) _
  returning _ e he := by
    refine wovenExpr_call (by simp [Eval.innerHooks]) fun e' he' => ?_
    obtain rfl := List.mem_singleton.mp he'
    exact he.1

theorem wovenExpr_timeout (hooks : Hooks) (id : String) (n : Int64) :
    WovenExpr hooks.runtimeClass id (hooks.call "timeout" [.text id, .long n]) := by
  refine wovenExpr_call (by simp [Eval.innerHooks]) fun e he => ?_
  obtain rfl := List.mem_singleton.mp he
  exact (wovenExpr_of_leaf id rfl rfl).1

section

variable {hooks : Hooks} {q : Expr → Prop}

theorem changed_every {w : Weaver} {s : Session} (hw : Weavable w s.id q)
    {body : List Stmt} (h : Stmt.EveryIn (HoldsHere q) body) (number : Nat) :
    Stmt.EveryIn (HoldsHere q) (w.changed s body number).1 := by
  unfold Weaver.changed
  by_cases hc : w.settings.traceChanges = true
  · simp only [hc, if_true]
    exact reportChanges_every (hw.placeable hc _) (extracted_every (hw.extractable _) h number) _
      (Nat.le_refl _)
  · simp only [hc]
    exact h

theorem returned_every {w : Weaver} {s : Session} (hw : Weavable w s.id q)
    {body : List Stmt} (h : Stmt.EveryIn (HoldsHere q) body) (number : Nat) :
    Stmt.EveryIn (HoldsHere q) (w.returned s body number).1 := by
  unfold Weaver.returned
  by_cases hr : (w.settings.traceReturns && s.decl.returnsValue) = true
  · simp only [hr, if_true]
    exact reportReturns_every hw (Bool.and_eq_true_iff.mp hr).1
      (extracted_every (hw.extractable _) h number)
  · simp only [hr]
    exact h

theorem normalizeAll_holdsHere {body : List Stmt} (h : Stmt.EveryIn (HoldsHere q) body) :
    Stmt.EveryIn (HoldsHere q) (normalizeAll body) :=
  normalizeAll_every (fun _ _ he => absurd he List.not_mem_nil)
    (fun s hs => holdsHere_of_head (head_normalize s) hs) h

theorem reporting_every {w : Weaver} {s : Session} (hw : Weavable w s.id q)
    {body : List Stmt} (h : Stmt.EveryIn (HoldsHere q) body) :
    Stmt.EveryIn (HoldsHere q)
      ((w.changed s (normalizeAll body) >>= w.returned s).run 0).1 :=
  returned_every hw (changed_every hw (normalizeAll_holdsHere h) 0) _

theorem innerBody_every {w : Weaver} {s : Session} (hw : Weavable w s.id q)
    (htimeout : ∀ n : Int64, q (w.hooks.call "timeout" [.text s.id, .long n]))
    {body : List Stmt} (h : Stmt.EveryIn (HoldsHere q) body) :
    Stmt.EveryIn (HoldsHere q) (w.innerBody s body) := by
  unfold Weaver.innerBody
  refine Stmt.everyIn_append.mpr ⟨?_, reporting_every hw h⟩
  intro t ht
  unfold Weaver.deadline at ht
  rcases Option.map_eq_some_iff.mp (Option.mem_toList.mp ht) with ⟨millis, _, rfl⟩
  refine (Stmt.every_leaf rfl).mpr fun e he => ?_
  obtain rfl := List.mem_singleton.mp he
  exact htimeout _

end

theorem calm_of_avoids {runtimeClass : String} {s : Stmt}
    (h : s.Every (HoldsHere (Expr.Avoids runtimeClass))) (own : Option String) :
    Calm runtimeClass own s :=
  h.mono fun _ ht e he => calmExpr_of_avoids (ht e he) own

section

variable (w : Weaver) (s : Session) {body : List Stmt}
variable (h : Stmt.EveryIn (HoldsHere (Expr.Avoids w.hooks.runtimeClass)) body)

include h

theorem innerBody_wovenExpr :
    Stmt.EveryIn (HoldsHere (WovenExpr w.hooks.runtimeClass s.id)) (w.innerBody s body) :=
  innerBody_every (weavable_wovenExpr w s.id) (wovenExpr_timeout w.hooks s.id) fun t ht =>
    (h t ht).mono fun _ hq e he => wovenExpr_of_avoids (hq e he) s.id

theorem calmExpr_front : ∀ e ∈ w.front s body, CalmExpr w.hooks.runtimeClass none e := by
  intro e he
  rcases Weaver.mem_front he with ⟨hmem, hd⟩
  have hhere := (innerBody_wovenExpr w s h _ hmem).here e (List.mem_singleton.mpr rfl)
  exact hhere.2 hd

theorem calm_rest : ∀ t ∈ w.rest s body, Calm w.hooks.runtimeClass (some s.id) t := by
  intro t ht
  exact (innerBody_wovenExpr w s h t (w.rest_subset s body ht)).mono fun _ hq e he => (hq e he).1

theorem orderlyBody_bodyOf :
    OrderlyBody w.hooks w.settings.traceErrors (w.bodyOf s body) := by
  rw [Weaver.bodyOf_eq]
  exact .woven (calmExpr_front w s h) (calm_rest w s h)

end

section

variable {w : Weaver} {u : CompilationUnit} (h : u.Avoids w.hooks.runtimeClass) {c' : ClassDecl}
variable (hc' : c' ∈ u.classes.map fun c => c.withBodies (w.bodies u c))

include h hc'

theorem avoids_of_mem_fields {f : FieldDecl} (hf : f ∈ c'.fields) {e : Expr} (he : e ∈ f.init) :
    e.Avoids w.hooks.runtimeClass := by
  rcases List.mem_map.mp hc' with ⟨c, hc, rfl⟩
  exact (h c hc).1 f hf e (Option.mem_toList.mpr he)

theorem woven_of_mem_methods {m' : MethodDecl} (hm' : m' ∈ c'.methods) {body : List Stmt}
    (hbody : body ∈ m'.body) :
    Stmt.EveryIn (HoldsHere (Expr.Avoids w.hooks.runtimeClass)) body ∨
      ∃ c ∈ u.classes, ∃ m ∈ c.methods, ∃ former,
        w.decide (w.session u c m) = .weave ∧
        Stmt.EveryIn (HoldsHere (Expr.Avoids w.hooks.runtimeClass)) former ∧
        body = w.bodyOf (w.session u c m) former := by
  rcases List.mem_map.mp hc' with ⟨c, hc, rfl⟩
  rcases List.mem_map.mp hm' with ⟨m, hm, rfl⟩
  have havoid : ∀ b ∈ m.body, Stmt.EveryIn (HoldsHere (Expr.Avoids w.hooks.runtimeClass)) b :=
    fun b hb => (h c hc).2 m hm b (Option.mem_toList.mpr hb)
  change w.bodies u c m = some body at hbody
  unfold Weaver.bodies at hbody
  split at hbody
  · exact .inl (havoid body hbody)
  · rename_i hdec
    rcases Option.map_eq_some_iff.mp hbody with ⟨former, hformer, rfl⟩
    exact .inr ⟨c, hc, m, hm, former, hdec, havoid former hformer, rfl⟩

end

/-- A unit without calls on the runtime class is orderly once it is woven. -/
theorem orderly_bodies (w : Weaver) {u : CompilationUnit}
    (h : u.Avoids w.hooks.runtimeClass) :
    Orderly w.hooks w.settings.traceErrors
      ((⟨u, w.hooks.runtimeClass⟩ : Program).withBodies (w.bodies u)) where
  runtimeClass := rfl
  fields c' hc' f hf e he := calmExpr_of_avoids (avoids_of_mem_fields h hc' hf he) none
  methods c' hc' m' hm' body hbody := by
    rcases woven_of_mem_methods h hc' hm' hbody with hplain | ⟨c, -, m, -, former, -, hformer, rfl⟩
    · exact .plain fun s hs => calm_of_avoids (hplain s hs) none
    · exact orderlyBody_bodyOf w _ hformer

/-! ## Runs -/

theorem Orderly.emits_call {hooks : Hooks} {errors : Bool} {p : Program}
    (hp : Orderly hooks errors p) (steps : Nat) (cls method : String) (args : List Eval.Value) :
    Emits errors none (p.call steps cls method args) := by
  have hcall := Eval.callees_emits hp (Eval.approximates_evaluator p steps) (hp.emitsCalm steps)
    none
  have hfind := (Eval.closed_emits errors none).call hcall cls method args
  simp only [Program.withBodies_own] at hfind
  exact hfind

/-- Every call in woven code leaves a well-bracketed trace: each entry is closed by the
exit of the same method, and every other event is about the method of the innermost open
activation.  When a fault ends the call, the trace is the start of such a word. -/
theorem call_trace_bracketed {w : Weaver} {u u' : CompilationUnit} {report : UnitReport}
    (hu : u.Avoids w.hooks.runtimeClass) (hw : w.weaveUnit u = .ok (u', report)) (steps : Nat)
    (cls method : String) (args : List Eval.Value) (s : Eval.State) :
    match (⟨u', w.hooks.runtimeClass⟩ : Program).call steps cls method args
      { s with recorder := .empty } with
    | .done _ s' => Bracketed none s'.recorder.events
    | .thrown _ s' => Bracketed none s'.recorder.events
    | .fault _ s' => ∃ rest, Bracketed none (s'.recorder.events ++ rest)
    | .exhausted => True := by
  have hemits := Orderly.emits_call (orderly_bodies w hu) steps cls method args
    { s with recorder := .empty }
  rw [weaveUnit_ok hw w.hooks.runtimeClass]
  cases ho : ((⟨u, w.hooks.runtimeClass⟩ : Program).withBodies (w.bodies u)).call steps cls method
      args { s with recorder := .empty } with
  | done _ s' | thrown _ s' =>
      rw [ho] at hemits
      rcases hemits with ⟨v, hs, hv⟩
      have hevents : s'.recorder.events = v := hs
      show Bracketed none s'.recorder.events
      rw [hevents]
      exact hv.bracketed
  | fault _ s' =>
      rw [ho] at hemits
      rcases hemits with ⟨v, hs, hv⟩
      have hevents : s'.recorder.events = v := hs
      show Cut none s'.recorder.events
      rw [hevents]
      exact hv.cut
  | exhausted => trivial

/-- A class with a counter; adding a negative amount is an error. -/
def counterUnit : CompilationUnit where
  package := some "demo"
  classes :=
    [(ClassDecl.empty "Counter").withField ⟨"total", "int", true, some (.int 0)⟩
      |>.withMethod (((MethodDecl.procedure "add").withParam "amount" "int").returning "int"
        |>.withBody
          [.ifElse (.binary .lt (.name "amount") (.int 0))
            (.raiseNew "IllegalArgumentException" "amount") none,
           .expr (.assign .add (.name "total") (.name "amount")),
           .retValue (.name "total")])]

theorem call_trace_bracketed_counter :
    counterUnit.Avoids (Weaver.ofSettings .standard).hooks.runtimeClass ∧
    ∃ u' report, (Weaver.ofSettings .standard).weaveUnit counterUnit = .ok (u', report) ∧
      match (⟨u', (Weaver.ofSettings .standard).hooks.runtimeClass⟩ : Program).call 40 "Counter"
        "add" [.int 5] { Eval.State.initial with recorder := .empty } with
      | .done _ s' => Bracketed none s'.recorder.events
      | .thrown _ s' => Bracketed none s'.recorder.events
      | .fault _ s' => ∃ rest, Bracketed none (s'.recorder.events ++ rest)
      | .exhausted => True := by
  have hu : counterUnit.Avoids (Weaver.ofSettings .standard).hooks.runtimeClass := by decide
  have hw : ∃ result, (Weaver.ofSettings .standard).weaveUnit counterUnit = .ok result := ⟨_, rfl⟩
  rcases hw with ⟨⟨u', report⟩, hw⟩
  exact ⟨hu, u', report, hw,
    call_trace_bracketed hu hw 40 "Counter" "add" [.int 5] Eval.State.initial⟩

end Weave
end TraceWeaving
