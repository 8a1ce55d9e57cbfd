import TraceWeaving.Proofs.Weave.Activation

/-!
# Orderly programs

A program is orderly when only wrappers report entries, exits and errors.  The words of
its evaluations are then those of activations, whatever the code in between does.
-/

namespace TraceWeaving
namespace Eval

open Code
open Weave (wrapped)
open Trace (Throwable Report Event)

/-- The body of a method: without reports, or a wrapper around code of its activation,
which the call of another constructor may precede. -/
inductive OrderlyBody (hooks : Hooks) (errors : Bool) : List Stmt → Prop where
  | plain {body : List Stmt} :
      (∀ s ∈ body, Calm hooks.runtimeClass none s) → OrderlyBody hooks errors body
  | woven {id : String} {params : List Param} {front : Option Expr} {inner : List Stmt} :
      (∀ e ∈ front, CalmExpr hooks.runtimeClass none e) →
      (∀ s ∈ inner, Calm hooks.runtimeClass (some id) s) →
        OrderlyBody hooks errors
          (front.toList.map .expr ++ wrapped hooks id params errors inner)

structure Orderly (hooks : Hooks) (errors : Bool) (p : Program) : Prop where
  runtimeClass : p.runtimeClass = hooks.runtimeClass
  fields : ∀ c ∈ p.unit.classes, ∀ f ∈ c.fields, ∀ e ∈ f.init,
    CalmExpr hooks.runtimeClass none e
  methods : ∀ c ∈ p.unit.classes, ∀ m ∈ c.methods, ∀ body ∈ m.body,
    OrderlyBody hooks errors body

/-! ## Calm code -/

structure EmitsCalm (runtimeClass : String) (errors : Bool) (r : Evaluator) : Prop where
  eval : ∀ own e, CalmExpr runtimeClass own e → Emits errors own (r.eval e)
  exec : ∀ own s, Calm runtimeClass own s → Emits errors own (r.exec s)
  iterate : ∀ own label loop, (∀ e ∈ loop.exprs, CalmExpr runtimeClass own e) →
    Calm runtimeClass own loop.body → Emits errors own (r.iterate label loop)

theorem EmitsCalm.execAll {runtimeClass : String} {errors : Bool} {r : Evaluator}
    (h : EmitsCalm runtimeClass errors r) {own : Option String} {stmts : List Stmt}
    (hs : ∀ s ∈ stmts, Calm runtimeClass own s) : Emits errors own (r.execAll stmts) :=
  (closed_emits errors own).execAll (r := fun _ => r) fun s hm => h.exec own s (hs s hm)

theorem EmitsCalm.useClass {runtimeClass : String} {errors : Bool} {r : Evaluator}
    (h : EmitsCalm runtimeClass errors r) {c : ClassDecl}
    (hc : ∀ f ∈ c.fields, ∀ e ∈ f.init, CalmExpr runtimeClass none e) :
    Emits errors none (useClass r c) :=
  (closed_emits errors none).useClass (r := fun _ => r) fun f hf e he => h.eval none e (hc f hf e he)

section

variable {hooks : Hooks} {errors : Bool} {p : Program} (hp : Orderly hooks errors p)
variable {r : Evaluator} (hr : Approximates p r)
variable (h : EmitsCalm hooks.runtimeClass errors r)

include hp hr h

/-! ## Runs of methods -/

/-- The outcome of a woven method: something happens before the entry, and then there is
a whole activation unless an error or a fault came first. -/
def Outcome.Ran {α : Type} (errors : Bool) (id : String) (before : List Event) :
    Outcome α → Prop
  | .done _ s => ∃ w v, s.events = before ++ (w ++ v) ∧ Emission errors none w ∧
      Activation errors id none v
  | .thrown t s => ∃ w v, s.events = before ++ (w ++ v) ∧ Emission errors none w ∧
      (v = [] ∨ Activation errors id (some t) v)
  | .fault _ s => ∃ w, s.events = before ++ w ∧ Broken errors none w
  | .exhausted => True

omit hp hr h in
theorem Outcome.Ran.adds {α : Type} {id : String} {before : List Event} {o : Outcome α}
    (ho : o.Ran errors id before) :
    o.Adds before (Emission errors none) (Broken errors none) := by
  cases o with
  | done _ _ =>
      rcases ho with ⟨w, v, hs, hw, hv⟩
      exact ⟨w ++ v, hs, hw.append hv.emission⟩
  | thrown _ _ =>
      rcases ho with ⟨w, v, hs, hw, rfl | hv⟩
      · exact ⟨w ++ [], hs, hw.append .nil⟩
      · exact ⟨w ++ v, hs, hw.append hv.emission⟩
  | fault _ _ => exact ho
  | exhausted => trivial

omit hp hr h in
theorem Outcome.Activated.ran {α : Type} {id : String} {before w : List Event} {o : Outcome α}
    (hw : Emission errors none w) (ho : o.Activated errors id (before ++ w)) :
    o.Ran errors id before := by
  cases o with
  | done _ _ =>
      rcases ho with ⟨v, hs, hv⟩
      exact ⟨w, v, by rw [hs, List.append_assoc], hw, hv⟩
  | thrown _ _ =>
      rcases ho with ⟨v, hs, hv⟩
      exact ⟨w, v, by rw [hs, List.append_assoc], hw, .inr hv⟩
  | fault _ _ =>
      rcases ho with ⟨v, hs, hv⟩
      exact ⟨w ++ v, by rw [hs, List.append_assoc], hv.append hw⟩
  | exhausted => trivial

omit hp hr h in
/-- What is done before an activation comes before its entry. -/
theorem ran_bind {α β : Type} {id : String} {x : Action α} {f : α → Action β}
    (hx : Emits errors none x) (hf : ∀ a s, (f a s).Ran errors id s.events) (s : State) :
    ((x >>= f) s).Ran errors id s.events := by
  have hxs := hx s
  show (Action.bind x f s).Ran errors id s.events
  unfold Action.bind
  cases ho : x s with
  | done a s' =>
      rw [ho] at hxs
      rcases hxs with ⟨w, hs, hw⟩
      have ha := hf a s'
      rw [hs] at ha
      show (f a s').Ran errors id s.events
      cases ho' : f a s' with
      | done _ _ =>
          rw [ho'] at ha
          rcases ha with ⟨v, v', hs', hv, hv'⟩
          exact ⟨w ++ v, v', by rw [hs']; simp only [List.append_assoc], hw.append hv, hv'⟩
      | thrown _ _ =>
          rw [ho'] at ha
          rcases ha with ⟨v, v', hs', hv, hv'⟩
          exact ⟨w ++ v, v', by rw [hs']; simp only [List.append_assoc], hw.append hv, hv'⟩
      | fault _ _ =>
          rw [ho'] at ha
          rcases ha with ⟨v, hs', hv⟩
          exact ⟨w ++ v, by rw [hs']; simp only [List.append_assoc], hv.append hw⟩
      | exhausted => trivial
  | thrown t s' =>
      rw [ho] at hxs
      rcases hxs with ⟨w, hs, hw⟩
      exact ⟨w, [], by rw [hs, List.append_nil], hw, .inl rfl⟩
  | fault e s' =>
      rw [ho] at hxs
      exact hxs
  | exhausted => trivial

omit hp in
theorem wovenBody_ran {id : String} {params : List Param} {front : Option Expr}
    {inner : List Stmt} (hrt : p.runtimeClass = hooks.runtimeClass)
    (hfront : ∀ e ∈ front, CalmExpr hooks.runtimeClass none e)
    (hinner : ∀ s ∈ inner, Calm hooks.runtimeClass (some id) s) (s : State) :
    (r.execAll (front.toList.map .expr ++ wrapped hooks id params errors inner) s).Ran
      errors id s.events := by
  have hwrapped : ∀ s, (r.execAll (wrapped hooks id params errors inner) s).Ran
      errors id s.events := by
    intro s
    have hblock : Emits errors (some id) (r.execBlock inner) :=
      (closed_emits errors (some id)).inScope (x := fun _ => r.execAll inner) (h.execAll hinner)
    have hact := wrapped_outcome hrt hr params hblock s
    refine Outcome.Activated.ran (w := []) .nil ?_
    rw [List.append_nil]
    exact hact
  cases front with
  | none => exact hwrapped s
  | some e =>
      -- a call of another constructor ends normally if it ends with a result
      have hexec : Within (r.execAll (.expr e :: wrapped hooks id params errors inner))
          (r.eval e >>= fun _ => r.execAll (wrapped hooks id params errors inner)) := by
        have hstep : Within (r.exec (.expr e)) (r.eval e >>= fun _ => Pure.pure .normal) :=
          hr.rises (.expr e)
        have hbind := hstep.bind fun flow =>
          Within.refl (ifNormal (r.execAll (wrapped hooks id params errors inner)) flow)
        rw [← Evaluator.execAll_cons, bind_assoc] at hbind
        exact hbind
      have hran := ran_bind (h.eval none e (hfront e rfl)) (fun _ s => hwrapped s) s
      show (r.execAll (.expr e :: wrapped hooks id params errors inner) s).Ran errors id s.events
      rcases hexec s with hx | hx
      · rw [hx]
        trivial
      · rw [hx]
        exact hran

omit hp hr h in
theorem Outcome.Ran.mapState {α : Type} {id : String} {before : List Event} {o : Outcome α}
    {f : State → State} (hf : ∀ s, (f s).events = s.events) (ho : o.Ran errors id before) :
    (o.mapState f).Ran errors id before := by
  cases o with
  | done _ s | thrown _ s =>
      rcases ho with ⟨w, v, hs, hw⟩
      exact ⟨w, v, (hf s).trans hs, hw⟩
  | fault _ s =>
      rcases ho with ⟨w, hs, hw⟩
      exact ⟨w, (hf s).trans hs, hw⟩
  | exhausted => trivial

omit hp hr h in
theorem events_popFrame (s : State) : s.popFrame.events = s.events :=
  congrArg Trace.Recorder.events (recorder_popFrame s)

omit hp hr h in
theorem Outcome.Ran.resultOf {id : String} {x : Action Flow} {s : State}
    (hx : (x s).Ran errors id s.events) : ((x >>= Eval.resultOf) s).Ran errors id s.events := by
  show (Action.bind x Eval.resultOf s).Ran errors id s.events
  unfold Action.bind
  cases ho : x s with
  | done flow s' =>
      rw [ho] at hx
      cases flow with
      | normal | returned _ => exact hx
      | broke _ | continued _ =>
          rcases hx with ⟨w, v, hs, hw, hv⟩
          exact ⟨w ++ v, hs, (hw.append hv.emission).broken⟩
  | thrown t s' | fault e s' | exhausted =>
      rw [ho] at hx
      exact hx

theorem runMethod_ran {c : ClassDecl} (hc : c ∈ p.unit.classes) {m : MethodDecl} {id : String}
    {params : List Param} {front : Option Expr} {inner : List Stmt}
    (hbody : m.body = some (front.toList.map .expr ++ wrapped hooks id params errors inner))
    (hfront : ∀ e ∈ front, CalmExpr hooks.runtimeClass none e)
    (hinner : ∀ s ∈ inner, Calm hooks.runtimeClass (some id) s) (args : List Value) (s : State) :
    (runMethod r c m args s).Ran errors id s.events := by
  have hcheck : Emits errors none (checkStack c m) :=
    (closed_emits errors none).checkStack c m
  have huse : Emits errors none (useClass r c) := h.useClass (hp.fields c hc)
  have hinvoking : Emits errors none (Action.modify fun s =>
      { s with recorder := s.recorder.keepInvoking c.name m.name }) :=
    (closed_emits errors none).invoking c.name m.name
  unfold runMethod
  rw [hbody]
  refine ran_bind hcheck (fun _ => ran_bind huse fun _ => ran_bind hinvoking fun _ s => ?_) s
  refine Outcome.Ran.resultOf ?_
  exact (wovenBody_ran hr h hp.runtimeClass hfront hinner _).mapState events_popFrame

/-! ## Whole programs -/

theorem callees_emits (own : Option String) :
    Callees (ι := Unit) (fun x => Emits errors own (x ())) p (fun _ => .own) fun _ => r where
  use c hc := (h.useClass (hp.fields c hc)).inside own
  run c hc m hm args _ := by
    refine Emits.inside ?_ own
    cases hbody : m.body with
    | none =>
        show Emits errors none (runMethod r c m args)
        unfold runMethod
        rw [hbody]
        exact Emits.fail _
    | some body =>
        cases hp.methods c hc m hm body hbody with
        | plain hplain =>
            refine (closed_emits errors none).runMethod (r := fun _ => r)
              (h.useClass (hp.fields c hc)) (fun body' hb frame => ?_) args
            obtain rfl := Option.some.inj (hbody.symm.trans hb)
            exact (closed_emits errors none).inFrame (x := fun _ => r.execAll body) frame
              (h.execAll hplain)
        | woven hfront hinner =>
            exact fun s => (runMethod_ran hp hr h hc hbody hfront hinner args s).adds

omit hp in
theorem emits_hook {own : Option String} {hook : String} {args : List Expr}
    (he : CalmExpr hooks.runtimeClass own
      (.call (some (.name hooks.runtimeClass)) hook args)) :
    Emits errors own (evalHook r hook args) := by
  rcases he.here hook args rfl with ⟨id, rfl, hhook, rest, rfl⟩
  have hother : hook ≠ "entering" := by
    rintro rfl
    exact absurd hhook (by decide)
  rw [evalHook_of_ne r hother]
  have hrest : Emits errors (some id) (r.evalAll rest) :=
    (closed_emits errors (some id)).evalAll (r := fun _ => r) fun e hm =>
      h.eval (some id) e (he.child (by simp [Expr.children, hm]))
  have hargs : Within (r.evalAll (.text id :: rest))
      (r.evalAll rest >>= fun values => Pure.pure (.str id :: values)) := by
    have hid : Within (r.eval (.text id)) (Pure.pure (.str id)) := by
      rw [← (hosts_meaning p).eval_text id]
      exact hr.below.eval (.text id)
    exact hid.bind fun _ => .refl _
  refine Emits.of_below (hargs.bind fun _ => .refl _) ?_
  rw [bind_assoc]
  exact hrest.bind fun values => emits_innerHook hhook id values

theorem emitsCalm_step :
    EmitsCalm hooks.runtimeClass errors ⟨evalStep p r, execStep r, iterateStep r⟩ where
  eval own e he := by
    have hstep := (closed_emits errors own).evalStep (callees_emits hp hr h own)
      (finish_emits errors own) (e := e)
      (fun e' hm => h.eval own e' (he.operand hm)) fun hook args hcall => by
        subst hcall
        rw [hp.runtimeClass] at he
        exact emits_hook hr h he
    simpa only [Program.withBodies_own] using hstep
  exec own s hs :=
    (closed_emits errors own).execStep (r := fun _ => r) (fun e hm => h.eval own e (hs.exprs e hm))
      (fun t hm => h.exec own t (hs.stmts t hm))
      fun loop hl label => h.iterate own label loop (hs.startedLoop hl).1 (hs.startedLoop hl).2
  iterate own label loop he hb := by
    have hround : Emits errors own (loopRound r label loop (r.iterate label loop)) :=
      (closed_emits errors own).loopRound (r := fun _ => r) (g := fun _ => r.iterate label loop)
      (fun e hm => h.eval own e (he e hm)) (h.exec own _ hb) (h.iterate own label loop he hb)
    show Emits errors own (iterateStep r label loop)
    rw [iterateStep_eq]
    exact hround

end

theorem Orderly.emitsCalm {hooks : Hooks} {errors : Bool} {p : Program}
    (hp : Orderly hooks errors p) (n : Nat) :
    EmitsCalm hooks.runtimeClass errors (p.evaluator n) := by
  induction n with
  | zero => exact ⟨fun _ _ _ _ => trivial, fun _ _ _ _ => trivial, fun _ _ _ _ _ _ => trivial⟩
  | succ n ih => exact emitsCalm_step hp (approximates_evaluator p n) ih

/-! ## From the entry on -/

section

variable {hooks : Hooks} {errors : Bool} {p : Program} {r : Evaluator} (hr : Approximates p r)

include hr

theorem flow_of_front {front : Option Expr} {s s₁ : State} {flow : Flow}
    (h : r.execAll (front.toList.map .expr) s = .done flow s₁) : flow = .normal := by
  cases front with
  | none => exact (Outcome.done.inj h).1.symm
  | some e =>
      have hexec : r.exec (.expr e) s = .done flow s₁ := by
        rw [← h]
        exact congrFun (r.execAll_singleton (.expr e)).symm s
      rcases hr.rises (.expr e) s with hx | hx
      · rw [hexec] at hx
        exact absurd hx (by simp)
      · rcases Action.of_bind_eq_done (hx.symm.trans hexec) with ⟨_, _, _, hpure⟩
        exact (Outcome.done.inj hpure).1.symm

/-- A run of a method goes on with the rest of its body when it gets past the front, and
ends like the front when that does not end with a result. -/
theorem runMethod_front (c : ClassDecl) (m : MethodDecl) (front : Option Expr)
    (rest : List Stmt) (args : List Value) (s : State) :
    match runMethod r c { m with body := some (front.toList.map .expr) } args s with
    | .done _ s₀ => ∃ s₁, s₁.recorder = s₀.recorder ∧
        runMethod r c { m with body := some (front.toList.map .expr ++ rest) } args s =
          ((r.execAll rest s₁).mapState State.popFrame).andThen resultOf Action.raiseValue
    | .thrown t s₀ =>
        runMethod r c { m with body := some (front.toList.map .expr ++ rest) } args s =
          .thrown t s₀
    | .fault f s₀ =>
        runMethod r c { m with body := some (front.toList.map .expr ++ rest) } args s =
          .fault f s₀
    | .exhausted => True := by
  rw [runMethod_eq, runMethod_eq, Evaluator.execAll_append]
  simp only [Action.bind_eq_andThen]
  unfold Action.andThen
  cases prepareCall r c m s with
  | done _ s2 =>
      simp only [Outcome.andThen, Action.inFrame]
      cases ho : r.execAll (front.toList.map .expr) (s2.pushFrame (callFrame c m args)) with
      | done flow s₁ =>
          obtain rfl := flow_of_front hr ho
          exact ⟨s₁, (recorder_popFrame s₁).symm, rfl⟩
      | thrown _ _ | fault _ _ => rfl
      | exhausted => trivial
  | thrown _ _ | fault _ _ => rfl
  | exhausted => trivial

omit hr in
theorem Outcome.Activated.result {id : String} {before : List Event} {o : Outcome Flow}
    (h : o.Activated errors id before) :
    ((o.mapState State.popFrame).andThen resultOf Action.raiseValue).Activated errors id
      before := by
  cases o with
  | done flow s =>
      rcases h with ⟨w, hs, hw⟩
      have hevents : s.popFrame.events = before ++ w := (events_popFrame s).trans hs
      cases flow with
      | normal | returned _ => exact ⟨w, hevents, hw⟩
      | broke _ | continued _ => exact ⟨w, hevents, hw.emission.broken⟩
  | thrown t s =>
      rcases h with ⟨w, hs, hw⟩
      exact ⟨w, (events_popFrame s).trans hs, hw⟩
  | fault e s =>
      rcases h with ⟨w, hs, hw⟩
      exact ⟨w, (events_popFrame s).trans hs, hw⟩
  | exhausted => trivial

/-- A run of a woven method that gets to its entry reports a whole activation; else it
ends like what stands in front of the entry. -/
theorem runMethod_activated (h : EmitsCalm hooks.runtimeClass errors r)
    (hrt : p.runtimeClass = hooks.runtimeClass) (c : ClassDecl) (m : MethodDecl) {id : String}
    (params : List Param) (front : Option Expr) {inner : List Stmt}
    (hinner : ∀ s ∈ inner, Calm hooks.runtimeClass (some id) s) (args : List Value) (s : State) :
    match runMethod r c { m with body := some (front.toList.map .expr) } args s with
    | .done _ s₀ => (runMethod r c { m with body := some (front.toList.map .expr ++
        wrapped hooks id params errors inner) } args s).Activated errors id s₀.events
    | .thrown t s₀ => runMethod r c { m with body := some (front.toList.map .expr ++
        wrapped hooks id params errors inner) } args s = .thrown t s₀
    | .fault f s₀ => runMethod r c { m with body := some (front.toList.map .expr ++
        wrapped hooks id params errors inner) } args s = .fault f s₀
    | .exhausted => True := by
  have hrun := runMethod_front hr c m front (wrapped hooks id params errors inner) args s
  cases ho : runMethod r c { m with body := some (front.toList.map .expr) } args s with
  | done value s₀ =>
      rw [ho] at hrun
      rcases hrun with ⟨s₁, hs, hrun⟩
      have hblock : Emits errors (some id) (r.execBlock inner) :=
        (closed_emits errors (some id)).inScope (x := fun _ => r.execAll inner)
          (h.execAll hinner)
      have hact := wrapped_outcome hrt hr params hblock s₁
      have hevents : s₁.events = s₀.events := congrArg Trace.Recorder.events hs
      rw [hevents] at hact
      show Outcome.Activated errors id s₀.events _
      rw [hrun]
      exact hact.result
  | thrown _ _ | fault _ _ | exhausted =>
      rw [ho] at hrun
      exact hrun

end

end Eval
end TraceWeaving
