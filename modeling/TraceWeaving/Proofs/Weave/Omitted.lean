import TraceWeaving.Proofs.Weave.Balance

/-!
# Reports that are never made

Every event is recorded by a call of a hook.  A program in which some hooks are never called
records no event of their kinds, whatever it does otherwise.
-/

namespace TraceWeaving
namespace Eval

open Code
open Code.Stmt (HoldsHere)
open Trace (Event Report Recorder)

def WithoutHooks (banned : List String) (runtimeClass : String) : Expr → Prop :=
  Expr.Every fun e => ∀ hook args, e = .call (some (.name runtimeClass)) hook args →
    hook ∉ banned

section

variable {banned : List String} {runtimeClass : String}

theorem withoutHooks_of_avoids {e : Expr} (h : e.Avoids runtimeClass) :
    WithoutHooks banned runtimeClass e := by
  intro e' he' hook args hcall
  have havoids := h e' he'
  rw [hcall] at havoids
  exact absurd havoids (by simp [Expr.isCallOn])

theorem withoutHooks_of_leaf {e : Expr} (hcall : e.isCallOn runtimeClass = false)
    (hc : e.children = []) : WithoutHooks banned runtimeClass e :=
  withoutHooks_of_avoids (Expr.every_iff.mpr ⟨hcall, by simp [hc]⟩)

theorem withoutHooks_call {hooks : Hooks} {hook : String} {args : List Expr}
    (hhook : hook ∉ banned) (hargs : ∀ e ∈ args, WithoutHooks banned hooks.runtimeClass e) :
    WithoutHooks banned hooks.runtimeClass (hooks.call hook args) := by
  refine Expr.every_iff.mpr ⟨?_, ?_⟩
  · intro hook' args' heq
    obtain ⟨rfl, -⟩ : hook = hook' ∧ args = args' := by
      simpa [Hooks.call, Expr.callOn] using heq
    exact hhook
  · intro e he
    simp only [Hooks.call, Expr.callOn, Expr.children, Option.toList_some, List.cons_append,
      List.nil_append, List.mem_cons] at he
    rcases he with rfl | he
    · exact withoutHooks_of_leaf rfl rfl
    · exact hargs e he

theorem weavable_withoutHooks (w : Weave.Weaver) (id : String)
    (hchanged : w.settings.traceChanges = true → "valueChanged" ∉ banned)
    (hreturning : w.settings.traceReturns = true → "returning" ∉ banned) :
    Weave.Weavable w id (WithoutHooks banned w.hooks.runtimeClass) where
  not he := by
    refine Expr.every_iff.mpr ⟨?_, ?_⟩
    · exact fun _ _ heq => nomatch heq
    · intro e' he'
      obtain rfl := List.mem_singleton.mp he'
      exact he
  bool _ := withoutHooks_of_leaf rfl rfl
  name _ := withoutHooks_of_leaf rfl rfl
  changed hon path target ht := by
    apply withoutHooks_call (hchanged hon)
    intro e he
    simp only [List.mem_cons, List.not_mem_nil, or_false] at he
    rcases he with rfl | rfl | rfl
    · exact withoutHooks_of_leaf rfl rfl
    · exact withoutHooks_of_leaf rfl rfl
    · exact withoutHooks_of_avoids (Weave.avoids_of_isStablePath _ ht)
  returning hon e he := by
    apply withoutHooks_call (hreturning hon)
    intro e' he'
    simp only [List.mem_cons, List.not_mem_nil, or_false] at he'
    rcases he' with rfl | rfl
    · exact withoutHooks_of_leaf rfl rfl
    · exact he

end

/-! ## Words without some events -/

def Only (keep : Event → Bool) (w : List Event) : Prop :=
  ∀ e ∈ w, keep e = true

theorem language_only (keep : Event → Bool) : Language (Only keep) (Only keep) where
  nil _ he := absurd he List.not_mem_nil
  append hw hv := List.forall_mem_append.mpr ⟨hw, hv⟩
  cut hw := hw
  append_cut hw hv := List.forall_mem_append.mpr ⟨hw, hv⟩

abbrev Records {α : Type} (keep : Event → Bool) (x : Action α) : Prop :=
  Speaks (Only keep) (Only keep) x

theorem closed_records (keep : Event → Bool) :
    ClosedStmt (ι := Unit) fun x => Records keep (x ()) :=
  (language_only keep).closed_speaks

theorem Records.bind {α β : Type} {keep : Event → Bool} {x : Action α} {f : α → Action β}
    (hx : Records keep x) (hf : ∀ a, Records keep (f a)) : Records keep (x >>= f) :=
  (closed_records keep).bind (x := fun _ => x) (f := fun _ => f) hx hf

theorem records_record {keep : Event → Bool} {id : String} {report : Report}
    (h : ∀ (k : Recorder), Only keep (k.eventsOf id report)) :
    Records keep (Action.record id report) := by
  intro s
  exact ⟨s.recorder.eventsOf id report, s.recorder.events_receive id report, h s.recorder⟩

structure Silences (banned : List String) (keep : Event → Bool) : Prop where
  entering : ∀ id params, keep (.entering id params) = true
  callHook : ∀ hook ∉ banned, ∀ values, Records keep (callHook hook values)

structure RecordsOn (banned : List String) (runtimeClass : String) (keep : Event → Bool)
    (r : Evaluator) : Prop where
  eval : ∀ e, WithoutHooks banned runtimeClass e → Records keep (r.eval e)
  exec : ∀ s : Stmt, s.Every (HoldsHere (WithoutHooks banned runtimeClass)) →
    Records keep (r.exec s)
  iterate : ∀ label (loop : Loop), (∀ e ∈ loop.exprs, WithoutHooks banned runtimeClass e) →
    loop.body.Every (HoldsHere (WithoutHooks banned runtimeClass)) →
      Records keep (r.iterate label loop)

structure Program.Without (banned : List String) (p : Program) : Prop where
  fields : ∀ c ∈ p.unit.classes, ∀ f ∈ c.fields, ∀ e ∈ f.init,
    WithoutHooks banned p.runtimeClass e
  methods : ∀ c ∈ p.unit.classes, ∀ m ∈ c.methods, ∀ body ∈ m.body,
    Stmt.EveryIn (HoldsHere (WithoutHooks banned p.runtimeClass)) body

section

variable {banned : List String} {keep : Event → Bool} (hkeep : Silences banned keep)
variable {p : Program} (hp : p.Without banned)

include hp in
theorem RecordsOn.callees {r : Evaluator} (hr : RecordsOn banned p.runtimeClass keep r) :
    Callees (ι := Unit) (fun x => Records keep (x ())) p (fun _ => .own) fun _ => r := by
  have h := closed_records keep
  have huse : ∀ c ∈ p.unit.classes, Records keep (useClass r c) := fun c hc =>
    h.useClass (r := fun _ => r) fun f hf e he => hr.eval e (hp.fields c hc f hf e he)
  constructor
  · exact huse
  · intro c hc m hm args _
    apply h.runMethod (r := fun _ => r) (huse c hc)
    intro body hbody frame
    apply h.inFrame (x := fun _ => r.execAll body) frame
    exact h.execAll (r := fun _ => r) fun s hs => hr.exec s (hp.methods c hc m hm body hbody s hs)

include hkeep in
theorem RecordsOn.evalHook {r : Evaluator} {runtimeClass : String}
    (hr : RecordsOn banned runtimeClass keep r) {hook : String} {args : List Expr}
    (he : WithoutHooks banned runtimeClass (.call (some (.name runtimeClass)) hook args)) :
    Records keep (evalHook r hook args) := by
  have hargs : ∀ e ∈ args, WithoutHooks banned runtimeClass e :=
    fun e hm => he.child (by simp [Expr.children, hm])
  apply (closed_records keep).evalHook (r := fun _ => r)
  · exact fun e hm => hr.eval e (hargs e hm)
  · exact fun e hm e' hm' => hr.eval e' ((hargs e hm).operand hm')
  · intro id names values
    apply records_record
    intro k e hm
    obtain rfl := List.mem_singleton.mp hm
    exact hkeep.entering id _
  · exact fun values => hkeep.callHook hook (he.here hook args rfl) values

include hkeep hp in
theorem recordsOn_evaluator (n : Nat) :
    RecordsOn banned p.runtimeClass keep (p.evaluator n) := by
  have h := closed_records keep
  induction n with
  | zero => exact ⟨fun _ _ _ => trivial, fun _ _ _ => trivial, fun _ _ _ _ _ => trivial⟩
  | succ n ih =>
      constructor
      · intro e he
        have hstep := h.evalStep (ih.callees hp) (language_only keep).finish_speaks (e := e)
          (fun e' hm => ih.eval e' (he.operand hm)) fun hook args hcall => by
            subst hcall
            exact ih.evalHook hkeep he
        simp only [Program.withBodies_own] at hstep
        exact hstep
      · intro s hs
        exact h.execStep (r := fun _ => p.evaluator n) (fun e hm => ih.eval e (hs.exprs e hm))
          (fun t hm => ih.exec t (hs.stmts t hm))
          fun loop hl label => ih.iterate label loop (hs.startedLoop hl).1 (hs.startedLoop hl).2
      · intro label loop he hb
        have hround : Records keep (loopRound (p.evaluator n) label loop
            ((p.evaluator n).iterate label loop)) :=
          h.loopRound (r := fun _ => p.evaluator n)
            (g := fun _ => (p.evaluator n).iterate label loop)
            (fun e hm => ih.eval e (he e hm)) (ih.exec _ hb) (ih.iterate label loop he hb)
        show Records keep (iterateStep (p.evaluator n) label loop)
        rw [iterateStep_eq]
        exact hround

include hkeep hp in
theorem records_call (steps : Nat) (cls method : String) (args : List Value) :
    Records keep (p.call steps cls method args) := by
  have hcall := (closed_records keep).call ((recordsOn_evaluator hkeep hp steps).callees hp) cls
    method args
  simp only [Program.withBodies_own] at hcall
  exact hcall

end

end Eval
end TraceWeaving
