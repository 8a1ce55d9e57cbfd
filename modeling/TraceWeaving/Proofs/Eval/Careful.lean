import TraceWeaving.Proofs.Eval.Nesting
import TraceWeaving.Proofs.Eval.Recording
import TraceWeaving.Proofs.Eval.Scopes

/-!
# Evaluation under a condition on the heap

A careful evaluation checks the heap after each expression that may have changed it, and
goes no further once the heap fails a condition.  It does what evaluation does, up to that
point; a careful evaluation that comes to an end has had a good heap all along.

Two programs that differ in method bodies are compared by careful evaluations, with a
bound on one side and none on the other.
-/

namespace TraceWeaving
namespace Eval

open Code
open Trace (Recorder)

variable {α β : Type}

def Action.checking (ok : Heap → Bool) (x : Action α) : Action α := do
  let a ← x
  let heap ← Action.look fun v => v.heap
  if ok heap then return a else Action.exhausted

theorem checking_true (x : Action α) : x.checking (fun _ => true) = x := by
  have hlook : ∀ a : α, (Action.look (fun v => v.heap) >>= fun _ => (pure a : Action α)) =
      pure a :=
    fun _ => rfl
  unfold Action.checking
  simp only [if_true, hlook, bind_pure]

theorem checking_bind (ok : Heap → Bool) (x : Action α) (f : α → Action β) :
    (x >>= f).checking ok = x >>= fun a => (f a).checking ok := by
  unfold Action.checking
  rw [bind_assoc]

theorem checking_apply (ok : Heap → Bool) {x : Action α} {s s' : State} {a : α}
    (h : x s = .done a s') :
    x.checking ok s = if ok s'.heap then .done a s' else .exhausted := by
  show (x >>= _) s = _
  rw [Action.bind_of_eq_done h]
  show (if ok s'.heap then (pure a : Action α) else Action.exhausted) s' = _
  split <;> rfl

theorem checking_within (ok : Heap → Bool) (x : Action α) : Within (x.checking ok) x := by
  intro s
  cases hx : x s with
  | done a s' =>
      rw [checking_apply ok hx]
      split
      · exact .inr rfl
      · exact .inl rfl
  | thrown _ _ | fault _ _ | exhausted =>
      right
      show Action.bind x _ s = _
      unfold Action.bind
      rw [hx]

theorem ClosedHere.checking {ι : Type} {P : ∀ {α : Type}, (ι → Action α) → Prop}
    (h : ClosedHere P) (ok : Heap → Bool) {x : ι → Action α} (hx : P x) :
    P fun i => (x i).checking ok := by
  refine h.bind hx fun a => h.lookThen (g := fun v => v.heap)
    (f := fun _ heap => if ok heap then Pure.pure a else Action.exhausted) fun v => ?_
  cases ok v.heap with
  | true => exact h.pure a
  | false => exact h.exhausted

namespace Program

/-- The rules of a program with a check of the heap after every change of it. -/
def careful (p : Program) (ok : Heap → Bool) : Rules where
  eval r e := if e.changesHeap then (evalStep p r e).checking ok else evalStep p r e
  exec := execStep
  round := loopRound

variable (p : Program) (ok : Heap → Bool)

theorem careful_true : p.careful (fun _ => true) = p.rules := by
  have heval : (p.careful fun _ => true).eval = evalStep p := by
    funext r e
    show (if e.changesHeap then (evalStep p r e).checking _ else evalStep p r e) = _
    rw [checking_true, ite_self]
  exact congrArg (fun eval => Rules.mk eval execStep loopRound) heval

theorem careful_eval_within (r : Evaluator) (e : Expr) :
    Within ((p.careful ok).eval r e) (evalStep p r e) := by
  show Within (if e.changesHeap then (evalStep p r e).checking ok else evalStep p r e) _
  split
  · exact checking_within ok _
  · exact .refl _

theorem regular_careful : (p.careful ok).Regular where
  eval {ι P} h hconst r hr e := by
    have hstep : P fun i => evalStep p (r i) e :=
      h.evalStep_of_has (fun _ _ _ => hconst _) (fun _ => hconst _) (fun _ _ => hconst _) hr p e
    show P fun i => if e.changesHeap then (evalStep p (r i) e).checking ok else evalStep p (r i) e
    cases e.changesHeap with
    | true => exact h.checking ok hstep
    | false => exact hstep
  exec h hconst _ hr s := p.regular_rules.exec h hconst hr s
  round h hconst _ hr label loop _ hg := p.regular_rules.round h hconst hr label loop hg

/-- A careful evaluation is cut short, or is evaluation. -/
theorem careful_below (n : Nat) :
    Evaluator.Has (ι := Bool) Below
      fun careless => if careless then p.evaluator n else (p.careful ok).within n :=
  p.has_of_eval closed_below Within.refl Within.trans rfl rfl (p.careful_eval_within ok) n

theorem careful_meaning_below :
    Evaluator.Has (ι := Bool) Below
      fun careless => if careless then p.meaning else (p.careful ok).meaning := by
  have hR := p.regular_careful ok
  have h : ∀ n, Evaluator.Has (ι := Bool) Below
      fun careless => if careless then p.meaning else (p.careful ok).within n := by
    intro n
    refine ⟨fun e => ?_, fun s => ?_, fun label loop => ?_⟩
    · exact Within.trans ((p.careful_below ok n).eval e) ((p.evaluator_below n).eval e)
    · exact Within.trans ((p.careful_below ok n).exec s) ((p.evaluator_below n).exec s)
    · exact Within.trans ((p.careful_below ok n).iterate label loop)
        ((p.evaluator_below n).iterate label loop)
  exact
    { eval := fun e => Within.limit (hR.tends_eval e) fun n => (h n).eval e
      exec := fun s => Within.limit (hR.tends_exec s) fun n => (h n).exec s
      iterate := fun label loop =>
        Within.limit (hR.tends_iterate label loop) fun n => (h n).iterate label loop }

theorem has_careful {ι : Type} {P : ∀ {α : Type}, (ι → Action α) → Prop} (h : ClosedStmt P)
    (hstore : ∀ address index value, P fun _ => Place.write (.element address index) value)
    (hallocate : ∀ items, P fun _ => Action.allocate items)
    (hreceive : ∀ method report, P fun _ => Action.modify fun s =>
      { s with recorder := s.recorder.receive method report })
    (hlimit : ∀ {α : Type} {x : Nat → Action α} {y : Action α}, Tends (withLimit x y) →
      (∀ n, P fun _ => x n) → P fun _ => y) :
    Evaluator.Has P fun _ => (p.careful ok).meaning := by
  have hwithin : ∀ n, Evaluator.Has P fun _ => (p.careful ok).within n := by
    intro n
    induction n with
    | zero => exact ⟨fun _ => h.exhausted, fun _ => h.exhausted, fun _ _ => h.exhausted⟩
    | succ n ih =>
        refine ⟨fun e => ?_, fun s => ?_, fun label loop => ?_⟩
        · have hstep : P fun _ => evalStep p ((p.careful ok).within n) e :=
            h.evalStep_of_has hstore hallocate hreceive ih p e
          show P fun _ => if e.changesHeap then (evalStep p ((p.careful ok).within n) e).checking ok
            else evalStep p ((p.careful ok).within n) e
          split
          · exact h.checking ok hstep
          · exact hstep
        · exact h.execStep (fun e _ => ih.eval e) (fun t _ => ih.exec t)
            fun loop _ label => ih.iterate label loop
        · exact h.loopRound (fun e _ => ih.eval e) (ih.exec loop.body) (ih.iterate label loop)
  have hR := p.regular_careful ok
  exact ⟨fun e => hlimit (hR.tends_eval e) fun n => (hwithin n).eval e,
    fun s => hlimit (hR.tends_exec s) fun n => (hwithin n).exec s,
    fun label loop => hlimit (hR.tends_iterate label loop) fun n => (hwithin n).iterate label loop⟩

theorem passes_careful : (p.careful ok).meaning.Passes :=
  (p.regular_careful ok).passes_meaning fun r hr =>
    { eval := fun e => by
        show PassesFrom 0 (if e.changesHeap then (evalStep p r e).checking ok else evalStep p r e)
        split
        · exact (closed_passes 0).checking ok (x := fun _ => evalStep p r e) (hr.evalStep p e)
        · exact hr.evalStep p e
      exec := fun s => hr.execStep s
      iterate := fun label loop => hr.loopRound label loop (hr.iterate label loop) }

/-! ## Calls -/

def callWhile (steps : Nat) (cls method : String) (args : List Value) : Action Value := do
  let c ← p.findClass cls
  invoke ((p.careful ok).within steps) c method args

/-- Calls a method and goes on while the heap is good. -/
noncomputable def outcomeWhile (cls method : String) (args : List Value) : Action Value := do
  let c ← p.findClass cls
  invoke (p.careful ok).meaning c method args

theorem outcomeWhile_true : p.outcomeWhile (fun _ => true) = p.outcomeOf := by
  unfold outcomeWhile
  rw [p.careful_true]
  rfl

theorem tends_careful_runMethod (c : ClassDecl) (m : MethodDecl) (args : List Value) :
    Tends (withLimit (fun n => runMethod ((p.careful ok).within n) c m args)
      (runMethod (p.careful ok).meaning c m args)) := by
  have h := closed_tends.runMethod_of_has (p.regular_careful ok).has_tends c m args
  intro s
  rcases h s with ⟨N, hN⟩
  exact ⟨N, hN⟩

theorem callWhile_within (steps : Nat) (cls method : String) (args : List Value) :
    Within (p.callWhile ok steps cls method args) (p.outcomeWhile ok cls method args) := by
  have hr := (p.regular_careful ok).below_meaning steps
  have h := closed_below.call (closed_below.callees hr p) cls method args
  simp only [withBodies_own] at h
  exact h

theorem outcomeWhile_within (cls method : String) (args : List Value) :
    Within (p.outcomeWhile ok cls method args) (p.outcomeOf cls method args) := by
  have h := closed_below.call (closed_below.callees (p.careful_meaning_below ok) p) cls method args
  simp only [withBodies_own] at h
  exact h

/-- A call during which no array ever contains itself. -/
def StaysAcyclic (cls method : String) (args : List Value) (s : State) : Prop :=
  s.heap.isAcyclic = true ∧
    p.outcomeWhile Heap.isAcyclic cls method args s = p.outcomeOf cls method args s

variable {p} in
theorem staysAcyclic_of_isDone {n : Nat} {cls method : String} {args : List Value} {s : State}
    (hs : s.heap.isAcyclic = true)
    (h : (p.callWhile Heap.isAcyclic n cls method args s).isDone = true) :
    p.StaysAcyclic cls method args s := by
  exact ⟨hs, Within.eq_of_isDone (p.callWhile_within Heap.isAcyclic n cls method args)
    (p.outcomeWhile_within Heap.isAcyclic cls method args) h⟩

end Program

/-! ## Comparing programs -/

section

variable {κ : Recorder → Recorder → Prop} (hκ : Kept κ)
variable {p : Program} {bodies : Bool → Bodies} {ok : Heap → Bool}

abbrev Good (ok : Heap → Bool) : Proviso :=
  fun heap _ => ok heap = true

theorem followed_checked {f : State → State} (hf : ∀ s k, f (s.recording k) = (f s).recording k)
    (hkept : ∀ s, (f s).recorder = s.recorder) (g : State → α)
    (hg : ∀ s k, g (s.recording k) = g s) :
    Followed (Good ok) κ fun _ => Action.checking ok fun s => .done (g s) (f s) := by
  intro s k _ hk
  have hchecked : ∀ s, Action.checking ok (fun s => .done (g s) (f s)) s =
      if ok (f s).heap then .done (g s) (f s) else .exhausted :=
    fun s => checking_apply ok rfl
  show Outcome.Matched _ κ (Action.checking ok _ s) (Action.checking ok _ (s.recording k))
  rw [hchecked, hchecked, hf, hg]
  show Outcome.Matched _ κ (if ok (f s).heap then _ else _)
    (if ok (f s).heap then _ else _)
  split
  · rename_i hok
    exact ⟨hok, k, rfl, by rw [hkept]; exact hk⟩
  · trivial

include hκ

/-- A change of the heap is followed once the heap is checked. -/
theorem finish_followed :
    Finish (ι := Bool) (Followed (Good ok) κ) fun x => Followed (Good ok) κ fun i =>
      (x i).checking ok where
  of hx := (closed_followed hκ).checking ok hx
  bind {α β x f} hx hf := by
    simp only [checking_bind]
    exact (closed_followed hκ).bind hx hf
  store address index value result :=
    followed_checked (f := fun s => { s with heap := s.heap.store address index value })
      (fun _ _ => rfl) (fun _ => rfl) (fun _ => result) fun _ _ => rfl
  allocate items :=
    followed_checked (f := fun s => { s with heap := s.heap.push items })
      (fun _ _ => rfl) (fun _ => rfl) (fun s => Value.array s.heap.size) fun _ _ => rfl

theorem followed_step {r : Bool → Evaluator} (hr : Evaluator.Has (Followed (Good ok) κ) r)
    (hrun : ∀ c ∈ p.unit.classes, ∀ m ∈ c.methods, ∀ args, m.params.length = args.length →
      Followed (Good ok) κ fun i => runMethod (r i) c { m with body := bodies i c m } args) :
    Evaluator.Has (Followed (Good ok) κ)
      fun i => ((p.withBodies (bodies i)).careful ok).step (r i) := by
  have h : ClosedStmt (ι := Bool) (Followed (Good ok) κ) := closed_followed_heap hκ
  have hcall : Callees (Followed (Good ok) κ) p bodies r :=
    ⟨fun _ _ => h.useClass fun _ _ e _ => hr.eval e, hrun⟩
  have hreceive : ∀ id report, Followed (Good ok) κ fun _ => Action.modify fun s =>
      { s with recorder := s.recorder.receive id report } :=
    fun id report => .record (f := fun k => k.receive id report) fun _ _ hk =>
      hκ.receive hk id report
  have hhook : ∀ hook args, Followed (Good ok) κ fun i => evalHook (r i) hook args :=
    fun hook _ => h.evalHook (fun e' _ => hr.eval e') (fun _ _ e' _ => hr.eval e')
      (fun id names values => hreceive id (.entering names values)) (h.callHook hreceive hook)
  refine ⟨fun e => ?_, fun s => ?_, fun label loop => ?_⟩
  · show Followed (Good ok) κ fun i =>
      if e.changesHeap then (evalStep (p.withBodies (bodies i)) (r i) e).checking ok
      else evalStep (p.withBodies (bodies i)) (r i) e
    cases hstill : e.changesHeap with
    | true =>
        exact h.evalStep hcall (finish_followed hκ) (fun e' _ => hr.eval e')
          fun hook args _ => hhook hook args
    | false =>
        exact h.evalStep_of_still hcall hstill (fun e' _ => hr.eval e')
          fun hook args _ => hhook hook args
  · exact h.execStep (fun e _ => hr.eval e) (fun t _ => hr.exec t)
      fun loop _ label => hr.iterate label loop
  · exact h.loopRound (fun e _ => hr.eval e) (hr.exec loop.body) (hr.iterate label loop)

omit hκ

variable (p bodies ok)

/-- One side is bounded, the other one is not. -/
noncomputable def sides (n : Nat) (i : Bool) : Evaluator :=
  if i then ((p.withBodies (bodies true)).careful ok).meaning
  else ((p.withBodies (bodies false)).careful ok).within n

theorem sides_true (n : Nat) (i : Bool) :
    sides p bodies (fun _ => true) n i =
      if i then (p.withBodies (bodies true)).meaning
      else (p.withBodies (bodies false)).evaluator n := by
  unfold sides
  simp only [Program.careful_true, Program.within_rules]
  rfl

include hκ

theorem followed_sides
    (hrun : ∀ n, Evaluator.Has (Followed (Good ok) κ) (sides p bodies ok n) →
      ∀ c ∈ p.unit.classes, ∀ m ∈ c.methods, ∀ args, m.params.length = args.length →
        Followed (Good ok) κ fun i =>
          runMethod (sides p bodies ok n i) c { m with body := bodies i c m } args) (n : Nat) :
    Evaluator.Has (Followed (Good ok) κ) (sides p bodies ok n) := by
  induction n with
  | zero => exact ⟨fun _ _ _ _ _ => trivial, fun _ _ _ _ _ => trivial, fun _ _ _ _ _ _ => trivial⟩
  | succ n ih =>
      have hstep := followed_step hκ ih (hrun n ih)
      have hsides : sides p bodies ok (n + 1) = fun i =>
          ((p.withBodies (bodies i)).careful ok).step (sides p bodies ok n i) := by
        funext i
        cases i with
        | false => rfl
        | true => exact ((p.withBodies (bodies true)).regular_careful ok).step_meaning.symm
      rw [hsides]
      exact hstep

omit bodies ok hκ in
/-- What follows an evaluation within every bound follows it without one. -/
theorem followed_meaning_of_within {I : Proviso} {R : Rules} (hR : R.Regular) {E : Evaluator}
    (h : ∀ n, Evaluator.Has (Followed I κ) fun i => if i then E else R.within n) :
    Evaluator.Has (Followed I κ) fun i => if i then E else R.meaning := by
  refine ⟨fun e s k hs hk => ?_, fun s st k hs hk => ?_, fun label loop s k hs hk => ?_⟩
  · exact Followed.limit (y := E.eval e) (hR.tends_eval e)
      (fun n s k hs hk => (h n).eval e s k hs hk) s k hs hk
  · exact Followed.limit (y := E.exec s) (hR.tends_exec s)
      (fun n st k hs hk => (h n).exec s st k hs hk) st k hs hk
  · exact Followed.limit (y := E.iterate label loop) (hR.tends_iterate label loop)
      (fun n s k hs hk => (h n).iterate label loop s k hs hk) s k hs hk

section

variable (hrun : ∀ n, Evaluator.Has (Followed (Good ok) κ) (sides p bodies ok n) →
  ∀ c ∈ p.unit.classes, ∀ m ∈ c.methods, ∀ args, m.params.length = args.length →
    Followed (Good ok) κ fun i =>
      runMethod (sides p bodies ok n i) c { m with body := bodies i c m } args)

include hrun

theorem followed_meanings :
    Evaluator.Has (Followed (Good ok) κ)
      fun i => ((p.withBodies (bodies i)).careful ok).meaning := by
  have h := followed_meaning_of_within ((p.withBodies (bodies false)).regular_careful ok)
    (E := ((p.withBodies (bodies true)).careful ok).meaning) (followed_sides hκ p bodies ok hrun)
  have hboth : (fun i => ((p.withBodies (bodies i)).careful ok).meaning) = fun i =>
      if i then ((p.withBodies (bodies true)).careful ok).meaning
      else ((p.withBodies (bodies false)).careful ok).meaning := by
    funext i
    cases i <;> rfl
  rw [hboth]
  exact h

theorem followed_runMethods {c : ClassDecl} (hc : c ∈ p.unit.classes) {m : MethodDecl}
    (hm : m ∈ c.methods) {args : List Value} (hargs : m.params.length = args.length) :
    Followed (Good ok) κ fun i => runMethod ((p.withBodies (bodies i)).careful ok).meaning c
      { m with body := bodies i c m } args := by
  have hbounded : ∀ n, Followed (Good ok) κ fun i =>
      if i then runMethod ((p.withBodies (bodies true)).careful ok).meaning c
        { m with body := bodies true c m } args
      else runMethod (((p.withBodies (bodies false)).careful ok).within n) c
        { m with body := bodies false c m } args :=
    fun n s k hs hk => hrun n (followed_sides hκ p bodies ok hrun n) c hc m hm args hargs s k hs hk
  have htends := (p.withBodies (bodies false)).tends_careful_runMethod ok c
    { m with body := bodies false c m } args
  exact fun s k hs hk => Followed.limit htends hbounded s k hs hk

theorem followed_outcomeWhile (cls method : String) (args : List Value) :
    Followed (Good ok) κ fun i => (p.withBodies (bodies i)).outcomeWhile ok cls method args := by
  have h : ClosedStmt (ι := Bool) (Followed (Good ok) κ) := closed_followed_heap hκ
  have hr := followed_meanings hκ p bodies ok hrun
  have hcall : Callees (Followed (Good ok) κ) p bodies
      fun i => ((p.withBodies (bodies i)).careful ok).meaning :=
    ⟨fun _ _ => h.useClass fun _ _ e _ => hr.eval e,
      fun _ hc _ hm _ hargs => followed_runMethods hκ p bodies ok hrun hc hm hargs⟩
  exact h.call hcall cls method args

end

omit bodies in
/-- Evaluation follows itself, whatever the recorder holds. -/
theorem followed_careful :
    Evaluator.Has (Followed (Good ok) κ) fun _ => (p.careful ok).meaning := by
  have h : ClosedStmt (ι := Bool) (Followed (Good ok) κ) := closed_followed_heap hκ
  have hboth := followed_meanings hκ p (fun _ => .own) ok
    fun n hr c _ m _ args _ => h.runMethod_of_has hr c m args
  simp only [Program.withBodies_own] at hboth
  exact hboth

end

end Eval
end TraceWeaving
