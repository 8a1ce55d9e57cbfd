import TraceWeaving.Proofs.Eval.ClosureStmt

/-!
# Evaluation without a bound

The recursion of an evaluator is tied over a bound on the nesting of steps.  A larger
bound does not change an outcome that was reached, so the evaluators have a limit: the
meaning of the rules.  It satisfies the rules themselves, and a loop is the limit of its
first rounds.
-/

namespace TraceWeaving
namespace Eval

open Code
open Trace (Throwable Report)

/-! ## Rules -/

structure Evaluator.Has {ι : Type} (P : ∀ {α : Type}, (ι → Action α) → Prop)
    (r : ι → Evaluator) : Prop where
  eval : ∀ e, P fun i => (r i).eval e
  exec : ∀ s, P fun i => (r i).exec s
  iterate : ∀ label loop, P fun i => (r i).iterate label loop

/-- One step of evaluation.  The last rule is one round of a loop, which is given what
the loop does when it goes on. -/
structure Rules where
  eval : Evaluator → Expr → Action Value
  exec : Evaluator → Stmt → Action Flow
  round : Evaluator → Option String → Loop → Action Flow → Action Flow

namespace Rules

def step (R : Rules) (r : Evaluator) : Evaluator where
  eval := R.eval r
  exec := R.exec r
  iterate label loop := R.round r label loop (r.iterate label loop)

def within (R : Rules) : Nat → Evaluator
  | 0 => ⟨fun _ => .exhausted, fun _ => .exhausted, fun _ _ => .exhausted⟩
  | steps + 1 => R.step (R.within steps)

/-- Rules that put together what they are given: they keep every closed property that
holds of all constant families. -/
structure Regular (R : Rules) : Prop where
  eval : ∀ {ι : Type} {P : ∀ {α : Type}, (ι → Action α) → Prop}, ClosedStmt P →
    (∀ {α : Type} (a : Action α), P fun _ => a) → ∀ {r : ι → Evaluator}, Evaluator.Has P r →
      ∀ e, P fun i => R.eval (r i) e
  exec : ∀ {ι : Type} {P : ∀ {α : Type}, (ι → Action α) → Prop}, ClosedStmt P →
    (∀ {α : Type} (a : Action α), P fun _ => a) → ∀ {r : ι → Evaluator}, Evaluator.Has P r →
      ∀ s, P fun i => R.exec (r i) s
  round : ∀ {ι : Type} {P : ∀ {α : Type}, (ι → Action α) → Prop}, ClosedStmt P →
    (∀ {α : Type} (a : Action α), P fun _ => a) → ∀ {r : ι → Evaluator}, Evaluator.Has P r →
      ∀ label loop {goOn : ι → Action Flow}, P goOn →
        P fun i => R.round (r i) label loop (goOn i)

theorem Regular.step {R : Rules} (hR : R.Regular) {ι : Type}
    {P : ∀ {α : Type}, (ι → Action α) → Prop} (h : ClosedStmt P)
    (hconst : ∀ {α : Type} (a : Action α), P fun _ => a) {r : ι → Evaluator}
    (hr : Evaluator.Has P r) : Evaluator.Has P fun i => R.step (r i) where
  eval := hR.eval h hconst hr
  exec := hR.exec h hconst hr
  iterate label loop := hR.round h hconst hr label loop (hr.iterate label loop)

end Rules

/-! ## A larger bound -/

/-- An action has every outcome that another one has, which may run out of steps. -/
def Within {α : Type} (x y : Action α) : Prop :=
  ∀ s, x s = .exhausted ∨ x s = y s

theorem Within.refl {α : Type} (x : Action α) : Within x x :=
  fun _ => .inr rfl

theorem Within.trans {α : Type} {x y z : Action α} (hxy : Within x y) (hyz : Within y z) :
    Within x z := by
  intro s
  rcases hxy s with h | h
  · exact .inl h
  · rw [h]
    exact hyz s

theorem Within.andThen {α β : Type} {x y : Action α} {f f' : α → Action β}
    {g g' : Throwable → Action β} (hx : Within x y) (hf : ∀ a, Within (f a) (f' a))
    (hg : ∀ t, Within (g t) (g' t)) : Within (x.andThen f g) (y.andThen f' g') := by
  intro s
  show (x s).andThen f g = .exhausted ∨ (x s).andThen f g = (y s).andThen f' g'
  rcases hx s with h | h
  · rw [h]
    exact .inl rfl
  · rw [h]
    cases y s with
    | done a t => exact hf a t
    | thrown t t' => exact hg t t'
    | fault _ _ | exhausted => exact .inr rfl

theorem Within.bind {α β : Type} {x y : Action α} {f f' : α → Action β} (hx : Within x y)
    (hf : ∀ a, Within (f a) (f' a)) : Within (x >>= f) (y >>= f') := by
  rw [Action.bind_eq_andThen, Action.bind_eq_andThen]
  exact hx.andThen hf fun t => .refl _

theorem Within.mapState {α : Type} {o o' : Outcome α} (f : State → State)
    (ho : o = .exhausted ∨ o = o') :
    o.mapState f = .exhausted ∨ o.mapState f = o'.mapState f := by
  rcases ho with rfl | rfl
  · exact .inl rfl
  · exact .inr rfl

def Below {α : Type} (x : Bool → Action α) : Prop :=
  Within (x false) (x true)

theorem Below.const {α : Type} (a : Action α) : Below fun _ => a :=
  .refl a

theorem closed_below : ClosedStmt (ι := Bool) Below where
  look _ := Below.const _
  raise _ := Below.const _
  fail _ := Below.const _
  exhausted := Below.const _
  andThen := Within.andThen
  inScope hx := fun s => Within.mapState _ (hx s.pushScope)
  inFrame frame hx := fun s => Within.mapState _ (hx (s.pushFrame frame))
  declare _ _ := Below.const _
  assign _ _ := Below.const _
  setField _ _ _ := Below.const _
  openNew _ := Below.const _
  invoking _ _ := Below.const _
  advance _ := Below.const _

namespace Rules

theorem Regular.within_below {R : Rules} (hR : R.Regular) (n : Nat) :
    Evaluator.Has (ι := Bool) Below
      fun larger => if larger then R.within (n + 1) else R.within n := by
  induction n with
  | zero => exact ⟨fun _ _ => .inl rfl, fun _ _ => .inl rfl, fun _ _ _ => .inl rfl⟩
  | succ n ih =>
      have hstep := hR.step closed_below Below.const ih
      exact ⟨hstep.eval, hstep.exec, hstep.iterate⟩

end Rules

/-! ## Limits -/

open Classical in
noncomputable def Action.limit {α : Type} (x : Nat → Action α) : Action α :=
  fun s => if h : ∃ n, x n s ≠ .exhausted then x h.choose s else .exhausted

/-- From some bound on, the members of a family have the outcome of the last one. -/
def Tends {α : Type} (x : Option Nat → Action α) : Prop :=
  ∀ s, ∃ N, ∀ n, N ≤ n → x (some n) s = x none s

theorem Tends.const {α : Type} (a : Action α) : Tends fun _ => a :=
  fun _ => ⟨0, fun _ _ => rfl⟩

theorem closed_tends : ClosedStmt (ι := Option Nat) Tends where
  look _ := Tends.const _
  raise _ := Tends.const _
  fail _ := Tends.const _
  exhausted := Tends.const _
  andThen {α β x f g} hx hf hg := by
    intro s
    rcases hx s with ⟨N, hN⟩
    show ∃ N, ∀ n, N ≤ n → (x (some n) s).andThen (f (some n)) (g (some n)) =
      (x none s).andThen (f none) (g none)
    cases ho : x none s with
    | done a t =>
        rcases hf a t with ⟨M, hM⟩
        refine ⟨max N M, fun n hn => ?_⟩
        rw [hN n (by omega), ho]
        exact hM n (by omega)
    | thrown t t' =>
        rcases hg t t' with ⟨M, hM⟩
        refine ⟨max N M, fun n hn => ?_⟩
        rw [hN n (by omega), ho]
        exact hM n (by omega)
    | fault _ _ | exhausted =>
        refine ⟨N, fun n hn => ?_⟩
        rw [hN n hn, ho]
        rfl
  inScope hx := by
    intro s
    rcases hx s.pushScope with ⟨N, hN⟩
    exact ⟨N, fun n hn => congrArg (Outcome.mapState State.popScope) (hN n hn)⟩
  inFrame frame hx := by
    intro s
    rcases hx (s.pushFrame frame) with ⟨N, hN⟩
    exact ⟨N, fun n hn => congrArg (Outcome.mapState State.popFrame) (hN n hn)⟩
  declare _ _ := Tends.const _
  assign _ _ := Tends.const _
  setField _ _ _ := Tends.const _
  openNew _ := Tends.const _
  invoking _ _ := Tends.const _
  advance _ := Tends.const _

def withLimit {α : Type} (x : Nat → α) (y : α) : Option Nat → α
  | some n => x n
  | none => y

theorem outcome_of_le {α : Type} {x : Nat → Action α}
    (hx : ∀ n, Below fun larger => if larger then x (n + 1) else x n) {s : State} {n m : Nat}
    (hnm : n ≤ m) (hn : x n s ≠ .exhausted) : x m s = x n s := by
  induction hnm with
  | refl => rfl
  | step _ ih =>
      rename_i m _
      rcases hx m s with h | h
      · exact absurd (ih.symm.trans h) hn
      · exact h.symm.trans ih

theorem tends_limit {α : Type} {x : Nat → Action α}
    (hx : ∀ n, Below fun larger => if larger then x (n + 1) else x n) :
    Tends (withLimit x (Action.limit x)) := by
  intro s
  by_cases hex : ∃ n, x n s ≠ .exhausted
  · refine ⟨hex.choose, fun n hn => ?_⟩
    show x n s = Action.limit x s
    unfold Action.limit
    rw [dif_pos hex]
    exact outcome_of_le hx hn hex.choose_spec
  · refine ⟨0, fun n _ => ?_⟩
    show x n s = Action.limit x s
    unfold Action.limit
    rw [dif_neg hex]
    exact Classical.not_not.mp fun hne => hex ⟨n, hne⟩

theorem Tends.unique {α : Type} {x : Nat → Action α} {y z : Action α}
    (hy : Tends (withLimit x y)) (hz : Tends (withLimit x z)) : y = z := by
  funext s
  rcases hy s with ⟨N, hN⟩
  rcases hz s with ⟨M, hM⟩
  exact (hN (max N M) (by omega)).symm.trans (hM (max N M) (by omega))

theorem Tends.shift {α : Type} {x : Nat → Action α} {y : Action α}
    (hy : Tends (withLimit x y)) : Tends (withLimit (fun n => x (n + 1)) y) := by
  intro s
  rcases hy s with ⟨N, hN⟩
  exact ⟨N, fun n hn => hN (n + 1) (by omega)⟩

theorem Within.antisymm {α : Type} {x y : Action α} (hxy : Within x y) (hyx : Within y x) :
    x = y := by
  funext s
  rcases hxy s with h | h
  · rcases hyx s with h' | h'
    · exact h.trans h'.symm
    · exact h'.symm
  · exact h

theorem Within.limit {α : Type} {x : Nat → Action α} {y z : Action α}
    (hz : Tends (withLimit x z)) (h : ∀ n, Within (x n) y) : Within z y := by
  intro s
  rcases hz s with ⟨N, hN⟩
  have hlimit : x N s = z s := hN N (Nat.le_refl N)
  rw [← hlimit]
  exact h N s

/-- Two limits are reached with one bound, in whatever states they start. -/
theorem exists_limits {α : Type} {x : Nat → Bool → Action α} {y : Bool → Action α}
    (hy : ∀ i, Tends (withLimit (fun n => x n i) (y i))) (s s' : State) :
    ∃ n, x n false s = y false s ∧ x n true s' = y true s' := by
  rcases hy false s with ⟨N, hN⟩
  rcases hy true s' with ⟨M, hM⟩
  exact ⟨max N M, hN _ (by omega), hM _ (by omega)⟩

theorem Below.limits {α : Type} {x : Nat → Bool → Action α} {y : Bool → Action α}
    (hx : ∀ n, Below (x n)) (hy : ∀ i, Tends (withLimit (fun n => x n i) (y i))) : Below y := by
  intro s
  rcases exists_limits hy s s with ⟨n, hfalse, htrue⟩
  have hn := hx n s
  rw [hfalse, htrue] at hn
  exact hn

/-! ## The meaning of rules -/

namespace Rules

noncomputable def meaning (R : Rules) : Evaluator where
  eval e := Action.limit fun n => (R.within n).eval e
  exec s := Action.limit fun n => (R.within n).exec s
  iterate label loop := Action.limit fun n => (R.within n).iterate label loop

variable {R : Rules} (hR : R.Regular)

include hR

theorem Regular.tends_eval (e : Expr) :
    Tends (withLimit (fun n => (R.within n).eval e) (R.meaning.eval e)) :=
  tends_limit fun n s => by
    have h := (hR.within_below n).eval e s
    exact h

theorem Regular.tends_exec (s : Stmt) :
    Tends (withLimit (fun n => (R.within n).exec s) (R.meaning.exec s)) :=
  tends_limit fun n st => by
    have h := (hR.within_below n).exec s st
    exact h

theorem Regular.tends_iterate (label : Option String) (loop : Loop) :
    Tends (withLimit (fun n => (R.within n).iterate label loop)
      (R.meaning.iterate label loop)) :=
  tends_limit fun n s => by
    have h := (hR.within_below n).iterate label loop s
    exact h

theorem Regular.has_tends :
    Evaluator.Has (ι := Option Nat) Tends (withLimit R.within R.meaning) where
  eval e := hR.tends_eval e
  exec s := hR.tends_exec s
  iterate label loop := hR.tends_iterate label loop

theorem Regular.eval_meaning (e : Expr) : R.meaning.eval e = R.eval R.meaning e := by
  have hstep := hR.eval closed_tends Tends.const hR.has_tends e
  exact (hR.tends_eval e).shift.unique fun s => hstep s

theorem Regular.exec_meaning (s : Stmt) : R.meaning.exec s = R.exec R.meaning s := by
  have hstep := hR.exec closed_tends Tends.const hR.has_tends s
  exact (hR.tends_exec s).shift.unique fun st => hstep st

theorem Regular.iterate_meaning (label : Option String) (loop : Loop) :
    R.meaning.iterate label loop =
      R.round R.meaning label loop (R.meaning.iterate label loop) := by
  have hstep := (hR.step closed_tends Tends.const hR.has_tends).iterate label loop
  exact (hR.tends_iterate label loop).shift.unique fun s => hstep s

theorem Regular.step_meaning : R.step R.meaning = R.meaning := by
  have heval : R.eval R.meaning = R.meaning.eval := funext fun e => (hR.eval_meaning e).symm
  have hexec : R.exec R.meaning = R.meaning.exec := funext fun s => (hR.exec_meaning s).symm
  have hiterate : (fun label loop => R.round R.meaning label loop
      (R.meaning.iterate label loop)) = R.meaning.iterate := by
    funext label loop
    exact (hR.iterate_meaning label loop).symm
  unfold Rules.step
  rw [heval, hexec, hiterate]

/-- The meaning of rules is the least of the evaluators that the rules leave unchanged. -/
theorem Regular.meaning_below {F : Evaluator} (hF : R.step F = F) :
    Evaluator.Has (ι := Bool) Below fun larger => if larger then F else R.meaning := by
  have hwithin : ∀ n, Evaluator.Has (ι := Bool) Below
      fun larger => if larger then F else R.within n := by
    intro n
    induction n with
    | zero => exact ⟨fun _ _ => .inl rfl, fun _ _ => .inl rfl, fun _ _ _ => .inl rfl⟩
    | succ n ih =>
        have hstep := hR.step closed_below Below.const ih
        have hsame : (fun larger : Bool => R.step (if larger then F else R.within n)) =
            fun larger : Bool => if larger then F else R.within (n + 1) := by
          funext larger
          cases larger with
          | false => rfl
          | true => exact hF
        rw [hsame] at hstep
        exact hstep
  exact
    { eval := fun e => Within.limit (hR.tends_eval e) fun n => (hwithin n).eval e
      exec := fun s => Within.limit (hR.tends_exec s) fun n => (hwithin n).exec s
      iterate := fun label loop =>
        Within.limit (hR.tends_iterate label loop) fun n => (hwithin n).iterate label loop }

/-- Rules that leave the meanings of each other unchanged have the same meaning. -/
theorem Regular.meaning_eq {R' : Rules} (hR' : R'.Regular) (h : R.step R'.meaning = R'.meaning)
    (h' : R'.step R.meaning = R.meaning) : R.meaning = R'.meaning := by
  have hbelow := hR.meaning_below h
  have habove := hR'.meaning_below h'
  have heval : R.meaning.eval = R'.meaning.eval := funext fun e =>
    Within.antisymm (hbelow.eval e) (habove.eval e)
  have hexec : R.meaning.exec = R'.meaning.exec := funext fun s =>
    Within.antisymm (hbelow.exec s) (habove.exec s)
  have hiterate : R.meaning.iterate = R'.meaning.iterate := funext fun label => funext fun loop =>
    Within.antisymm (hbelow.iterate label loop) (habove.iterate label loop)
  show Evaluator.mk R.meaning.eval R.meaning.exec R.meaning.iterate =
    ⟨R'.meaning.eval, R'.meaning.exec, R'.meaning.iterate⟩
  rw [heval, hexec, hiterate]

end Rules

/-! ## Rounds of a loop -/

namespace Rules

/-- A loop that is cut off after a number of rounds. -/
def rounds (R : Rules) (r : Evaluator) (label : Option String) (loop : Loop) :
    Nat → Action Flow
  | 0 => .exhausted
  | n + 1 => R.round r label loop (R.rounds r label loop n)

variable {R : Rules} (hR : R.Regular)

include hR

theorem Regular.below_meaning (n : Nat) :
    Evaluator.Has (ι := Bool) Below
      fun unbounded => if unbounded then R.meaning else R.within n := by
  -- an outcome within a bound is the one that all larger bounds have
  have hbelow : ∀ {α : Type} {x : Nat → Action α} {y : Action α},
      (∀ n, Below fun larger => if larger then x (n + 1) else x n) →
      Tends (withLimit x y) → Below fun unbounded => if unbounded then y else x n := by
    intro α x y hx hy s
    by_cases hn : x n s = .exhausted
    · exact .inl hn
    · rcases hy s with ⟨N, hN⟩
      have hlarge : x (max N n) s = y s := hN (max N n) (by omega)
      exact .inr ((outcome_of_le hx (by omega) hn).symm.trans hlarge)
  exact
    { eval := fun e => hbelow (fun n s => (hR.within_below n).eval e s) (hR.tends_eval e)
      exec := fun s => hbelow (fun n st => (hR.within_below n).exec s st) (hR.tends_exec s)
      iterate := fun label loop =>
        hbelow (fun n s => (hR.within_below n).iterate label loop s)
          (hR.tends_iterate label loop) }

theorem Regular.within_iterate_below_rounds (label : Option String) (loop : Loop) (n : Nat) :
    Below fun unbounded =>
      if unbounded then R.rounds R.meaning label loop n else (R.within n).iterate label loop := by
  induction n with
  | zero => exact fun _ => .inl rfl
  | succ n ih =>
      exact hR.round closed_below Below.const (hR.below_meaning n) label loop ih

theorem Regular.rounds_below_iterate (label : Option String) (loop : Loop) (n : Nat) :
    Below fun unbounded =>
      if unbounded then R.meaning.iterate label loop else R.rounds R.meaning label loop n := by
  induction n with
  | zero => exact fun _ => .inl rfl
  | succ n ih =>
      have hsame : Evaluator.Has (ι := Bool) Below fun _ => R.meaning :=
        ⟨fun _ => Below.const _, fun _ => Below.const _, fun _ _ => Below.const _⟩
      have hround := hR.round closed_below Below.const hsame label loop ih
      intro s
      have h := hround s
      rw [hR.iterate_meaning label loop]
      exact h

/-- A loop is the limit of its first rounds. -/
theorem Regular.tends_rounds (label : Option String) (loop : Loop) :
    Tends (withLimit (R.rounds R.meaning label loop) (R.meaning.iterate label loop)) := by
  intro s
  rcases hR.tends_iterate label loop s with ⟨N, hN⟩
  refine ⟨N, fun n hn => ?_⟩
  have hwithin : (R.within n).iterate label loop s = R.meaning.iterate label loop s := hN n hn
  rcases hR.within_iterate_below_rounds label loop n s with h | h
  · have hexhausted : R.meaning.iterate label loop s = .exhausted := hwithin.symm.trans h
    rcases hR.rounds_below_iterate label loop n s with h' | h'
    · exact h'.trans hexhausted.symm
    · exact h'
  · exact h.symm.trans hwithin

theorem Regular.iterate_congr {R' : Rules} (hR' : R'.Regular) {label label' : Option String}
    {loop loop' : Loop}
    (h : ∀ goOn, R.round R.meaning label loop goOn = R'.round R'.meaning label' loop' goOn) :
    R.meaning.iterate label loop = R'.meaning.iterate label' loop' := by
  have hrounds : R.rounds R.meaning label loop = R'.rounds R'.meaning label' loop' := by
    funext n
    induction n with
    | zero => rfl
    | succ n ih =>
        show R.round _ _ _ _ = R'.round _ _ _ _
        rw [ih, h]
  have htends := hR.tends_rounds label loop
  rw [hrounds] at htends
  exact htends.unique (hR'.tends_rounds label' loop')

end Rules

/-! ## Programs -/

theorem Closed.runMethod_of_has {ι : Type} {P : ∀ {α : Type}, (ι → Action α) → Prop}
    (h : Closed P) {r : ι → Evaluator} (hr : Evaluator.Has P r) (c : ClassDecl) (m : MethodDecl)
    (args : List Value) : P fun i => runMethod (r i) c m args :=
  h.runMethod (h.useClass fun _ _ e _ => hr.eval e)
    (fun _ _ frame => h.inFrame frame (h.execAll fun s _ => hr.exec s)) args

theorem ClosedStmtHere.execAll_of_has {ι : Type} {P : ∀ {α : Type}, (ι → Action α) → Prop}
    (h : ClosedStmtHere P) {r : ι → Evaluator} (hr : Evaluator.Has P r) (stmts : List Stmt) :
    P fun i => (r i).execAll stmts :=
  h.execAll fun s _ => hr.exec s

theorem Closed.callees {ι : Type} {P : ∀ {α : Type}, (ι → Action α) → Prop} (h : Closed P)
    {r : ι → Evaluator} (hr : Evaluator.Has P r) (p : Program) :
    Callees P p (fun _ => .own) r where
  use _ _ := h.useClass fun _ _ e _ => hr.eval e
  run c _ m _ args _ := h.runMethod_of_has hr c m args

theorem Closed.evalStep_of_has {ι : Type} {P : ∀ {α : Type}, (ι → Action α) → Prop}
    (h : Closed P)
    (hstore : ∀ address index value, P fun _ => Place.write (.element address index) value)
    (hallocate : ∀ items, P fun _ => Action.allocate items)
    (hreceive : ∀ method report, P fun _ => Action.modify fun s =>
      { s with recorder := s.recorder.receive method report })
    {r : ι → Evaluator} (hr : Evaluator.Has P r) (p : Program) (e : Expr) :
    P fun i => Eval.evalStep p (r i) e := by
  have hstep := h.evalStep (h.callees hr p) (h.finish hstore hallocate) (e := e)
    (fun e' _ => hr.eval e')
    fun method _ _ =>
      h.evalHook (fun e' _ => hr.eval e') (fun _ _ e' _ => hr.eval e')
        (fun id names values => hreceive id (.entering names values)) (h.callHook hreceive method)
  simpa only [Program.withBodies_own] using hstep

namespace Program

def rules (p : Program) : Rules where
  eval := evalStep p
  exec := execStep
  round := loopRound

theorem within_rules (p : Program) (n : Nat) : p.rules.within n = p.evaluator n := by
  induction n with
  | zero => rfl
  | succ n ih =>
      show p.rules.step (p.rules.within n) = p.evaluator (n + 1)
      rw [ih]
      have hiterate : (fun label loop => loopRound (p.evaluator n) label loop
          ((p.evaluator n).iterate label loop)) = iterateStep (p.evaluator n) := by
        funext label loop
        exact (iterateStep_eq (p.evaluator n) label loop).symm
      exact congrArg
        (Evaluator.mk (evalStep p (p.evaluator n)) (execStep (p.evaluator n))) hiterate

theorem regular_rules (p : Program) : p.rules.Regular where
  eval h hconst _ hr e :=
    h.evalStep_of_has (fun _ _ _ => hconst _) (fun _ => hconst _) (fun _ _ => hconst _) hr p e
  exec h _ _ hr _ :=
    h.execStep (fun e _ => hr.eval e) (fun t _ => hr.exec t) fun loop _ l => hr.iterate l loop
  round h _ _ hr _ loop _ hg :=
    h.loopRound (fun e _ => hr.eval e) (hr.exec loop.body) hg

noncomputable def meaning (p : Program) : Evaluator :=
  p.rules.meaning

theorem eval_eq (p : Program) (e : Expr) : p.meaning.eval e = evalStep p p.meaning e :=
  p.regular_rules.eval_meaning e

theorem exec_eq (p : Program) (s : Stmt) : p.meaning.exec s = execStep p.meaning s :=
  p.regular_rules.exec_meaning s

theorem step_evaluator (p : Program) (n : Nat) :
    p.rules.step (p.evaluator n) = p.evaluator (n + 1) := by
  rw [← p.within_rules, ← p.within_rules]
  rfl

/-- Rules that differ from those of a program in the evaluation of expressions stand in a
relation to the program when one step of them does. -/
theorem has_of_eval (p : Program) {D : ∀ {α : Type}, Action α → Action α → Prop}
    (h : ClosedStmt (ι := Bool) fun x => D (x false) (x true))
    (hrefl : ∀ {α : Type} (x : Action α), D x x)
    (htrans : ∀ {x y z : Action Value}, D x y → D y z → D x z) {R : Rules}
    (hexec : R.exec = execStep) (hround : R.round = loopRound)
    (heval : ∀ r e, D (R.eval r e) (evalStep p r e)) (n : Nat) :
    Evaluator.Has (ι := Bool) (fun x => D (x false) (x true))
      fun whole => if whole then p.evaluator n else R.within n := by
  induction n with
  | zero => exact ⟨fun _ => hrefl _, fun _ => hrefl _, fun _ _ => hrefl _⟩
  | succ n ih =>
      have hstep := p.regular_rules.step h hrefl ih
      refine ⟨fun e => ?_, fun s => ?_, fun label loop => ?_⟩
      · have hsame : D (evalStep p (R.within n) e) ((p.evaluator (n + 1)).eval e) := by
          rw [← p.step_evaluator n]
          exact hstep.eval e
        exact htrans (heval _ e) hsame
      · show D (R.exec (R.within n) s) ((p.evaluator (n + 1)).exec s)
        rw [hexec, ← p.step_evaluator n]
        exact hstep.exec s
      · show D (R.round (R.within n) label loop ((R.within n).iterate label loop))
          ((p.evaluator (n + 1)).iterate label loop)
        rw [hround, ← p.step_evaluator n]
        exact hstep.iterate label loop

theorem evaluator_below (p : Program) (n : Nat) :
    Evaluator.Has (ι := Bool) Below
      fun unbounded => if unbounded then p.meaning else p.evaluator n := by
  have h := p.regular_rules.below_meaning n
  rw [p.within_rules n] at h
  exact h

theorem has_tends (p : Program) :
    Evaluator.Has (ι := Option Nat) Tends (withLimit p.evaluator p.meaning) := by
  have h := p.regular_rules.has_tends
  rw [funext p.within_rules] at h
  exact h

theorem runMethod_below (p : Program) (c : ClassDecl) (m : MethodDecl) (args : List Value)
    (n : Nat) : Within (runMethod (p.evaluator n) c m args) (runMethod p.meaning c m args) :=
  closed_below.runMethod_of_has (p.evaluator_below n) c m args

theorem tends_runMethod (p : Program) (c : ClassDecl) (m : MethodDecl) (args : List Value) :
    Tends (withLimit (fun n => runMethod (p.evaluator n) c m args)
      (runMethod p.meaning c m args)) := by
  have h := closed_tends.runMethod_of_has p.has_tends c m args
  intro s
  rcases h s with ⟨N, hN⟩
  exact ⟨N, hN⟩

noncomputable def outcomeOf (p : Program) (cls method : String) (args : List Value) :
    Action Value := do
  let c ← p.findClass cls
  invoke p.meaning c method args

theorem call_below (p : Program) (n : Nat) (cls method : String) (args : List Value) :
    Within (p.call n cls method args) (p.outcomeOf cls method args) := by
  have h := closed_below.call (closed_below.callees (p.evaluator_below n) p) cls method args
  simp only [withBodies_own] at h
  exact h

/-- A call comes to its end within some bound, if it comes to an end. -/
theorem tends_call (p : Program) (cls method : String) (args : List Value) :
    Tends (withLimit (fun n => p.call n cls method args) (p.outcomeOf cls method args)) := by
  have h := closed_tends.call (closed_tends.callees p.has_tends p) cls method args
  simp only [withBodies_own] at h
  exact h

end Program

end Eval
end TraceWeaving
