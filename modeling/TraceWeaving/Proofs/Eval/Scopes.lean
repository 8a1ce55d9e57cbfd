import TraceWeaving.Proofs.Eval.Limit

/-!
# Empty scopes

An empty scope hides nothing.  Code therefore does the same whether or not there is an
empty scope somewhere below the innermost one, and an expression does so even if the
empty scope is the innermost one, since only statements declare variables.
-/

namespace TraceWeaving
namespace Eval

open Code
open Trace (Throwable)

/-! ## Inserting an empty scope -/

namespace Frame

def insertScope (d : Nat) (f : Frame) : Frame :=
  { f with scopes := f.scopes.insertIdx d [] }

theorem findSome?_insertIdx (name : String) (d : Nat) (scopes : List (Bindings Value)) :
    (scopes.insertIdx d []).findSome? (fun scope => scope.get? name) =
      scopes.findSome? fun scope => scope.get? name := by
  induction d generalizing scopes with
  | zero => rfl
  | succ d ih =>
      cases scopes with
      | nil => rfl
      | cons scope rest =>
          rw [List.insertIdx_succ_cons, List.findSome?_cons, List.findSome?_cons, ih]

theorem lookup?_insertScope (f : Frame) (d : Nat) : (f.insertScope d).lookup? = f.lookup? :=
  funext fun name => findSome?_insertIdx name d f.scopes

theorem assignIn?_insertIdx (name : String) (value : Value) (d : Nat)
    (scopes : List (Bindings Value)) :
    assignIn? name value (scopes.insertIdx d []) =
      (assignIn? name value scopes).map fun scopes => scopes.insertIdx d [] := by
  induction d generalizing scopes with
  | zero => cases h : assignIn? name value scopes <;> simp [assignIn?, Bindings.contains,
      Bindings.get?, h]
  | succ d ih =>
      cases scopes with
      | nil => rfl
      | cons scope rest =>
          rw [List.insertIdx_succ_cons]
          unfold assignIn?
          split
          · rfl
          · rw [ih]
            cases assignIn? name value rest <;> rfl

theorem assign?_insertScope (f : Frame) (d : Nat) (name : String) (value : Value) :
    (f.insertScope d).assign? name value =
      (f.assign? name value).map fun f => f.insertScope d := by
  unfold assign? insertScope
  rw [assignIn?_insertIdx]
  cases assignIn? name value f.scopes <;> rfl

theorem length_assignIn? {name : String} {value : Value} {scopes scopes' : List (Bindings Value)}
    (h : assignIn? name value scopes = some scopes') : scopes'.length = scopes.length := by
  induction scopes generalizing scopes' with
  | nil => exact absurd h (by simp [assignIn?])
  | cons scope rest ih =>
      unfold assignIn? at h
      split at h
      · obtain rfl := Option.some.inj h
        rfl
      · rcases Option.map_eq_some_iff.mp h with ⟨rest', hrest, rfl⟩
        rw [List.length_cons, List.length_cons, ih hrest]

end Frame

namespace State

/-- The state with an empty scope more in one of its frames, counted from the innermost
frame and scope. -/
def insertScope : Nat → Nat → State → State
  | 0, d, s => { s with frame := s.frame.insertScope d }
  | j + 1, d, s => { s with callers := s.callers.modify j (Frame.insertScope d) }

def HasScopes : Nat → Nat → State → Prop
  | 0, d, s => d ≤ s.frame.scopes.length
  | j + 1, d, s => ∃ f, s.callers[j]? = some f ∧ d ≤ f.scopes.length

theorem view_insertScope (j d : Nat) (s : State) : (s.insertScope j d).view = s.view := by
  cases j with
  | zero =>
      unfold view
      rw [show (s.insertScope 0 d).frame.lookup? = s.frame.lookup? from
        s.frame.lookup?_insertScope d]
      rfl
  | succ j =>
      unfold view
      rw [show (s.insertScope (j + 1) d).callers.length = s.callers.length from
        List.length_modify _ _ _]
      rfl

theorem pushScope_eq_insertScope (s : State) : s.pushScope = s.insertScope 0 0 :=
  rfl

/-- The position of a scope counted from a new innermost scope. -/
def below : Nat → Nat → Nat
  | 0, d => d + 1
  | _ + 1, d => d

theorem pushScope_insertScope (j d : Nat) (s : State) :
    (s.insertScope j d).pushScope = s.pushScope.insertScope j (below j d) := by
  cases j <;> rfl

theorem HasScopes.pushScope {j d : Nat} {s : State} (h : s.HasScopes j d) :
    s.pushScope.HasScopes j (below j d) := by
  cases j with
  | zero => exact Nat.succ_le_succ h
  | succ j => exact h

theorem popScope_insertScope {j d : Nat} {s : State} (h : s.HasScopes j (below j d)) :
    (s.insertScope j (below j d)).popScope = (s.popScope).insertScope j d := by
  cases j with
  | zero =>
      have hscopes : d + 1 ≤ s.frame.scopes.length := h
      cases hs : s.frame.scopes with
      | nil => exact absurd hscopes (by simp [hs])
      | cons scope rest =>
          simp [State.insertScope, Frame.insertScope, State.popScope, Frame.popScope, below, hs]
  | succ j => rfl

theorem HasScopes.popScope {j d : Nat} {s : State} (h : s.HasScopes j (below j d)) :
    s.popScope.HasScopes j d := by
  cases j with
  | zero =>
      have hscopes : d + 1 ≤ s.frame.scopes.length := h
      show d ≤ s.frame.scopes.tail.length
      rw [List.length_tail]
      omega
  | succ j => exact h

theorem pushFrame_insertScope (j d : Nat) (s : State) (frame : Frame) :
    (s.insertScope j d).pushFrame frame = (s.pushFrame frame).insertScope (j + 1) d := by
  cases j <;> rfl

theorem HasScopes.pushFrame {j d : Nat} {s : State} (h : s.HasScopes j d) (frame : Frame) :
    (s.pushFrame frame).HasScopes (j + 1) d := by
  cases j with
  | zero => exact ⟨s.frame, rfl, h⟩
  | succ j => exact h

theorem popFrame_insertScope {j d : Nat} {s : State} (h : s.HasScopes (j + 1) d) :
    (s.insertScope (j + 1) d).popFrame = s.popFrame.insertScope j d ∧ s.popFrame.HasScopes j d := by
  rcases h with ⟨f, hf, hd⟩
  cases s with
  | mk frame callers fields heap recorder =>
      cases callers with
      | nil => exact absurd hf (by simp)
      | cons caller rest =>
          cases j with
          | zero =>
              obtain rfl := Option.some.inj hf
              exact ⟨rfl, hd⟩
          | succ j => exact ⟨rfl, f, hf, hd⟩

end State

/-! ## Actions that do not see an empty scope -/

def Outcome.Leaves {α : Type} (Q : State → Prop) : Outcome α → Prop
  | done _ s | thrown _ s | fault _ s => Q s
  | exhausted => True

/-- An action does the same with an empty scope more at the given position. -/
def Passes {α : Type} (j d : Nat) (x : Action α) : Prop :=
  ∀ s : State, s.HasScopes j d →
    x (s.insertScope j d) = (x s).mapState (State.insertScope j d) ∧
      (x s).Leaves (State.HasScopes j d)

section

variable {α β : Type} {j d : Nat}

theorem Outcome.mapState_mapState (o : Outcome α) (f g : State → State) :
    (o.mapState f).mapState g = o.mapState fun s => g (f s) := by
  cases o <;> rfl

theorem Outcome.mapState_congr {o : Outcome α} {Q : State → Prop} {f g : State → State}
    (ho : o.Leaves Q) (h : ∀ s, Q s → f s = g s) : o.mapState f = o.mapState g := by
  cases o with
  | done a s => exact congrArg (Outcome.done a) (h s ho)
  | thrown t s => exact congrArg (Outcome.thrown t) (h s ho)
  | fault e s => exact congrArg (Outcome.fault e) (h s ho)
  | exhausted => rfl

theorem Outcome.Leaves.mapState {o : Outcome α} {Q R : State → Prop} {f : State → State}
    (ho : o.Leaves Q) (h : ∀ s, Q s → R (f s)) : (o.mapState f).Leaves R := by
  cases o with
  | done a s | thrown t s | fault e s => exact h s ho
  | exhausted => trivial

theorem Passes.of_done {x : Action α} {f : State → State} {g : State → α}
    (hx : ∀ s, x s = .done (g s) (f s)) (hg : ∀ s, g (s.insertScope j d) = g s)
    (hf : ∀ s, s.HasScopes j d →
      f (s.insertScope j d) = (f s).insertScope j d ∧ (f s).HasScopes j d) : Passes j d x := by
  intro s hs
  rw [hx, hx, hg, (hf s hs).1]
  exact ⟨rfl, (hf s hs).2⟩

theorem Passes.andThen {x : Action α} {f : α → Action β} {g : Throwable → Action β}
    (hx : Passes j d x) (hf : ∀ a, Passes j d (f a)) (hg : ∀ t, Passes j d (g t)) :
    Passes j d (x.andThen f g) := by
  intro s hs
  have hxs := hx s hs
  unfold Action.andThen
  rw [hxs.1]
  cases ho : x s with
  | done a s' =>
      rw [ho] at hxs
      exact hf a s' hxs.2
  | thrown t s' =>
      rw [ho] at hxs
      exact hg t s' hxs.2
  | fault e s' =>
      rw [ho] at hxs
      exact ⟨rfl, hxs.2⟩
  | exhausted => exact ⟨rfl, trivial⟩

theorem Passes.inScope {x : Action α} (hx : Passes j (State.below j d) x) :
    Passes j d (Action.inScope x) := by
  intro s hs
  have hxs := hx s.pushScope hs.pushScope
  unfold Action.inScope
  refine ⟨?_, hxs.2.mapState fun _ h => h.popScope⟩
  rw [State.pushScope_insertScope, hxs.1, Outcome.mapState_mapState, Outcome.mapState_mapState]
  exact Outcome.mapState_congr hxs.2 fun _ h => State.popScope_insertScope h

theorem Passes.inFrame {x : Action α} (frame : Frame) (hx : Passes (j + 1) d x) :
    Passes j d (Action.inFrame frame x) := by
  intro s hs
  have hxs := hx (s.pushFrame frame) (hs.pushFrame frame)
  unfold Action.inFrame
  refine ⟨?_, hxs.2.mapState fun _ h => (State.popFrame_insertScope h).2⟩
  rw [State.pushFrame_insertScope, hxs.1, Outcome.mapState_mapState, Outcome.mapState_mapState]
  exact Outcome.mapState_congr hxs.2 fun _ h => (State.popFrame_insertScope h).1

theorem Passes.declare (hjd : 0 < j + d) (name : String) (value : Value) :
    Passes j d (Action.modify fun s => s.declare name value) := by
  refine .of_done (f := fun s => s.declare name value) (fun _ => rfl) (fun _ => rfl) fun s hs => ?_
  cases j with
  | zero =>
      -- the innermost scope is another one, so the variable goes to the same place
      cases d with
      | zero => exact absurd hjd (by omega)
      | succ d =>
          have hscopes : d + 1 ≤ s.frame.scopes.length := hs
          cases hframe : s.frame.scopes with
          | nil => exact absurd hscopes (by simp [hframe])
          | cons scope rest =>
              rw [hframe] at hscopes
              simp only [State.declare, Frame.declare, State.insertScope, Frame.insertScope,
                hframe, List.insertIdx_succ_cons, State.HasScopes, List.length_cons] at hscopes ⊢
              exact ⟨trivial, hscopes⟩
  | succ j => exact ⟨rfl, hs⟩

theorem Passes.assign (name : String) (value : Value) :
    Passes j d (Place.write (.named name) value) := by
  intro s hs
  rw [place_write_named, place_write_named]
  cases j with
  | zero =>
      rw [show (s.insertScope 0 d).frame.assign? name value = _ from
        s.frame.assign?_insertScope d name value]
      cases h : s.frame.assign? name value with
      | none => exact ⟨rfl, hs⟩
      | some frame =>
          refine ⟨rfl, ?_⟩
          rcases Option.map_eq_some_iff.mp h with ⟨scopes, hscopes, rfl⟩
          show d ≤ scopes.length
          rw [Frame.length_assignIn? hscopes]
          exact hs
  | succ j =>
      rw [show (s.insertScope (j + 1) d).frame = s.frame from rfl]
      cases s.frame.assign? name value with
      | none => exact ⟨rfl, hs⟩
      | some frame => exact ⟨rfl, hs⟩

theorem Passes.modify {f : State → State}
    (hf : ∀ s, ∃ fields heap recorder, f s = ⟨s.frame, s.callers, fields, heap, recorder⟩ ∧
      ∀ frame callers, f ⟨frame, callers, s.fields, s.heap, s.recorder⟩ =
        ⟨frame, callers, fields, heap, recorder⟩) :
    Passes j d (Action.modify f) := by
  refine .of_done (f := f) (fun _ => rfl) (fun _ => rfl) fun s hs => ?_
  rcases hf s with ⟨fields, heap, recorder, hfs, hsame⟩
  cases j with
  | zero => exact ⟨(hsame _ _).trans (by rw [hfs]; rfl), by rw [hfs]; exact hs⟩
  | succ j => exact ⟨(hsame _ _).trans (by rw [hfs]; rfl), by rw [hfs]; exact hs⟩

theorem Passes.openNew (cls : String) : Passes j d (Action.openNew cls) := by
  have hopen : Action.openNew cls = fun s => .done (!s.hasClass cls)
      (if s.hasClass cls then s else s.openClass cls) := by
    funext s
    unfold Action.openNew
    cases s.hasClass cls <;> rfl
  have hsame : ∀ s : State, (s.insertScope j d).hasClass cls = s.hasClass cls := by
    intro s
    cases j <;> rfl
  rw [hopen]
  refine .of_done (fun _ => rfl) (fun s => by rw [hsame]) fun s hs => ?_
  rw [hsame]
  cases s.hasClass cls with
  | true => exact ⟨rfl, hs⟩
  | false => cases j with
    | zero => exact ⟨rfl, hs⟩
    | succ j => exact ⟨rfl, hs⟩

def PassesFrom (lo : Nat) (x : Action α) : Prop :=
  ∀ j d, lo ≤ j + d → Passes j d x

theorem PassesFrom.weaken {x : Action α} (hx : PassesFrom 0 x) (lo : Nat) : PassesFrom lo x :=
  fun j d _ => hx j d (Nat.zero_le _)

theorem closed_passes (lo : Nat) : Closed (ι := Unit) fun x => PassesFrom lo (x ()) where
  look g j d _ := .of_done (f := fun s => s) (fun _ => rfl)
    (fun s => by rw [State.view_insertScope]) fun _ hs => ⟨rfl, hs⟩
  raise _ _ _ _ _ hs := ⟨rfl, hs⟩
  fail _ _ _ _ _ hs := ⟨rfl, hs⟩
  exhausted _ _ _ _ _ := ⟨rfl, trivial⟩
  andThen hx hf hg j d hjd := (hx j d hjd).andThen (fun a => hf a j d hjd) fun t => hg t j d hjd
  inScope hx j d hjd := .inScope (hx j _ (by cases j <;> simp [State.below] <;> omega))
  inFrame frame hx j d hjd := .inFrame frame (hx (j + 1) d (by omega))
  assign name value _ _ _ := .assign name value
  setField _ _ _ _ _ _ := .modify fun _ => ⟨_, _, _, rfl, fun _ _ => rfl⟩
  openNew cls _ _ _ := .openNew cls
  invoking _ _ _ _ _ := .modify fun _ => ⟨_, _, _, rfl, fun _ _ => rfl⟩
  advance _ _ _ _ := .modify fun _ => ⟨_, _, _, rfl, fun _ _ => rfl⟩

theorem PassesFrom.andThen {lo : Nat} {x : Action α} {f : α → Action β} {g : Throwable → Action β}
    (hx : PassesFrom lo x) (hf : ∀ a, PassesFrom lo (f a)) (hg : ∀ t, PassesFrom lo (g t)) :
    PassesFrom lo (x.andThen f g) :=
  (closed_passes lo).andThen (x := fun _ => x) (f := fun _ => f) (g := fun _ => g) hx hf hg

theorem PassesFrom.bind {lo : Nat} {x : Action α} {f : α → Action β} (hx : PassesFrom lo x)
    (hf : ∀ a, PassesFrom lo (f a)) : PassesFrom lo (x >>= f) :=
  (closed_passes lo).bind (x := fun _ => x) (f := fun _ => f) hx hf

theorem closedStmt_passes : ClosedStmt (ι := Unit) fun x => PassesFrom 1 (x ()) where
  toClosed := closed_passes 1
  declare name value _ _ hjd := .declare hjd name value

theorem finish_passes (lo : Nat) :
    Finish (ι := Unit) (fun x => PassesFrom lo (x ())) fun x => PassesFrom lo (x ()) :=
  (closed_passes lo).finish
    (fun _ _ _ _ _ _ => .modify fun _ => ⟨_, _, _, rfl, fun _ _ => rfl⟩)
    (fun items j d _ => .of_done (fun _ => rfl) (fun s => by cases j <;> rfl) fun s hs => by
      cases j with
      | zero => exact ⟨rfl, hs⟩
      | succ j => exact ⟨rfl, hs⟩)

/-- Whatever is declared in a scope or a frame of its own, is not seen outside. -/
theorem PassesFrom.inScope {x : Action α} (hx : PassesFrom 1 x) :
    PassesFrom 0 (Action.inScope x) :=
  fun j d _ => .inScope (hx j _ (by cases j <;> simp [State.below]; omega))

theorem PassesFrom.inFrame {x : Action α} (frame : Frame) (hx : PassesFrom 1 x) :
    PassesFrom 0 (Action.inFrame frame x) :=
  fun j d _ => .inFrame frame (hx (j + 1) d (by omega))

theorem PassesFrom.limit {lo : Nat} {x : Nat → Action α} {y : Action α}
    (hx : ∀ n, PassesFrom lo (x n)) (hy : Tends (withLimit x y)) : PassesFrom lo y := by
  intro j d hjd s hs
  rcases hy s with ⟨N, hN⟩
  rcases hy (s.insertScope j d) with ⟨M, hM⟩
  have hx := hx (max N M) j d hjd s hs
  have h : x (max N M) s = y s := hN _ (by omega)
  have h' : x (max N M) (s.insertScope j d) = y (s.insertScope j d) := hM _ (by omega)
  rw [h, h'] at hx
  exact hx

/-! ## Code -/

structure Evaluator.Passes (r : Evaluator) : Prop where
  eval : ∀ e, PassesFrom 0 (r.eval e)
  exec : ∀ s, PassesFrom 1 (r.exec s)
  iterate : ∀ label loop, PassesFrom 1 (r.iterate label loop)

namespace Evaluator.Passes

variable {r : Evaluator} (h : r.Passes)

include h

theorem execAll (stmts : List Stmt) : PassesFrom 1 (r.execAll stmts) :=
  closedStmt_passes.execAll (r := fun _ => r) fun s _ => h.exec s

theorem execBlock (stmts : List Stmt) : PassesFrom 0 (r.execBlock stmts) :=
  (h.execAll stmts).inScope

theorem callees (p : Program) :
    Callees (ι := Unit) (fun x => PassesFrom 0 (x ())) p (fun _ => .own) fun _ => r where
  use _ _ := (closed_passes 0).useClass (r := fun _ => r) fun _ _ e _ => h.eval e
  run _ _ _ _ args _ :=
    (closed_passes 0).runMethod (r := fun _ => r)
      ((closed_passes 0).useClass (r := fun _ => r) fun _ _ e _ => h.eval e)
      (fun body _ frame => (h.execAll body).inFrame frame) args

theorem evalStep (p : Program) (e : Expr) : PassesFrom 0 (Eval.evalStep p r e) := by
  have hreceive : ∀ method report, PassesFrom 0 (Action.modify fun s =>
      { s with recorder := s.recorder.receive method report }) :=
    fun _ _ _ _ _ => .modify fun _ => ⟨_, _, _, rfl, fun _ _ => rfl⟩
  have hstep := (closed_passes 0).evalStep (h.callees p) (finish_passes 0) (e := e)
    (fun e' _ => h.eval e') fun hook _ _ =>
      (closed_passes 0).evalHook (r := fun _ => r) (fun e' _ => h.eval e')
        (fun _ _ e' _ => h.eval e') (fun id names values => hreceive id (.entering names values))
        ((closed_passes 0).callHook hreceive hook)
  simpa only [Program.withBodies_own] using hstep

theorem execStep (s : Stmt) : PassesFrom 1 (Eval.execStep r s) :=
  closedStmt_passes.execStep (r := fun _ => r) (fun e _ => (h.eval e).weaken 1)
    (fun t _ => h.exec t) fun loop _ label => h.iterate label loop

theorem loopRound (label : Option String) (loop : Loop) {goOn : Action Flow}
    (hg : PassesFrom 1 goOn) : PassesFrom 1 (Eval.loopRound r label loop goOn) :=
  closedStmt_passes.loopRound (r := fun _ => r) (g := fun _ => goOn)
    (fun e _ => (h.eval e).weaken 1) (h.exec loop.body) hg

end Evaluator.Passes

theorem Rules.Regular.passes_meaning {R : Rules} (hR : R.Regular)
    (hstep : ∀ r : Evaluator, r.Passes → (R.step r).Passes) : R.meaning.Passes := by
  have hexhausted : ∀ {α : Type} (lo : Nat), PassesFrom lo (Action.exhausted : Action α) :=
    fun _ _ _ _ _ _ => ⟨rfl, trivial⟩
  have hwithin : ∀ n, (R.within n).Passes := by
    intro n
    induction n with
    | zero => exact ⟨fun _ => hexhausted 0, fun _ => hexhausted 1, fun _ _ => hexhausted 1⟩
    | succ n ih => exact hstep _ ih
  exact
    { eval := fun e => .limit (fun n => (hwithin n).eval e) (hR.tends_eval e)
      exec := fun s => .limit (fun n => (hwithin n).exec s) (hR.tends_exec s)
      iterate := fun label loop =>
        .limit (fun n => (hwithin n).iterate label loop) (hR.tends_iterate label loop) }

theorem Program.passes_meaning (p : Program) : p.meaning.Passes :=
  p.regular_rules.passes_meaning fun _ hr =>
    { eval := fun e => hr.evalStep p e
      exec := fun s => hr.execStep s
      iterate := fun label loop => hr.loopRound label loop (hr.iterate label loop) }

/-! ## Moving work out of a scope -/

/-- Work that does not see an empty scope can be done before the scope starts. -/
theorem inScope_bind {x : Action α} (hx : PassesFrom 0 x) (f : α → Action β) :
    Action.inScope (x >>= f) = x >>= fun a => Action.inScope (f a) := by
  funext s
  have hxs := (hx 0 0 (Nat.le_refl 0) s (Nat.zero_le _)).1
  show (Action.bind x f s.pushScope).mapState State.popScope = Action.bind x _ s
  unfold Action.bind
  rw [State.pushScope_eq_insertScope, hxs]
  cases x s <;> rfl

theorem inScope_eq {x : Action α} (hx : PassesFrom 0 x) : Action.inScope x = x := by
  have hbind := inScope_bind hx (Pure.pure : α → Action α)
  rw [bind_pure] at hbind
  rw [hbind]
  exact bind_pure x

end

end Eval
end TraceWeaving
