import TraceWeaving.Proofs.Eval.Bindings
import TraceWeaving.Proofs.Eval.Scopes

/-!
# The frames that evaluation leaves

Every scope and every frame that a rule puts on the stack is taken off again, whether the
work in it ends with a result, with a thrown value or with a fault.  An expression leaves the
names of all scopes as they were, a statement those of all but the innermost scope; a call
leaves the frame it is made from and the frames below unchanged.

The property is a relation between the state before and the state after.  Composition keeps
any such relation that is reflexive and transitive and that does not look at the recorder.
-/

namespace TraceWeaving
namespace Eval

open Code
open Trace (Throwable)

/-! ## Relations that work keeps -/

/-- The state that is left, if any, stands in a relation to the state before. -/
def Keeps {α : Type} (R : State → State → Prop) (x : Action α) : Prop :=
  ∀ s, (x s).Leaves (R s)

structure Framing (R : State → State → Prop) : Prop where
  refl : ∀ s, R s s
  trans : ∀ {s s' s''}, R s s' → R s' s'' → R s s''
  popScope : ∀ {s s'}, R s.pushScope s' → R s s'.popScope
  recorder : ∀ s k, R s { s with recorder := k }

section

variable {α β : Type} {R R' : State → State → Prop}

theorem Outcome.Leaves.mono {o : Outcome α} {Q Q' : State → Prop} (ho : o.Leaves Q)
    (h : ∀ s, Q s → Q' s) : o.Leaves Q' := by
  cases o with
  | done _ s | thrown _ s | fault _ s => exact h s ho
  | exhausted => trivial

theorem Outcome.Leaves.of_forall {Q : State → Prop} (h : ∀ s, Q s) (o : Outcome α) :
    o.Leaves Q := by
  cases o with
  | done _ s | thrown _ s | fault _ s => exact h s
  | exhausted => trivial

theorem Keeps.mono {x : Action α} (hx : Keeps R x) (h : ∀ s s', R s s' → R' s s') :
    Keeps R' x :=
  fun s => (hx s).mono (h s)

theorem Keeps.of_done {x : Action α} (hx : Keeps R x) {s s' : State} {a : α}
    (h : x s = .done a s') : R s s' := by
  have hs := hx s
  rwa [h] at hs

theorem Keeps.modify {f : State → State} (h : ∀ s, R s (f s)) : Keeps R (Action.modify f) :=
  fun s => h s

namespace Framing

variable (hR : Framing R)

include hR

theorem andThen {x : Action α} {f : α → Action β} {g : Throwable → Action β} (hx : Keeps R x)
    (hf : ∀ a, Keeps R (f a)) (hg : ∀ t, Keeps R (g t)) : Keeps R (x.andThen f g) := by
  intro s
  have hxs := hx s
  show ((x s).andThen f g).Leaves (R s)
  cases ho : x s with
  | done a s' =>
      rw [ho] at hxs
      exact (hf a s').mono fun _ h => hR.trans hxs h
  | thrown t s' =>
      rw [ho] at hxs
      exact (hg t s').mono fun _ h => hR.trans hxs h
  | fault e s' =>
      rw [ho] at hxs
      exact hxs
  | exhausted => trivial

theorem core : ClosedCore (ι := Unit) fun x => Keeps R (x ()) where
  look _ s := hR.refl s
  raise _ s := hR.refl s
  fail _ s := hR.refl s
  exhausted _ := trivial
  andThen hx hf hg := hR.andThen hx hf hg
  inScope hx s := (hx s.pushScope).mapState fun _ h => hR.popScope h
  invoking _ _ s := hR.recorder s _
  advance _ s := hR.recorder s _

theorem pure (a : α) : Keeps R (Pure.pure a) :=
  fun s => hR.refl s

theorem bind {x : Action α} {f : α → Action β} (hx : Keeps R x) (hf : ∀ a, Keeps R (f a)) :
    Keeps R (x >>= f) :=
  hR.core.bind (x := fun _ => x) (f := fun _ => f) hx hf

theorem assign {name : String} {value : Value}
    (h : ∀ s frame, s.frame.assign? name value = some frame → R s { s with frame := frame }) :
    Keeps R (Place.write (.named name) value) := by
  intro s
  rw [place_write_named]
  cases hframe : s.frame.assign? name value with
  | none => exact hR.refl s
  | some frame => exact h s frame hframe

theorem receive (method : String) (report : Trace.Report) : Keeps R (Action.modify fun s =>
    { s with recorder := s.recorder.receive method report }) :=
  .modify fun s => hR.recorder s _

variable {r : Evaluator}

theorem evalHook (heval : ∀ e, Keeps R (r.eval e)) (hook : String) (args : List Expr) :
    Keeps R (Eval.evalHook r hook args) :=
  hR.core.evalHook (r := fun _ => r) (fun e _ => heval e) (fun _ _ e _ => heval e)
    (fun id names values => hR.receive id (.entering names values))
    (hR.core.callHook hR.receive hook)

theorem callees (p : Program) (huse : ∀ c, Keeps R (useClass r c))
    (hbody : ∀ frame body, Keeps R (Action.inFrame frame (r.execAll body))) :
    Callees (ι := Unit) (fun x => Keeps R (x ())) p (fun _ => .own) fun _ => r where
  use c _ := huse c
  run _ _ _ _ args _ :=
    hR.core.runMethod (r := fun _ => r) (huse _) (fun body _ frame => hbody frame body) args

theorem call {p : Program}
    (hcall : Callees (ι := Unit) (fun x => Keeps R (x ())) p (fun _ => .own) fun _ => r)
    (cls method : String) (args : List Value) :
    Keeps R (p.findClass cls >>= fun c => invoke r c method args) := by
  have h := hR.core.call hcall cls method args
  simpa only [Program.withBodies_own] using h

end Framing

end

/-! ## Names -/

namespace Bindings

variable {α : Type}

def names (b : Bindings α) : List String :=
  b.map Prod.fst

theorem names_insert {name : String} {b : Bindings α} (h : contains b name = true) (value : α) :
    names (insert name value b) = names b := by
  induction b with
  | nil => exact absurd h (by simp [contains, get?])
  | cons entry b ih =>
      unfold insert
      by_cases hname : entry.1 = name
      · rw [if_pos hname]
        exact congrArg (· :: names b) hname.symm
      · rw [if_neg hname]
        refine congrArg (entry.1 :: ·) (ih ?_)
        unfold contains at h ⊢
        rw [get?_cons, if_neg (fun heq => hname heq.symm)] at h
        exact h

end Bindings

namespace Frame

def names (f : Frame) : List (List String) :=
  f.scopes.map Bindings.names

/-- As many scopes, with the same names in all but so many innermost ones. -/
structure SameScopes (inner : Nat) (f f' : Frame) : Prop where
  count : f'.scopes.length = f.scopes.length
  names : f'.names.drop inner = f.names.drop inner

namespace SameScopes

variable {inner : Nat} {f f' f'' : Frame}

theorem refl (inner : Nat) (f : Frame) : f.SameScopes inner f :=
  ⟨rfl, rfl⟩

theorem trans (h : f.SameScopes inner f') (h' : f'.SameScopes inner f'') :
    f.SameScopes inner f'' :=
  ⟨h'.count.trans h.count, h'.names.trans h.names⟩

theorem ne_nil (h : f.SameScopes inner f') (hf : f.scopes ≠ []) : f'.scopes ≠ [] := by
  rw [← List.length_pos_iff] at hf ⊢
  rw [h.count]
  exact hf

theorem weaken (h : f.SameScopes 0 f') : f.SameScopes 1 f' :=
  ⟨h.count, congrArg (List.drop 1) h.names⟩

theorem popScope (h : f.pushScope.SameScopes 1 f') : f.SameScopes 0 f'.popScope where
  count := by
    show f'.scopes.tail.length = f.scopes.length
    rw [List.length_tail, h.count]
    exact Nat.add_sub_cancel _ _
  names := by
    have hdrop : f'.names.drop 1 = f.names := h.names
    calc f'.popScope.names.drop 0 = f'.scopes.tail.map Bindings.names := rfl
      _ = f'.names.drop 1 := by rw [List.drop_one, Frame.names, List.map_tail]
      _ = f.names := hdrop

end SameScopes

theorem names_assignIn? {name : String} {value : Value} {scopes scopes' : List (Bindings Value)}
    (h : assignIn? name value scopes = some scopes') :
    scopes'.map Bindings.names = scopes.map Bindings.names := by
  induction scopes generalizing scopes' with
  | nil => exact absurd h (by simp [assignIn?])
  | cons scope rest ih =>
      unfold assignIn? at h
      split at h
      · rename_i hname
        obtain rfl := Option.some.inj h
        exact congrArg (· :: rest.map Bindings.names) (Bindings.names_insert hname value)
      · rcases Option.map_eq_some_iff.mp h with ⟨rest', hrest, rfl⟩
        exact congrArg (scope.names :: ·) (ih hrest)

theorem sameScopes_assign {f f' : Frame} {name : String} {value : Value}
    (h : f.assign? name value = some f') : f'.cls = f.cls ∧ f.SameScopes 0 f' := by
  rcases Option.map_eq_some_iff.mp h with ⟨scopes, hscopes, rfl⟩
  exact ⟨rfl, length_assignIn? hscopes, names_assignIn? hscopes⟩

theorem sameScopes_declare {f : Frame} (hf : f.scopes ≠ []) (name : String) (value : Value) :
    f.SameScopes 1 (f.declare name value) := by
  rcases f with ⟨cls, scopes⟩
  cases scopes with
  | nil => exact absurd rfl hf
  | cons scope rest => exact ⟨rfl, rfl⟩

theorem cls_declare (f : Frame) (name : String) (value : Value) :
    (f.declare name value).cls = f.cls := by
  unfold declare
  split <;> rfl

end Frame

/-! ## What is left of the stack -/

namespace State

/-- The same callers, and a frame of the same class with the same names in all scopes but so
many innermost ones. -/
structure SameStack (inner : Nat) (s s' : State) : Prop where
  callers : s'.callers = s.callers
  cls : s'.frame.cls = s.frame.cls
  scopes : s.frame.scopes ≠ [] → s.frame.SameScopes inner s'.frame

structure SameFrames (s s' : State) : Prop where
  frame : s'.frame = s.frame
  callers : s'.callers = s.callers

variable {inner : Nat} {s s' s'' : State}

theorem SameStack.trans (h : s.SameStack inner s') (h' : s'.SameStack inner s'') :
    s.SameStack inner s'' where
  callers := h'.callers.trans h.callers
  cls := h'.cls.trans h.cls
  scopes hs := (h.scopes hs).trans (h'.scopes ((h.scopes hs).ne_nil hs))

theorem SameStack.popScope (h : s.pushScope.SameStack 1 s') : s.SameStack 0 s'.popScope where
  callers := h.callers
  cls := h.cls
  scopes _ := (h.scopes (List.cons_ne_nil _ _)).popScope

theorem SameStack.weaken (h : s.SameStack 0 s') : s.SameStack 1 s' :=
  ⟨h.callers, h.cls, fun hs => (h.scopes hs).weaken⟩

theorem SameFrames.sameStack (h : s.SameFrames s') : s.SameStack inner s' where
  callers := h.callers
  cls := congrArg Frame.cls h.frame
  scopes _ := h.frame ▸ .refl inner s.frame

theorem SameStack.popFrame {frame : Frame} (h : (s.pushFrame frame).SameStack inner s') :
    s.SameFrames s'.popFrame := by
  have hcallers : s'.callers = s.frame :: s.callers := h.callers
  unfold State.popFrame
  rw [hcallers]
  exact ⟨rfl, rfl⟩

theorem SameStack.assign {name : String} {value : Value} {frame : Frame}
    (h : s.frame.assign? name value = some frame) : s.SameStack 0 { s with frame := frame } :=
  have hsame := Frame.sameScopes_assign h
  ⟨rfl, hsame.1, fun _ => hsame.2⟩

theorem SameStack.declare (s : State) (name : String) (value : Value) :
    s.SameStack 1 (s.declare name value) :=
  ⟨rfl, Frame.cls_declare _ _ _, fun hs => Frame.sameScopes_declare hs name value⟩

end State

open State (SameStack SameFrames)

theorem framing_sameFrames : Framing SameFrames where
  refl _ := ⟨rfl, rfl⟩
  trans h h' := ⟨h'.frame.trans h.frame, h'.callers.trans h.callers⟩
  popScope h := ⟨congrArg Frame.popScope h.frame, h.callers⟩
  recorder _ _ := ⟨rfl, rfl⟩

theorem framing_sameStack {inner : Nat} (hinner : inner ≤ 1) : Framing (SameStack inner) where
  refl s := SameFrames.sameStack ⟨rfl, rfl⟩
  trans h h' := h.trans h'
  popScope h := by
    match inner, hinner with
    | 0, _ => exact h.weaken.popScope
    | 1, _ => exact h.popScope.weaken
  recorder _ _ := SameFrames.sameStack ⟨rfl, rfl⟩

section

variable {α : Type}

theorem Keeps.inFrame {inner : Nat} {x : Action α} (hx : Keeps (SameStack inner) x)
    (frame : Frame) : Keeps SameFrames (Action.inFrame frame x) :=
  fun s => (hx (s.pushFrame frame)).mapState fun _ h => h.popFrame

theorem Keeps.weaken {x : Action α} (hx : Keeps (SameStack 0) x) : Keeps (SameStack 1) x :=
  hx.mono fun _ _ h => h.weaken

theorem Keeps.sameStack {inner : Nat} {x : Action α} (hx : Keeps SameFrames x) :
    Keeps (SameStack inner) x :=
  hx.mono fun _ _ h => h.sameStack

end

theorem keeps_openNew (cls : String) : Keeps SameFrames (Action.openNew cls) := by
  intro s
  unfold Action.openNew
  split <;> exact ⟨rfl, rfl⟩

theorem closed_sameStack : ClosedHere (ι := Unit) fun x => Keeps (SameStack 0) (x ()) where
  toClosedCore := (framing_sameStack (Nat.zero_le 1)).core
  assign _ _ := (framing_sameStack (Nat.zero_le 1)).assign fun _ _ h => SameStack.assign h
  setField _ _ _ _ := SameFrames.sameStack ⟨rfl, rfl⟩
  openNew cls := (keeps_openNew cls).sameStack

theorem closedStmt_sameStack : ClosedStmtCore (ι := Unit) fun x => Keeps (SameStack 1) (x ()) where
  toClosedCore := (framing_sameStack (Nat.le_refl 1)).core
  declare name value s := .declare s name value

/-! ## Code -/

/-- Expressions keep the names of all scopes, statements those of all but the innermost. -/
structure Evaluator.Framed (r : Evaluator) : Prop where
  eval : ∀ e, Keeps (SameStack 0) (r.eval e)
  exec : ∀ s, Keeps (SameStack 1) (r.exec s)
  iterate : ∀ label loop, Keeps (SameStack 1) (r.iterate label loop)

namespace Evaluator.Framed

variable {r : Evaluator} (h : r.Framed)

include h

theorem useClass (c : ClassDecl) : Keeps SameFrames (Eval.useClass r c) := by
  have hfields : Keeps (SameStack 0) (initializeFields r c.name c.fields) :=
    closed_sameStack.initializeFields (r := fun _ => r) fun _ _ e _ => h.eval e
  simp only [useClass_eq]
  refine framing_sameFrames.bind (keeps_openNew c.name) fun isNew => ?_
  cases isNew with
  | false => exact framing_sameFrames.pure ()
  | true => exact hfields.inFrame _

theorem callees (p : Program) :
    Callees (ι := Unit) (fun x => Keeps SameFrames (x ())) p (fun _ => .own) fun _ => r := by
  refine framing_sameFrames.callees p h.useClass fun frame body => ?_
  have hbody : Keeps (SameStack 1) (r.execAll body) :=
    closedStmt_sameStack.execAll (r := fun _ => r) fun s _ => h.exec s
  exact hbody.inFrame frame

theorem callees_sameStack (p : Program) :
    Callees (ι := Unit) (fun x => Keeps (SameStack 0) (x ())) p (fun _ => .own) fun _ => r where
  use c hc := ((h.callees p).use c hc).sameStack
  run c hc m hm args hargs := ((h.callees p).run c hc m hm args hargs).sameStack

theorem evalStep (p : Program) (e : Expr) : Keeps (SameStack 0) (Eval.evalStep p r e) := by
  have hfin := closed_sameStack.finish (fun _ _ _ _ => SameFrames.sameStack ⟨rfl, rfl⟩)
    fun _ _ => SameFrames.sameStack ⟨rfl, rfl⟩
  have hstep := closed_sameStack.evalStep (h.callees_sameStack p) hfin (e := e)
    (fun e' _ => h.eval e') fun hook args _ =>
      (framing_sameStack (Nat.zero_le 1)).evalHook h.eval hook args
  simpa only [Program.withBodies_own] using hstep

theorem execStep (s : Stmt) : Keeps (SameStack 1) (Eval.execStep r s) :=
  closedStmt_sameStack.execStep (r := fun _ => r) (fun e _ => (h.eval e).weaken)
    (fun t _ => h.exec t) fun loop _ label => h.iterate label loop

theorem iterateStep (label : Option String) (loop : Loop) :
    Keeps (SameStack 1) (Eval.iterateStep r label loop) := by
  rw [iterateStep_eq]
  exact closedStmt_sameStack.loopRound (r := fun _ => r)
    (g := fun _ => r.iterate label loop) (fun e _ => (h.eval e).weaken) (h.exec loop.body)
    (h.iterate label loop)

end Evaluator.Framed

theorem Program.framed_evaluator (p : Program) (steps : Nat) : (p.evaluator steps).Framed := by
  induction steps with
  | zero => exact ⟨fun _ _ => trivial, fun _ _ => trivial, fun _ _ _ => trivial⟩
  | succ steps ih =>
      exact ⟨fun e => ih.evalStep p e, fun s => ih.execStep s,
        fun label loop => ih.iterateStep label loop⟩

/-! ## Calls -/

namespace Program

variable (p : Program) (steps : Nat)

theorem call_keeps (cls method : String) (args : List Value) :
    Keeps SameFrames (p.call steps cls method args) :=
  framing_sameFrames.call ((p.framed_evaluator steps).callees p) cls method args

theorem instantiate_keeps (cls : String) (args : List Value) :
    Keeps SameFrames (instantiate p (p.evaluator steps) cls args) := by
  have h := framing_sameFrames.core.instantiate ((p.framed_evaluator steps).callees p) cls args
  simpa only [withBodies_own] using h

theorem callOnValue_keeps (receiver : Value) (method : String) (args : List Value) :
    Keeps SameFrames (callOnValue p (p.evaluator steps) receiver method args) := by
  have h := framing_sameFrames.core.callOnValue ((p.framed_evaluator steps).callees p)
    receiver method args
  simpa only [withBodies_own] using h

end Program

/-- However evaluation ends, the callers, the class of the frame and its scopes are as they
were; an expression keeps the names of all scopes, a statement those of all but the innermost.
Calls and first uses of classes keep the values of all variables as well. -/
theorem evaluation_keeps_frames (p : Program) (steps : Nat) (s : State)
    (hs : s.frame.scopes ≠ []) :
    (∀ e, ((p.evaluator steps).eval e s).Leaves fun s' =>
      s'.callers = s.callers ∧ s'.frame.cls = s.frame.cls ∧ s'.frame.names = s.frame.names) ∧
    (∀ stmt, ((p.evaluator steps).exec stmt s).Leaves fun s' =>
      s'.callers = s.callers ∧ s'.frame.cls = s.frame.cls ∧
        s'.frame.scopes.length = s.frame.scopes.length ∧
        s'.frame.names.tail = s.frame.names.tail) ∧
    (∀ cls method args, (p.call steps cls method args s).Leaves s.SameFrames) ∧
    (∀ receiver method args,
      (callOnValue p (p.evaluator steps) receiver method args s).Leaves s.SameFrames) ∧
    (∀ cls args, (instantiate p (p.evaluator steps) cls args s).Leaves s.SameFrames) ∧
    ∀ c, (useClass (p.evaluator steps) c s).Leaves s.SameFrames := by
  have hframed := p.framed_evaluator steps
  refine ⟨fun e => ?expression, fun stmt => ?statement,
    fun cls method args => p.call_keeps steps cls method args s,
    fun receiver method args => p.callOnValue_keeps steps receiver method args s,
    fun cls args => p.instantiate_keeps steps cls args s, fun c => hframed.useClass c s⟩
  case expression =>
    exact (hframed.eval e s).mono fun s' h => ⟨h.callers, h.cls, (h.scopes hs).names⟩
  case statement =>
    refine (hframed.exec stmt s).mono fun s' h => ⟨h.callers, h.cls, (h.scopes hs).count, ?_⟩
    simpa only [List.drop_one] using (h.scopes hs).names

/-- A constructor that divides by its argument, which may be zero. -/
def shareUnit : CompilationUnit where
  package := none
  classes :=
    [{ name := "Share"
       annotations := []
       fields := [{ name := "last", type := "int", isStatic := true, init := some (.lit (.int 0)) }]
       methods :=
        [{ name := "Share", kind := .constructor, annotations := [], isStatic := false
           params := [⟨"count", "int"⟩], returnType := none
           body := some [.decl "int" "part"
             (some (.binary .div (.lit (.int 12)) (.name "count"))),
             .expr (.assign .plain (.field (.name "Share") "last") (.name "part"))] }] }]

def shareLoop : Stmt :=
  .forEach "int" "count" (.name "counts")
    (.block [.decl "Share" "share" (some (.new "Share" [.name "count"])),
      .expr (.assign .add (.name "total") (.field (.name "share") "last"))])

def shareState : State where
  frame := ⟨"Main", [[("total", .int 0)], [("counts", .array 0)]]⟩
  callers := [⟨"Main", [[("total", .int 7)]]⟩]
  fields := []
  heap := #[#[.int 3, .int 0, .int 4]]
  recorder := .empty

theorem evaluation_keeps_frames_thrown :
    shareState.frame.scopes ≠ [] ∧
    ∃ t s', ((⟨shareUnit, "Runtime"⟩ : Program).evaluator 12).exec shareLoop shareState =
        .thrown t s' ∧
      t.cls = "ArithmeticException" ∧ s'.frame.lookup? "total" = some (.int 4) ∧
      s'.callers = shareState.callers ∧ s'.frame.scopes.length = 2 ∧
      s'.frame.names.tail = [["counts"]] := by
  have hs : shareState.frame.scopes ≠ [] := List.cons_ne_nil _ _
  have hkeeps := (evaluation_keeps_frames ⟨shareUnit, "Runtime"⟩ 12 shareState hs).2.1 shareLoop
  refine ⟨hs, _, _, rfl, rfl, rfl, ?_⟩
  exact ⟨hkeeps.1, hkeeps.2.2.1, hkeeps.2.2.2⟩

end Eval
end TraceWeaving
