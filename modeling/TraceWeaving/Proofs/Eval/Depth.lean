import Mathlib.Data.Finset.Card
import TraceWeaving.Proofs.Eval.Bindings
import TraceWeaving.Proofs.Eval.Entries
import TraceWeaving.Proofs.Eval.Frames

/-!
# The depth of the stack

A method is run only if there are few enough callers, but the fields of a class are initialised
in a frame of their own however many callers there are.  A class whose fields are initialised is
in use from then on and stays in use, so that each class can add one frame only: there are never
more callers than the limit for calls and one for every class.

Evaluation is compared with evaluation behind gates, which stops where a frame would be entered
against these bounds.
-/

namespace TraceWeaving
namespace Eval

open Code
open Trace (Throwable)

variable {α β : Type}

theorem Action.bind_congr {x y : Action α} {f g : α → Action β} {s : State} (h : x s = y s)
    (hf : ∀ a s', y s = .done a s' → f a s' = g a s') : (x >>= f) s = (y >>= g) s := by
  show Action.bind x f s = Action.bind y g s
  unfold Action.bind
  rw [h]
  cases ho : y s with
  | done a s' => exact hf a s' ho
  | thrown _ _ | fault _ _ | exhausted => rfl

/-! ## What evaluation carries on -/

structure State.Carries (s s' : State) : Prop where
  callers : s'.callers = s.callers
  classes : ∀ cls, s.hasClass cls = true → s'.hasClass cls = true

namespace State.Carries

variable {s s' s'' : State}

theorem of_same (hcallers : s'.callers = s.callers) (hfields : s'.fields = s.fields) :
    s.Carries s' where
  callers := hcallers
  classes cls h := by
    unfold State.hasClass at h ⊢
    rw [hfields]
    exact h

theorem trans (h : s.Carries s') (h' : s'.Carries s'') : s.Carries s'' where
  callers := h'.callers.trans h.callers
  classes cls hs := h'.classes cls (h.classes cls hs)

theorem setField (s : State) (cls name : String) (value : Value) :
    s.Carries (s.setField cls name value) where
  callers := rfl
  classes key h := by rw [State.hasClass_setField, h, Bool.or_true]

theorem openClass (s : State) (cls : String) : s.Carries (s.openClass cls) where
  callers := rfl
  classes key h := by rw [State.hasClass_openClass, h, Bool.or_true]

theorem popFrame {frame : Frame} (h : (s.pushFrame frame).Carries s') :
    s.Carries s'.popFrame := by
  have hcallers : s'.callers = s.frame :: s.callers := h.callers
  unfold State.popFrame
  rw [hcallers]
  exact ⟨rfl, h.classes⟩

end State.Carries

open State (Carries)

theorem framing_carries : Framing Carries where
  refl _ := .of_same rfl rfl
  trans h h' := h.trans h'
  popScope h := ⟨h.callers, h.classes⟩
  recorder _ _ := .of_same rfl rfl

theorem closed_carries : ClosedStmt (ι := Unit) fun x => Keeps Carries (x ()) where
  toClosedCore := framing_carries.core
  assign _ _ := framing_carries.assign fun _ _ _ => .of_same rfl rfl
  setField cls name value := .modify fun s => .setField s cls name value
  openNew cls := fun s => by
    show (Action.openNew cls s).Leaves _
    unfold Action.openNew
    split
    · exact framing_carries.refl s
    · exact Carries.openClass s cls
  inFrame frame hx s := (hx (s.pushFrame frame)).mapState fun _ h => h.popFrame
  declare _ _ := .modify fun _ => .of_same rfl rfl

theorem keeps_store_carries (address index : Nat) (value : Value) :
    Keeps Carries (Place.write (.element address index) value) :=
  .modify fun _ => .of_same rfl rfl

theorem keeps_allocate_carries (items : Array Value) : Keeps Carries (Action.allocate items) :=
  fun _ => .of_same rfl rfl

/-! ## Bounded states -/

namespace Program

variable (p : Program)

def classNames : Finset String :=
  (p.unit.classes.map ClassDecl.name).toFinset

def inUse (s : State) : Finset String :=
  p.classNames.filter fun cls => s.hasClass cls = true

/-- The most callers that there are, however many classes are in use. -/
def mostCallers : Nat :=
  maxCallers + p.classNames.card

/-- Beyond the limit for calls there is at most one caller for each class in use. -/
def Bounded (s : State) : Prop :=
  s.callers.length ≤ maxCallers + (p.inUse s).card

variable {p} {s s' : State}

theorem card_inUse_le (s : State) : (p.inUse s).card ≤ p.classNames.card :=
  Finset.card_filter_le _ _

theorem Bounded.le_mostCallers (h : p.Bounded s) : s.callers.length ≤ p.mostCallers :=
  Nat.le_trans h (Nat.add_le_add_left (card_inUse_le s) maxCallers)

theorem Bounded.carried (h : p.Bounded s) (hs : s.Carries s') : p.Bounded s' := by
  have hsubset : p.inUse s ⊆ p.inUse s' :=
    Finset.monotone_filter_right p.classNames fun cls _ => hs.classes cls
  unfold Bounded
  rw [hs.callers]
  exact Nat.le_trans h (Nat.add_le_add_left (Finset.card_le_card hsubset) maxCallers)

theorem Bounded.pushCall (h : s.callers.length < maxCallers) (frame : Frame) :
    p.Bounded (s.pushFrame frame) :=
  Nat.le_trans h (Nat.le_add_right _ _)

theorem card_inUse_openClass {c : ClassDecl} (hc : c ∈ p.unit.classes)
    (hnew : s.hasClass c.name = false) :
    (p.inUse s).card < (p.inUse (s.openClass c.name)).card := by
  have hname : c.name ∈ p.classNames :=
    List.mem_toFinset.mpr (List.mem_map_of_mem hc)
  apply Finset.card_lt_card
  refine Finset.ssubset_iff_of_subset ?_ |>.mpr ⟨c.name, ?_, ?_⟩
  · exact Finset.monotone_filter_right p.classNames fun cls _ =>
      (Carries.openClass s c.name).classes cls
  · exact Finset.mem_filter.mpr ⟨hname, by simp [State.hasClass_openClass]⟩
  · intro hmem
    have hused := (Finset.mem_filter.mp hmem).2
    rw [hnew] at hused
    cases hused

theorem Bounded.pushClass (h : p.Bounded s) {c : ClassDecl} (hc : c ∈ p.unit.classes)
    (hnew : s.hasClass c.name = false) (frame : Frame) :
    p.Bounded ((s.openClass c.name).pushFrame frame) := by
  have hcard := card_inUse_openClass hc hnew
  have hbound : s.callers.length ≤ maxCallers + (p.inUse s).card := h
  show s.callers.length + 1 ≤ maxCallers + (p.inUse (s.openClass c.name)).card
  omega

end Program

/-! ## Gates -/

section

variable (stop : Fault) (closed : List String) (most : Nat) (r : Evaluator)

/-- Initialises the fields of a class when it is used for the first time, but stops if the class is
closed or if there are as many callers as there may be. -/
def gatedUse (c : ClassDecl) : Action Unit := do
  let s ← Action.state
  if s.hasClass c.name then return ()
  if c.name ∈ closed ∨ most ≤ s.callers.length then Action.fail stop
  Action.modify fun s => s.openClass c.name
  .inFrame (.start c.name []) (initializeFields r c.name c.fields)

def bodyGate : Action Unit := do
  let s ← Action.state
  if maxCallers ≤ s.callers.length then .fail stop

def gatedRun (c : ClassDecl) (m : MethodDecl) (args : List Value) : Action Value :=
  match m.body with
  | none => .fail (.unsupported ("call to '" ++ c.name ++ "." ++ m.name ++ "' without body"))
  | some body => do
      checkStack c m
      gatedUse stop closed most r c
      Action.modify fun s => { s with recorder := s.recorder.keepInvoking c.name m.name }
      bodyGate stop
      let flow ← Action.inFrame (callFrame c m args) (r.execAll body)
      resultOf flow

def gatedCallees : CalleeRules :=
  ⟨gatedUse stop closed most r, gatedRun stop closed most r⟩

variable {stop closed most r} {c : ClassDecl} {s s' : State}

theorem bodyGate_of_lt (hfew : s.callers.length < maxCallers) : bodyGate stop s = .done () s := by
  show (if maxCallers ≤ s.callers.length then Action.fail stop else pure ()) s = _
  rw [if_neg (Nat.not_le_of_lt hfew)]
  rfl

theorem checkStack_done {m : MethodDecl} (h : checkStack c m s = .done () s') :
    s.callers.length < maxCallers ∧ s' = s := by
  change (if maxCallers ≤ s.callers.length then Action.raise "StackOverflowError" _
    else (pure () : Action Unit)) s = _ at h
  split at h
  case isTrue => cases h
  case isFalse hfew =>
    cases h
    exact ⟨Nat.lt_of_not_le hfew, rfl⟩

theorem gatedUse_of_hasClass (hclass : s.hasClass c.name = true) :
    gatedUse stop closed most r c s = .done () s := by
  show (if s.hasClass c.name = true then (pure () : Action Unit) else _) s = _
  rw [if_pos hclass]
  rfl

theorem gatedUse_of_new (hnew : s.hasClass c.name = false) (hopen : c.name ∉ closed)
    (hfew : s.callers.length < most) :
    gatedUse stop closed most r c s =
      Action.inFrame (.start c.name []) (initializeFields r c.name c.fields)
        (s.openClass c.name) := by
  have hgate : ¬(c.name ∈ closed ∨ most ≤ s.callers.length) := by
    rintro (hmem | hle)
    · exact hopen hmem
    · omega
  have hclass : ¬s.hasClass c.name = true := by
    rw [hnew]
    exact Bool.false_ne_true
  show (if s.hasClass c.name = true then (pure () : Action Unit)
    else if c.name ∈ closed ∨ most ≤ s.callers.length then _ else _) s = _
  rw [if_neg hclass, if_neg hgate]
  rfl

variable (r) in
theorem useClass_of_new (hnew : s.hasClass c.name = false) :
    useClass r c s =
      Action.inFrame (.start c.name []) (initializeFields r c.name c.fields)
        (s.openClass c.name) := by
  have hclass : ¬s.hasClass c.name = true := by
    rw [hnew]
    exact Bool.false_ne_true
  show (if s.hasClass c.name = true then (pure () : Action Unit) else _) s = _
  rw [if_neg hclass]
  rfl

end

namespace Program

variable (p : Program) (stop : Fault) (closed : List String)

/-- The rules of a program with gates in front of all frames. -/
def gated : Rules where
  eval r e := (gatedCallees stop closed p.mostCallers r).evalStep p r e
  exec := execStep
  round := loopRound

def gatedCall (steps : Nat) (cls method : String) (args : List Value) : Action Value := do
  let c ← p.findClass cls
  (gatedCallees stop closed p.mostCallers ((p.gated stop closed).within steps)).invoke
    c method args

def gatedField (steps : Nat) (cls name : String) : Action Value :=
  (gatedCallees stop closed p.mostCallers ((p.gated stop closed).within steps)).readField
    p cls name

/-- A bounded state in which the closed classes are in use. -/
structure Guarded (s : State) : Prop where
  bounded : p.Bounded s
  closed : ∀ cls ∈ closed, s.hasClass cls = true

variable {p closed}

theorem Guarded.carried {s s' : State} (h : p.Guarded closed s) (hs : s.Carries s') :
    p.Guarded closed s' where
  bounded := h.bounded.carried hs
  closed cls hcls := hs.classes cls (h.closed cls hcls)

end Program

/-! ## Gates stop nothing -/

/-- In guarded states the second member of a family does what the first one does, which carries
on what it finds. -/
structure Passing (p : Program) (closed : List String) (x : Bool → Action α) : Prop where
  keeps : Keeps Carries (x false)
  same : ∀ s, p.Guarded closed s → x true s = x false s

namespace Passing

variable {p : Program} {closed : List String}

theorem const {x : Action α} (hx : Keeps Carries x) : Passing p closed fun _ => x :=
  ⟨hx, fun _ _ => rfl⟩

theorem andThen {x : Bool → Action α} {f : Bool → α → Action β} {g : Bool → Throwable → Action β}
    (hx : Passing p closed x) (hf : ∀ a, Passing p closed fun i => f i a)
    (hg : ∀ t, Passing p closed fun i => g i t) :
    Passing p closed fun i => (x i).andThen (f i) (g i) where
  keeps := framing_carries.andThen hx.keeps (fun a => (hf a).keeps) fun t => (hg t).keeps
  same s hs := by
    have hcarries := hx.keeps s
    show (x true s).andThen (f true) (g true) = (x false s).andThen (f false) (g false)
    rw [hx.same s hs]
    cases ho : x false s with
    | done a s' =>
        rw [ho] at hcarries
        exact (hf a).same s' (hs.carried hcarries)
    | thrown t s' =>
        rw [ho] at hcarries
        exact (hg t).same s' (hs.carried hcarries)
    | fault _ _ | exhausted => rfl

theorem inScope {x : Bool → Action α} (hx : Passing p closed x) :
    Passing p closed fun i => Action.inScope (x i) where
  keeps := framing_carries.core.inScope (x := fun _ => x false) hx.keeps
  same s hs := by
    have hpush : p.Guarded closed s.pushScope := ⟨hs.bounded, hs.closed⟩
    exact congrArg (Outcome.mapState State.popScope) (hx.same s.pushScope hpush)

theorem closedHere : ClosedStmtHere (ι := Bool) (Passing p closed) where
  look g := const (closed_carries.look g)
  raise t := const (closed_carries.raise t)
  fail f := const (closed_carries.fail f)
  exhausted := const closed_carries.exhausted
  andThen := andThen
  inScope := inScope
  invoking cls method := const (closed_carries.invoking cls method)
  advance millis := const (closed_carries.advance millis)
  assign name value := const (closed_carries.assign name value)
  setField cls name value := const (closed_carries.setField cls name value)
  openNew cls := const (closed_carries.openNew cls)
  declare name value := const (closed_carries.declare name value)

theorem inFrame_eq {x : Bool → Action α} (hx : Passing p closed x) {s : State} {frame : Frame}
    (hs : p.Guarded closed (s.pushFrame frame)) :
    Action.inFrame frame (x true) s = Action.inFrame frame (x false) s :=
  congrArg (Outcome.mapState State.popFrame) (hx.same _ hs)

section

variable {stop : Fault} {r : Bool → Evaluator} (hr : Evaluator.Has (Passing p closed) r)

abbrev sides (p : Program) (closed : List String) (stop : Fault) (r : Bool → Evaluator)
    (gated : Bool) : CalleeRules :=
  if gated then gatedCallees stop closed p.mostCallers (r true) else .own (r false)

include hr

theorem use {c : ClassDecl} (hc : c ∈ p.unit.classes) :
    Passing p closed fun i => (sides p closed stop r i).use c := by
  have hinit : Passing p closed fun i => initializeFields (r i) c.name c.fields :=
    closedHere.initializeFields fun _ _ e _ => hr.eval e
  constructor
  · exact closed_carries.useClass (r := fun _ => r false) fun _ _ e _ => (hr.eval e).keeps
  · intro s hs
    show gatedUse stop closed p.mostCallers (r true) c s = useClass (r false) c s
    cases hclass : s.hasClass c.name with
    | true => rw [useClass_of_hasClass (r false) hclass, gatedUse_of_hasClass hclass]
    | false =>
        have hbounded := hs.bounded.pushClass hc hclass (.start c.name [])
        have hfew : s.callers.length < p.mostCallers := hbounded.le_mostCallers
        have hopen : c.name ∉ closed := by
          intro hmem
          rw [hs.closed c.name hmem] at hclass
          cases hclass
        have hpush : p.Guarded closed ((s.openClass c.name).pushFrame (.start c.name [])) :=
          ⟨hbounded, fun cls hcls =>
            (Carries.openClass s c.name).classes cls (hs.closed cls hcls)⟩
        rw [useClass_of_new (r false) hclass, gatedUse_of_new hclass hopen hfew]
        exact hinit.inFrame_eq hpush

theorem run {c : ClassDecl} (hc : c ∈ p.unit.classes) (m : MethodDecl) (args : List Value) :
    Passing p closed fun i => (sides p closed stop r i).run c m args := by
  have huse : Passing p closed fun i => (sides p closed stop r i).use c := use hr hc
  constructor
  · exact closed_carries.runMethod_of_has (r := fun _ => r false)
      ⟨fun e => (hr.eval e).keeps, fun s => (hr.exec s).keeps,
        fun label loop => (hr.iterate label loop).keeps⟩ c m args
  · intro s hs
    show gatedRun stop closed p.mostCallers (r true) c m args s = runMethod (r false) c m args s
    unfold gatedRun runMethod
    cases m.body with
    | none => rfl
    | some body =>
        have hbody : Passing p closed fun i => (r i).execAll body :=
          closedHere.execAll_of_has hr body
        refine Action.bind_congr rfl fun _ s₁ hcheck => ?_
        rcases checkStack_done hcheck with ⟨hfew, rfl⟩
        refine Action.bind_congr (huse.same s₁ hs) fun _ s₂ hused => ?_
        refine Action.bind_congr rfl fun _ s₃ hkept => ?_
        have hcarries : Carries s₁ s₃ := (huse.keeps.of_done hused).trans
          ((framing_carries.core.invoking c.name m.name).of_done hkept)
        have hcallers : s₃.callers.length < maxCallers := by
          rw [hcarries.callers]
          exact hfew
        rw [Action.bind_of_eq_done (bodyGate_of_lt hcallers)]
        have hpush : p.Guarded closed (s₃.pushFrame (callFrame c m args)) :=
          ⟨Program.Bounded.pushCall hcallers _, (hs.carried hcarries).closed⟩
        exact Action.bind_congr (hbody.inFrame_eq hpush) fun _ _ _ => rfl

end
end Passing

namespace Program

variable (p : Program) (stop : Fault) (closed : List String) (steps : Nat)

abbrev behindGates (gated : Bool) : Evaluator :=
  if gated then (p.gated stop closed).within steps else p.evaluator steps

theorem passing_callees {r : Bool → Evaluator} (hr : Evaluator.Has (Passing p closed) r) :
    CalleeRules.Have (Passing p closed) p (Passing.sides p closed stop r) where
  use _ hc := Passing.use hr hc
  run _ hc m _ args := Passing.run hr hc m args

/-- Gates stop no evaluation that starts in a guarded state. -/
theorem passing_evaluator : Evaluator.Has (Passing p closed) (p.behindGates stop closed steps) := by
  have h : ClosedStmtHere (ι := Bool) (Passing p closed) := Passing.closedHere
  induction steps with
  | zero =>
      exact ⟨fun _ => ⟨fun _ => trivial, fun _ _ => rfl⟩,
        fun _ => ⟨fun _ => trivial, fun _ _ => rfl⟩, fun _ _ => ⟨fun _ => trivial, fun _ _ => rfl⟩⟩
  | succ steps ih =>
      let r := p.behindGates stop closed steps
      have hcallees := p.passing_callees stop closed ih
      have heval : ∀ e, (fun i => (p.behindGates stop closed (steps + 1) i).eval e) =
          fun i => (Passing.sides p closed stop r i).evalStep p (r i) e := by
        intro e
        funext i
        cases i with
        | false => exact (CalleeRules.evalStep_own p (p.evaluator steps) e).symm
        | true => rfl
      have hexec : ∀ s, (fun i => (p.behindGates stop closed (steps + 1) i).exec s) =
          fun i => execStep (r i) s := by
        intro s
        funext i
        cases i <;> rfl
      have hiterate : ∀ label loop,
          (fun i => (p.behindGates stop closed (steps + 1) i).iterate label loop) =
            fun i => loopRound (r i) label loop ((r i).iterate label loop) := by
        intro label loop
        funext i
        cases i with
        | false => exact iterateStep_eq (p.evaluator steps) label loop
        | true => rfl
      constructor
      · intro e
        rw [heval e]
        exact hcallees.evalStep h.toClosedHere
          (fun address index value => .const (keeps_store_carries address index value))
          (fun items => .const (keeps_allocate_carries items))
          (fun method report => .const (framing_carries.receive method report)) ih.eval e
      · intro s
        rw [hexec s]
        exact h.execStep (fun e _ => ih.eval e) (fun t _ => ih.exec t)
          fun loop _ label => ih.iterate label loop
      · intro label loop
        rw [hiterate label loop]
        exact h.loopRound (fun e _ => ih.eval e) (ih.exec loop.body) (ih.iterate label loop)

theorem passing_call (cls method : String) (args : List Value) :
    Passing p closed fun gated =>
      if gated then p.gatedCall stop closed steps cls method args
      else p.call steps cls method args := by
  have hcallees := p.passing_callees stop closed (p.passing_evaluator stop closed steps)
  have hcall : Passing p closed fun gated => p.findClass cls >>= fun c =>
      (Passing.sides p closed stop (p.behindGates stop closed steps) gated).invoke c method args :=
    CalleeRules.closed_findClass Passing.closedHere.toClosedCore fun c hc =>
      hcallees.invoke Passing.closedHere.toClosedCore hc method args
  exact ⟨hcall.keeps, hcall.same⟩

theorem passing_fieldValue (cls name : String) :
    Passing p closed fun gated =>
      if gated then p.gatedField stop closed steps cls name else p.fieldValue steps cls name := by
  have hcallees := p.passing_callees stop closed (p.passing_evaluator stop closed steps)
  have hread := hcallees.readField Passing.closedHere.toClosedCore cls name
  exact ⟨hread.keeps, hread.same⟩

end Program

/-- Too many callers overflow the stack before anything else happens. -/
theorem runMethod_of_le (r : Evaluator) (c : ClassDecl) {m : MethodDecl}
    (hbody : m.body.isSome = true) (args : List Value) {s : State}
    (hfull : maxCallers ≤ s.callers.length) :
    runMethod r c m args s =
      .thrown ⟨"StackOverflowError", some (c.name ++ "." ++ m.name)⟩ s := by
  rcases Option.isSome_iff_exists.mp hbody with ⟨body, hm⟩
  unfold runMethod
  rw [hm]
  show Action.bind (checkStack c m) _ s = _
  have hcheck : checkStack c m s =
      .thrown ⟨"StackOverflowError", some (c.name ++ "." ++ m.name)⟩ s := by
    show (if maxCallers ≤ s.callers.length then Action.raise "StackOverflowError" _
      else (pure () : Action Unit)) s = _
    rw [if_pos hfull]
    rfl
  unfold Action.bind
  rw [hcheck]

/-- A run that starts without callers passes all gates, however long it is: the body of a method
is entered with fewer callers than the limit for calls, and the fields of a class are initialised
only where one more frame makes no more callers than that limit and the number of class names.
From the first use of a class on, a gate that is closed for it stops nothing either, so its fields
are initialised at most once.  With too many callers a method throws, and changes nothing. -/
theorem call_nesting_bounded (p : Program) (steps : Nat) (stop : Fault) :
    (∀ s, s.callers = [] →
      (∀ cls method args,
        p.gatedCall stop [] steps cls method args s = p.call steps cls method args s) ∧
      ∀ cls name, p.gatedField stop [] steps cls name s = p.fieldValue steps cls name s) ∧
    (∀ s, p.Bounded s → s.callers.length ≤ maxCallers + p.classNames.card) ∧
    (∀ s c, p.Bounded s → c ∈ p.unit.classes → s.hasClass c.name = false →
      useClass (p.evaluator steps) c s =
        Action.inFrame (.start c.name []) (initializeFields (p.evaluator steps) c.name c.fields)
          (s.openClass c.name) ∧
      p.Guarded [c.name] ((s.openClass c.name).pushFrame (.start c.name []))) ∧
    (∀ s c, p.Guarded [c.name] s →
      useClass (p.evaluator steps) c s = .done () s ∧
      (∀ e, ((p.gated stop [c.name]).within steps).eval e s = (p.evaluator steps).eval e s ∧
        ((p.evaluator steps).eval e s).Leaves (p.Guarded [c.name])) ∧
      (∀ t, ((p.gated stop [c.name]).within steps).exec t s = (p.evaluator steps).exec t s ∧
        ((p.evaluator steps).exec t s).Leaves (p.Guarded [c.name])) ∧
      ∀ label loop,
        ((p.gated stop [c.name]).within steps).iterate label loop s =
            (p.evaluator steps).iterate label loop s ∧
          ((p.evaluator steps).iterate label loop s).Leaves (p.Guarded [c.name])) ∧
    ∀ (r : Evaluator) c m args s, m.body.isSome = true → maxCallers ≤ s.callers.length →
      runMethod r c m args s =
        .thrown ⟨"StackOverflowError", some (c.name ++ "." ++ m.name)⟩ s := by
  refine ⟨?fresh, fun s hs => hs.le_mostCallers, ?first, ?later,
    fun r c m args s hbody hfull => runMethod_of_le r c hbody args hfull⟩
  case fresh =>
    intro s hs
    have hguarded : p.Guarded [] s := by
      constructor
      · unfold Program.Bounded
        rw [hs]
        exact Nat.zero_le _
      · exact fun _ hcls => absurd hcls List.not_mem_nil
    exact ⟨fun cls method args => (p.passing_call stop [] steps cls method args).same s hguarded,
      fun cls name => (p.passing_fieldValue stop [] steps cls name).same s hguarded⟩
  case first =>
    intro s c hs hc hnew
    refine ⟨useClass_of_new _ hnew, hs.pushClass hc hnew _, ?_⟩
    intro cls hcls
    rw [List.mem_singleton.mp hcls]
    show (s.openClass c.name).hasClass c.name = true
    rw [State.hasClass_openClass, decide_eq_true rfl, Bool.true_or]
  case later =>
    intro s c hs
    have hpassing := p.passing_evaluator stop [c.name] steps
    have hleaves : ∀ {α : Type} {x : Bool → Action α}, Passing p [c.name] x →
        (x false s).Leaves (p.Guarded [c.name]) :=
      fun hx => (hx.keeps s).mono fun _ hcarries => hs.carried hcarries
    exact ⟨useClass_of_hasClass _ (hs.closed c.name List.mem_cons_self),
      fun e => ⟨(hpassing.eval e).same s hs, hleaves (hpassing.eval e)⟩,
      fun t => ⟨(hpassing.exec t).same s hs, hleaves (hpassing.exec t)⟩,
      fun label loop => ⟨(hpassing.iterate label loop).same s hs,
        hleaves (hpassing.iterate label loop)⟩⟩

/-- A field whose first value needs a field of another class, which is initialised by a call. -/
def nestedProgram : Program where
  unit :=
    { package := none
      classes :=
        [{ name := "Outer"
           annotations := []
           fields :=
            [{ name := "total", type := "int", isStatic := true
               init := some (.binary .add (.field (.name "Inner") "base") (.lit (.int 1))) }]
           methods := [] },
         { name := "Inner"
           annotations := []
           fields :=
            [{ name := "base", type := "int", isStatic := true
               init := some (.call (some (.name "Inner")) "start" []) }]
           methods :=
            [{ name := "start", kind := .method, annotations := [], isStatic := true
               params := [], returnType := some "int"
               body := some [.ret (some (.lit (.int 2)))] }] }] }
  runtimeClass := "Trace"

def fullState : State :=
  { State.initial with callers := List.replicate 256 (.start "Main" []) }

theorem call_nesting_bounded_nested :
    State.initial.callers = [] ∧
    (∃ s, nestedProgram.gatedField (.unsupported "gate") [] 12 "Outer" "total" .initial =
        .done (.int 3) s ∧ nestedProgram.inUse s = {"Outer", "Inner"}) ∧
    (∀ c ∈ nestedProgram.unit.classes, ∀ e,
      let s := (State.initial.openClass c.name).pushFrame (.start c.name [])
      ((nestedProgram.gated (.unsupported "gate") [c.name]).within 12).eval e s =
        (nestedProgram.evaluator 12).eval e s) ∧
    maxCallers ≤ fullState.callers.length ∧
    ∀ c ∈ nestedProgram.unit.classes, ∀ m ∈ c.methods, ∃ t,
      runMethod (nestedProgram.evaluator 12) c m [] fullState = .thrown t fullState := by
  have hcallers : State.initial.callers = [] := rfl
  have hfull : maxCallers ≤ fullState.callers.length :=
    Nat.le_of_eq List.length_replicate.symm
  rcases call_nesting_bounded nestedProgram 12 (.unsupported "gate") with
    ⟨hfresh, -, hfirst, hlater, hthrown⟩
  have hfield := ((hfresh .initial hcallers).2 "Outer" "total").trans rfl
  refine ⟨hcallers, ⟨_, hfield, ?_⟩, ?_, hfull, ?_⟩
  · decide
  · intro c hc e
    have hguarded := (hfirst .initial c (Nat.zero_le _) hc rfl).2
    exact ((hlater _ c hguarded).2.1 e).1
  · intro c hc m hm
    have hbody : m.body.isSome = true := by
      revert m
      revert c
      decide
    exact ⟨_, hthrown _ c m [] fullState hbody hfull⟩

end Eval
end TraceWeaving
