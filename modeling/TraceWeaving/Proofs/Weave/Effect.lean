import TraceWeaving.Proofs.Eval.Bindings
import TraceWeaving.Proofs.Eval.Emission
import TraceWeaving.Proofs.Weave.Shape

/-!
# The effect of hooks

Without a bound on its steps, a program does exactly what its rules say.  For the hooks
that stand around a woven body this gives their effect outright: a hook changes the
recorder and nothing else.
-/

namespace TraceWeaving
namespace Eval

open Code
open Trace (Throwable Report Event Recorder)

def Action.record (id : String) (report : Report) : Action Unit :=
  Action.modify fun s => { s with recorder := s.recorder.receive id report }

/-! ## Calls on the runtime class -/

theorem receiverOf_runtime (p : Program) (method : String) :
    receiverOf p (some (.name p.runtimeClass)) method = Pure.pure .runtime := by
  simp [receiverOf]

theorem evalCall_runtime (p : Program) (r : Evaluator) (hook : String) (args : List Expr) :
    evalCall p r (some (.name p.runtimeClass)) hook args = evalHook r hook args := by
  unfold evalCall
  rw [receiverOf_runtime]
  rfl

theorem evalHook_of_ne (r : Evaluator) {hook : String} (hhook : hook ≠ "entering")
    (args : List Expr) : evalHook r hook args = r.evalAll args >>= callHook hook := by
  unfold evalHook
  split
  · exact absurd rfl hhook
  · rfl

theorem catchesType_throwable (t : Throwable) : catchesType "Throwable" t = true := by
  have hname : Text.lastSegment "Throwable" = "Throwable" := by decide
  unfold catchesType
  rw [hname]
  rfl

theorem readName_declare (s : State) (name : String) (value : Value) :
    readName name (s.declare name value) = .done value (s.declare name value) := by
  have hlookup : (s.declare name value).frame.lookup? name = some value :=
    (s.frame.lookup?_declare name value name).trans (if_pos rfl)
  unfold readName
  show Action.orFail _ (((s.declare name value).frame.lookup? name).or _) _ = _
  rw [hlookup]
  rfl

/-- An evaluator that follows the rules of a program, except that it may refuse to go on
after a change of the heap. -/
structure Hosts (p : Program) (E : Evaluator) : Prop where
  below : ∀ e, Within (E.eval e) (evalStep p E e)
  eval : ∀ e, e.changesHeap = false → E.eval e = evalStep p E e
  exec : ∀ s, E.exec s = execStep E s

theorem hosts_meaning (p : Program) : Hosts p p.meaning where
  below e s := .inr (congrFun (p.eval_eq e) s)
  eval e _ := p.eval_eq e
  exec := p.exec_eq

namespace Hosts

variable {p : Program} {E : Evaluator} (hE : Hosts p E)
variable {hooks : Hooks} (hp : p.runtimeClass = hooks.runtimeClass)

include hE

theorem eval_text (text : String) : E.eval (.text text) = Pure.pure (.str text) :=
  hE.eval (.text text) rfl

theorem eval_name (name : String) : E.eval (.name name) = readName name :=
  hE.eval (.name name) rfl

theorem exec_raise_declare (name : String) (t : Throwable) (s : State) :
    E.exec (.raise (.name name)) (s.declare name (.throwable t)) =
      .thrown t (s.declare name (.throwable t)) := by
  rw [hE.exec]
  show (E.eval (.name name) >>= _) _ = _
  rw [hE.eval_name, Action.bind_of_eq_done (readName_declare s name _)]
  rfl

include hp

theorem eval_hook (hook : String) (args : List Expr) :
    E.eval (hooks.call hook args) = evalHook E hook args := by
  rw [hE.eval _ rfl]
  show evalCall p E (some (.name hooks.runtimeClass)) hook args = _
  rw [← hp, evalCall_runtime]

theorem exec_report {hook : String} (hhook : hook ≠ "entering") (args : List Expr) :
    E.exec (hooks.report hook args) =
      E.evalAll args >>= callHook hook >>= fun _ => Pure.pure .normal := by
  rw [hE.exec]
  show E.eval (hooks.call hook args) >>= _ = _
  rw [hE.eval_hook hp, evalHook_of_ne E hhook]

theorem exec_exiting (id : String) :
    E.exec (hooks.exiting id) = Action.record id .exiting >>= fun _ => Pure.pure .normal := by
  unfold Hooks.exiting
  rw [hE.exec_report hp (by decide)]
  simp only [Evaluator.evalAll_cons, Evaluator.evalAll_nil, hE.eval_text, pure_bind, callHook_str]
  rfl

/-- The cleanup of a wrapper records the exit and lets its outcome take place. -/
theorem execBefore_exiting (id : String) (outcome : Action Flow) :
    execBefore E [hooks.exiting id] outcome = Action.record id .exiting >>= fun _ => outcome := by
  have hblock : E.execBlock [hooks.exiting id] =
      Action.record id .exiting >>= fun _ => Pure.pure .normal := by
    unfold Evaluator.execBlock
    rw [Evaluator.execAll_singleton, hE.exec_exiting hp]
    rfl
  unfold execBefore
  rw [hblock]
  rfl

theorem exec_onError (id : String) (t : Throwable) (s : State) :
    E.exec (hooks.report "onError" [.text id, .name Hooks.errorVariable])
        (s.declare Hooks.errorVariable (.throwable t)) =
      (Action.record id (.failed (.error t)) >>= fun _ => Pure.pure .normal)
        (s.declare Hooks.errorVariable (.throwable t)) := by
  have hread := readName_declare s Hooks.errorVariable (.throwable t)
  rw [hE.exec_report hp (by decide)]
  simp only [Evaluator.evalAll_cons, Evaluator.evalAll_nil, hE.eval_text, hE.eval_name, pure_bind,
    bind_assoc, callHook_str]
  rw [Action.bind_of_eq_done hread]
  rfl

theorem execHandler_onError (id : String) (t : Throwable) :
    execHandler E [hooks.onErrorClause id] t =
      Action.record id (.failed (.error t)) >>= fun _ => Action.raiseValue t := by
  have hfind : [hooks.onErrorClause id].find? (fun c => catchesType c.type t) =
      some (hooks.onErrorClause id) :=
    List.find?_cons_of_pos (catchesType_throwable t)
  funext s
  unfold execHandler
  rw [hfind]
  show ((E.execAll
    [hooks.report "onError" [.text id, .name Hooks.errorVariable],
      .raise (.name Hooks.errorVariable)])
    (s.pushScope.declare Hooks.errorVariable (.throwable t))).mapState State.popScope = _
  rw [Evaluator.execAll_cons, Evaluator.execAll_singleton]
  show (Action.bind (E.exec (hooks.report "onError" _)) _ _).mapState _ = _
  unfold Action.bind
  rw [hE.exec_onError hp]
  -- the record leaves the variable as the latest declaration
  show (E.exec (.raise (.name Hooks.errorVariable))
    (State.declare { s.pushScope with
      recorder := s.recorder.receive id (.failed (.error t)) } _ _)).mapState _ = _
  rw [hE.exec_raise_declare]
  rfl

end Hosts

/-! ## Entering -/

theorem texts_str (texts : List String) : Eval.texts (texts.map .str) = Pure.pure texts := by
  induction texts with
  | nil => rfl
  | cons text texts ih =>
      show (Value.str text).text >>= (fun text => Eval.texts (texts.map .str) >>= fun rest =>
        Pure.pure (text :: rest)) = _
      rw [ih]
      rfl

def entryReport (E : Evaluator) (params : List Param) : Action Report := do
  let values ← E.evalAll (params.map fun param => .name param.name)
  let copies ← snapshots values
  return .entering (params.map Param.name) copies

namespace Hosts

variable {p : Program} {E : Evaluator} (hE : Hosts p E)

include hE

theorem evalAll_texts (texts : List String) :
    E.evalAll (texts.map .text) = Pure.pure (texts.map .str) := by
  induction texts with
  | nil => rfl
  | cons text texts ih =>
      rw [List.map_cons, Evaluator.evalAll_cons, hE.eval_text, pure_bind, ih]
      rfl

theorem exec_entering {hooks : Hooks} (hp : p.runtimeClass = hooks.runtimeClass) (id : String)
    (params : List Param) :
    E.exec (hooks.entering id params) =
      entryReport E params >>= fun report =>
        Action.record id report >>= fun _ => Pure.pure .normal := by
  have hnames : params.map (fun param => Expr.text param.name) =
      (params.map Param.name).map .text := by
    rw [List.map_map]
    rfl
  have hid : (Value.str id).text = Pure.pure id := rfl
  unfold Hooks.entering
  rw [hE.exec, hnames]
  show E.eval (hooks.call "entering" _) >>= _ = _
  rw [hE.eval_hook hp]
  show reportEntry E _ _ _ >>= _ = _
  unfold reportEntry entryReport
  simp only [hE.eval_text, hE.evalAll_texts, hid, texts_str, bind_assoc, pure_bind]
  rfl

end Hosts

/-- An action that leaves the state as it is and throws nothing, with a condition on its
result. -/
def Still {α : Type} (Q : α → Prop) (x : Action α) : Prop :=
  ∀ s, match x s with
    | .done a s' => Q a ∧ s' = s
    | .thrown _ _ => False
    | .fault _ s' => s' = s
    | .exhausted => True

namespace Still

theorem bind {α β : Type} {Q : α → Prop} {R : β → Prop} {x : Action α}
    {f : α → Action β} (hx : Still Q x) (hf : ∀ a, Q a → Still R (f a)) : Still R (x >>= f) := by
  intro s
  have hxs := hx s
  show match Action.bind x f s with
    | .done b s' => R b ∧ s' = s
    | .thrown _ _ => False
    | .fault _ s' => s' = s
    | .exhausted => True
  unfold Action.bind
  cases ho : x s with
  | done a s' =>
      rw [ho] at hxs
      rcases hxs with ⟨ha, rfl⟩
      exact hf a ha s'
  | thrown t s' =>
      rw [ho] at hxs
      exact hxs
  | fault e s' =>
      rw [ho] at hxs
      exact hxs
  | exhausted => trivial

theorem pure {α : Type} {Q : α → Prop} {a : α} (h : Q a) : Still Q (Pure.pure a : Action α) :=
  fun _ => ⟨h, rfl⟩

theorem look {α : Type} (g : View → α) : Still (fun _ => True) (Action.look g) :=
  fun _ => ⟨trivial, rfl⟩

theorem snapshot (value : Value) : Still (fun _ => True) value.snapshot := by
  rw [snapshot_eq]
  refine (Still.look _).bind fun copy _ => ?_
  cases copy with
  | none => exact fun _ => trivial
  | some copy => exact .pure trivial

theorem snapshots (values : List Value) : Still (fun _ => True) (Eval.snapshots values) := by
  induction values with
  | nil => exact .pure trivial
  | cons value values ih =>
      exact (Still.snapshot value).bind fun _ _ => ih.bind fun _ _ => .pure trivial

theorem names {p : Program} {E : Evaluator} (hE : Hosts p E) (names : List String) :
    Still (fun _ => True) (E.evalAll (names.map .name)) := by
  induction names with
  | nil => exact .pure trivial
  | cons name names ih =>
      have hname : Still (fun _ => True) (E.eval (.name name)) := by
        rw [hE.eval_name, readName_eq]
        refine (Still.look _).bind fun value _ => ?_
        cases value with
        | none => exact fun _ => rfl
        | some value => exact .pure trivial
      rw [List.map_cons, Evaluator.evalAll_cons]
      exact hname.bind fun _ _ => ih.bind fun _ _ => .pure trivial

theorem entryReport {p : Program} {E : Evaluator} (hE : Hosts p E) (params : List Param) :
    Still (fun report => ∃ names values, report = Report.entering names values)
      (Eval.entryReport E params) := by
  have hnames : params.map (fun param => Expr.name param.name) =
      (params.map Param.name).map .name := by
    rw [List.map_map]
    rfl
  unfold Eval.entryReport
  rw [hnames]
  exact (Still.names hE _).bind fun values _ => (Still.snapshots values).bind fun _ _ =>
    .pure ⟨_, _, rfl⟩

end Still

/-- The outcome of an entry, which is either reported or ends the evaluation. -/
def Outcome.Entered (id : String) (before : Recorder) : Outcome Flow → Prop
  | .done flow s => flow = .normal ∧ ∃ names values,
      s.recorder = before.receive id (.entering names values)
  | .thrown _ _ => False
  | .fault _ s => s.recorder = before
  | .exhausted => True

theorem exec_entering_outcome (p : Program) {hooks : Hooks}
    (hp : p.runtimeClass = hooks.runtimeClass) (id : String) (params : List Param) (s : State) :
    (p.meaning.exec (hooks.entering id params) s).Entered id s.recorder := by
  have hstill := Still.entryReport (hosts_meaning p) params s
  rw [(hosts_meaning p).exec_entering hp]
  show (Action.bind _ _ s).Entered id s.recorder
  unfold Action.bind
  cases ho : entryReport p.meaning params s with
  | done report s' =>
      rw [ho] at hstill
      rcases hstill with ⟨⟨names, values, rfl⟩, rfl⟩
      exact ⟨rfl, names, values, rfl⟩
  | thrown t s' =>
      rw [ho] at hstill
      exact absurd hstill not_false
  | fault e s' =>
      rw [ho] at hstill
      exact congrArg State.recorder hstill
  | exhausted => trivial

end Eval
end TraceWeaving
