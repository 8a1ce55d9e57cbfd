import TraceWeaving.Proofs.Eval.Held
import TraceWeaving.Proofs.Weave.Deadlines

/-!
# Hooks and the recorder

Hooks are built in one place and understood in another.  The two agree: executing a hook
records the event it is named for, with the text, the values and the duration it was built
from, and changes nothing else.  No name of the program gets in the way, since the runtime
class is looked for before variables and classes are; and no array does, as long as no array
that the program can get at contains itself.
-/

namespace TraceWeaving
namespace Eval

open Code
open Trace (Report Event Recorder Snapshot)

/-! ## Arrays that a program can get at -/

namespace State

def Reaches (s : State) (a : Nat) : Prop :=
  ∃ b, Value.array b ∈ s.values ∧ Relation.ReflTransGen s.heap.Holds b a

/-- No array that the program can get at contains itself. -/
def Acyclic (s : State) : Prop :=
  ∀ a, s.Reaches a → ¬ Relation.TransGen s.heap.Holds a a

variable {s : State}

theorem Acyclic.copy (h : s.Acyclic) {v : Value} (hv : v ∈ s.values) :
    (s.heap.snapshot? v).isSome = true :=
  Heap.snapshot?_isSome_of_acyclicFrom fun a ha b hab => h b ⟨a, ha ▸ hv, hab⟩

theorem acyclic_of_copies (h : ∀ v ∈ s.values, (s.heap.snapshot? v).isSome = true) :
    s.Acyclic :=
  fun a ⟨_, hb, hba⟩ => Heap.acyclicFrom_of_snapshot? (h _ hb) a hba

def valueOf? (s : State) : Expr → Option Value
  | .lit value => some (.ofLiteral value)
  | .self => some (.object s.frame.cls)
  | .name ident => (s.frame.lookup? ident).or (s.field? s.frame.cls ident)
  | _ => none

theorem Acyclic.copyOf (h : s.Acyclic) {e : Expr} {v : Value} (hv : s.valueOf? e = some v) :
    ∃ copy, s.heap.snapshot? v = some copy := by
  apply Option.isSome_iff_exists.mp
  cases e with
  | lit value =>
      obtain rfl := Option.some.inj hv
      cases value <;> exact Heap.snapshot?_isSome_of_acyclicFrom fun _ ha => nomatch ha
  | self =>
      obtain rfl := Option.some.inj hv
      exact Heap.snapshot?_isSome_of_acyclicFrom fun _ ha => nomatch ha
  | name ident =>
      rcases Option.or_eq_some_iff.mp hv with hlocal | ⟨_, hfield⟩
      · exact h.copy (mem_values_of_lookup? hlocal)
      · exact h.copy (mem_values_of_field? hfield)
  | field _ _ | index _ _ | assign _ _ _ | unary _ _ | binary _ _ _ | conditional _ _ _
  | call _ _ _ | new _ _ | newArray _ _ | superCall _ | selfCall _ => exact nomatch hv

end State

/-! ## Values and copies -/

theorem snapshots_done {s : State} {vs : List Value} {copies : List Snapshot}
    (h : List.Forall₂ (fun v copy => s.heap.snapshot? v = some copy) vs copies) :
    snapshots vs s = .done copies s := by
  induction h with
  | nil => rfl
  | cons hv _ ih =>
      unfold snapshots
      rw [Action.bind_of_eq_done (snapshot_done hv), Action.bind_of_eq_done ih]
      rfl

section

variable {p : Program} {s : State}

theorem eval_valueOf {e : Expr} {v : Value} (h : s.valueOf? e = some v) (n : Nat) :
    (p.evaluator (n + 1)).eval e s = .done v s := by
  cases e with
  | lit value =>
      obtain rfl := Option.some.inj h
      rfl
  | self =>
      obtain rfl := Option.some.inj h
      rfl
  | name ident =>
      have hv : (s.frame.lookup? ident).or (s.field? s.frame.cls ident) = some v := h
      show Action.orFail _ ((s.frame.lookup? ident).or (s.field? s.frame.cls ident)) s = _
      rw [hv]
      rfl
  | field _ _ | index _ _ | assign _ _ _ | unary _ _ | binary _ _ _ | conditional _ _ _
  | call _ _ _ | new _ _ | newArray _ _ | superCall _ | selfCall _ => exact nomatch h

theorem evalAll_valueOf {es : List Expr} {vs : List Value}
    (h : List.Forall₂ (fun e v => s.valueOf? e = some v) es vs) (n : Nat) :
    (p.evaluator (n + 1)).evalAll es s = .done vs s := by
  induction h with
  | nil => rfl
  | cons he _ ih =>
      rw [Evaluator.evalAll_cons, Action.bind_of_eq_done (eval_valueOf he n),
        Action.bind_of_eq_done ih]
      rfl

end

/-! ## Calls on the runtime class -/

/-- The action ends with a result, and all that it changes is that events are added to those
recorded so far. -/
def Appends {α : Type} (x : Action α) (result : α) (s : State) (events : List Event) : Prop :=
  ∃ recorder : Recorder, x s = .done result { s with recorder := recorder } ∧
    recorder.events = s.recorder.events ++ events ∧ recorder.clock = s.recorder.clock

theorem appends_receive {α : Type} {x : Action α} {result : α} {s : State} (id : String)
    (report : Report)
    (h : x s = .done result { s with recorder := s.recorder.receive id report }) :
    Appends x result s (s.recorder.eventsOf id report) :=
  ⟨_, h, s.recorder.events_receive id report, s.recorder.clock_receive id report⟩

section

variable {p : Program} {hooks : Hooks} (hp : p.runtimeClass = hooks.runtimeClass)
variable {s : State}

include hp

theorem eval_hook_call (n : Nat) (hook : String) (args : List Expr) :
    (p.evaluator (n + 2)).eval (hooks.call hook args) =
      evalHook (p.evaluator (n + 1)) hook args := by
  show evalCall p (p.evaluator (n + 1)) (some (.name hooks.runtimeClass)) hook args = _
  rw [← hp, evalCall_runtime]

omit hp in
theorem appends_exec {hook : String} {args : List Expr} {events : List Event} {n : Nat}
    (h : Appends ((p.evaluator (n + 2)).eval (hooks.call hook args)) .null s events) :
    Appends ((p.evaluator (n + 3)).exec (hooks.report hook args)) .normal s events := by
  rcases h with ⟨recorder, hdone, hevents, hclock⟩
  refine ⟨recorder, ?_, hevents, hclock⟩
  show ((p.evaluator (n + 2)).eval (hooks.call hook args) >>= fun _ =>
    (pure .normal : Action Flow)) s = _
  rw [Action.bind_of_eq_done hdone]
  rfl

/-- A hook whose arguments are simple records the report that they make. -/
theorem appends_call {hook : String} (hhook : hook ≠ "entering") {id : String}
    {args : List Expr} {values : List Value}
    (hargs : List.Forall₂ (fun e v => s.valueOf? e = some v) args values) {report : Report}
    (hreport : reportOf hook (.str id :: values) s = .done report s) (n : Nat) :
    Appends ((p.evaluator (n + 2)).eval (hooks.call hook (.text id :: args))) .null s
      (s.recorder.eventsOf id report) := by
  have hall : List.Forall₂ (fun e v => s.valueOf? e = some v) (.text id :: args)
      (.str id :: values) := .cons rfl hargs
  refine appends_receive id report ?_
  rw [eval_hook_call hp, evalHook_of_ne _ hhook, Action.bind_of_eq_done (evalAll_valueOf hall n),
    callHook_str, Action.bind_of_eq_done hreport]
  rfl

theorem appends_entering (id : String) {params : List Param} {values : List Value}
    {copies : List Snapshot}
    (hvalues : List.Forall₂ (fun param v => s.frame.lookup? param.name = some v) params values)
    (hcopies : List.Forall₂ (fun v copy => s.heap.snapshot? v = some copy) values copies)
    (n : Nat) :
    Appends ((p.evaluator (n + 3)).exec (hooks.entering id params)) .normal s
      [.entering id ((params.map Param.name).zip copies)] := by
  have hnames : List.Forall₂ (fun e v => s.valueOf? e = some v)
      (params.map fun param => Expr.text param.name) ((params.map Param.name).map .str) := by
    rw [List.map_map, List.forall₂_map_left_iff, List.forall₂_map_right_iff]
    exact List.forall₂_same.mpr fun _ _ => rfl
  have hbound : List.Forall₂ (fun e v => s.valueOf? e = some v)
      (params.map fun param => Expr.name param.name) values := by
    rw [List.forall₂_map_left_iff]
    exact hvalues.imp fun param v hv => by
      show (s.frame.lookup? param.name).or _ = some v
      rw [hv]
      rfl
  have htext : (Value.str id).text = Pure.pure id := rfl
  have hid : s.valueOf? (.text id) = some (.str id) := rfl
  apply appends_exec
  refine appends_receive id (.entering (params.map Param.name) copies) ?_
  rw [eval_hook_call hp]
  show reportEntry (p.evaluator (n + 1)) (.text id) _ _ s = _
  unfold reportEntry
  rw [Action.bind_of_eq_done (eval_valueOf hid n),
    Action.bind_of_eq_done (evalAll_valueOf hnames n),
    Action.bind_of_eq_done (evalAll_valueOf hbound n), htext, texts_str]
  show (snapshots values >>= _) s = _
  rw [Action.bind_of_eq_done (snapshots_done hcopies)]
  rfl

theorem appends_returning {e : Expr} {value : Value} {copy : Snapshot}
    (he : s.valueOf? e = some value) (hcopy : s.heap.snapshot? value = some copy) (id : String)
    (n : Nat) :
    Appends ((p.evaluator (n + 3)).exec (hooks.returning id e)) .normal s
      [.returning id copy] := by
  have hreport : reportOf "returning" [.str id, value] s = .done (.returning copy) s := by
    show (value.snapshot >>= fun copy => Pure.pure (Report.returning copy)) s = _
    rw [Action.bind_of_eq_done (snapshot_done hcopy)]
    rfl
  exact appends_exec (appends_call hp (by decide) (.cons he .nil) hreport n)

theorem appends_changedCall {e : Expr} {value : Value} {copy : Snapshot}
    (he : s.valueOf? e = some value) (hcopy : s.heap.snapshot? value = some copy)
    (id path : String) (n : Nat) :
    Appends ((p.evaluator (n + 2)).eval (hooks.changedCall id path e)) .null s
      [.changed id path copy] := by
  have hreport : reportOf "valueChanged" [.str id, .str path, value] s =
      .done (.changed path copy) s := by
    show (value.snapshot >>= fun copy => Pure.pure (Report.changed path copy)) s = _
    rw [Action.bind_of_eq_done (snapshot_done hcopy)]
    rfl
  exact appends_call hp (by decide) (.cons rfl (.cons he .nil)) hreport n

theorem appends_exiting (id : String) (n : Nat) :
    Appends ((p.evaluator (n + 3)).exec (hooks.exiting id)) .normal s
      (((s.recorder.missed? id).map fun d => .timedOut id d.millis).toList ++ [.exiting id]) := by
  have hreport : reportOf "exiting" [.str id] s = .done .exiting s := rfl
  exact appends_exec (appends_call hp (by decide) .nil hreport n)

theorem appends_timeout (id : String) (millis : UInt64) (n : Nat) :
    Appends ((p.evaluator (n + 3)).exec (hooks.timeout id millis)) .normal s
      [.deadlineSet id (min millis Hooks.longestMillis)] := by
  have hreport : reportOf "timeout" [.str id, .int (min millis Hooks.longestMillis).toInt64] s =
      .done (.deadline (min millis Hooks.longestMillis)) s := by
    show Outcome.done (Report.deadline (if (0 : Int64) ≤ (min millis Hooks.longestMillis).toInt64
      then (min millis Hooks.longestMillis).toInt64.toUInt64 else 0)) s = _
    rw [if_pos (toInt64_longestMillis_nonneg millis)]
    rfl
  exact appends_exec (appends_call hp (by decide) (.cons rfl .nil) hreport n)

end

theorem toNat_longestMillis (millis : UInt64) :
    (min millis Hooks.longestMillis).toNat = min millis.toNat 9223372036854775807 := by
  have hlongest : Hooks.longestMillis.toNat = 9223372036854775807 := rfl
  show (if millis ≤ Hooks.longestMillis then millis else Hooks.longestMillis).toNat = _
  rw [← hlongest]
  split
  · rename_i h
    exact (Nat.min_eq_left (UInt64.le_iff_toNat_le.mp h)).symm
  · rename_i h
    have hle : ¬ millis.toNat ≤ Hooks.longestMillis.toNat :=
      fun hle => h (UInt64.le_iff_toNat_le.mpr hle)
    exact (Nat.min_eq_right (Nat.le_of_not_le hle)).symm

theorem of_missed? {k : Recorder} {id : String} {d : Trace.Deadline} (h : k.missed? id = some d) :
    d ∈ k.deadlines ∧ d.method = id ∧ d.millis.toNat < k.clock - d.setAt := by
  rcases Option.filter_eq_some_iff.mp h with ⟨hfind, hmissed⟩
  exact ⟨List.mem_of_find?_eq_some hfind, by simpa using List.find?_some hfind,
    by simpa [Trace.Deadline.isMissed] using hmissed⟩

/-- Every hook records the event it is named for and changes nothing else, whatever the names
of the program are, unless the program can get at an array that contains itself.  Durations
are cut off at the largest number that the program can hold. -/
theorem hooks_record_events (u : CompilationUnit) (hooks : Hooks) (id : String) (s : State)
    (hs : s.Acyclic) (steps : Nat) :
    let r := (⟨u, hooks.runtimeClass⟩ : Program).evaluator (steps + 3)
    (∀ params values,
      List.Forall₂ (fun param v => s.frame.lookup? (Param.name param) = some v) params values →
      ∃ copies, List.Forall₂ (fun v copy => s.heap.snapshot? v = some copy) values copies ∧
        Appends (r.exec (hooks.entering id params)) .normal s
          [.entering id ((params.map Param.name).zip copies)]) ∧
    Appends (r.exec (hooks.exiting id)) .normal s
      (((s.recorder.missed? id).map fun d => .timedOut id d.millis).toList ++ [.exiting id]) ∧
    (∀ d ∈ s.recorder.missed? id, d ∈ s.recorder.deadlines ∧ d.method = id ∧
      d.millis.toNat < s.recorder.clock - d.setAt) ∧
    (∀ e value, s.valueOf? e = some value → ∃ copy, s.heap.snapshot? value = some copy ∧
      Appends (r.exec (hooks.returning id e)) .normal s [.returning id copy] ∧
      ∀ path,
        Appends (r.exec (hooks.changed id path e)) .normal s [.changed id path copy] ∧
        Appends (r.eval (hooks.changedCall id path e)) .null s [.changed id path copy]) ∧
    ∀ millis : UInt64, ∃ declared : UInt64, declared.toNat = min millis.toNat 9223372036854775807 ∧
      Appends (r.exec (hooks.timeout id millis)) .normal s [.deadlineSet id declared] := by
  intro r
  refine ⟨fun params values hvalues => ?entering, appends_exiting rfl id steps,
    fun d hd => of_missed? hd, fun e value he => ?value,
    fun millis => ⟨_, toNat_longestMillis millis, appends_timeout rfl id millis steps⟩⟩
  case entering =>
    have hcopies : ∃ copies,
        List.Forall₂ (fun v copy => s.heap.snapshot? v = some copy) values copies := by
      induction hvalues with
      | nil => exact ⟨[], .nil⟩
      | cons hv _ ih =>
          rcases ih with ⟨copies, hcopies⟩
          rcases Option.isSome_iff_exists.mp (hs.copy (State.mem_values_of_lookup? hv)) with
            ⟨copy, hcopy⟩
          exact ⟨copy :: copies, .cons hcopy hcopies⟩
    rcases hcopies with ⟨copies, hcopies⟩
    exact ⟨copies, hcopies, appends_entering rfl id hvalues hcopies steps⟩
  case value =>
    rcases hs.copyOf he with ⟨copy, hcopy⟩
    refine ⟨copy, hcopy, appends_returning rfl he hcopy id steps, fun path => ?_⟩
    exact ⟨appends_exec (appends_changedCall rfl he hcopy id path steps),
      appends_changedCall rfl he hcopy id path (steps + 1)⟩

/-- A state of a program whose names are those of the runtime class: a variable, a field and
the running class.  The array that contains itself is not a value of the program. -/
def crowdedState : State where
  frame := ⟨"Scribe", [[("rows", .array 1)], [("Scribe", .str "shadow")]]⟩
  callers := [⟨"Main", [[("Scribe", .int 3)]]⟩]
  fields := [("Scribe", [("total", .int 7)])]
  heap := #[#[.int 1, .int 2], #[.array 0, .array 0, .null], #[.array 2]]
  recorder := { clock := 90, deadlines := [⟨"Scribe.run", 20, 50⟩], entries := #[] }

theorem hooks_record_events_crowded :
    crowdedState.Acyclic ∧
    let r := (⟨⟨none, [.empty "Scribe"]⟩, "Scribe"⟩ : Program).evaluator 3
    let rows : Snapshot := .array [.array [.int 1, .int 2], .array [.int 1, .int 2], .null]
    Appends (r.exec ((Hooks.mk "Scribe").entering "Scribe.run" [⟨"rows", "int[][]"⟩])) .normal
      crowdedState [.entering "Scribe.run" [("rows", rows)]] ∧
    Appends (r.exec ((Hooks.mk "Scribe").exiting "Scribe.run")) .normal crowdedState
      [.timedOut "Scribe.run" 50, .exiting "Scribe.run"] ∧
    Appends (r.exec ((Hooks.mk "Scribe").returning "Scribe.run" (.name "total"))) .normal
      crowdedState [.returning "Scribe.run" (.int 7)] := by
  have hacyclic : crowdedState.Acyclic := State.acyclic_of_copies (by decide)
  rcases hooks_record_events ⟨none, [.empty "Scribe"]⟩ ⟨"Scribe"⟩ "Scribe.run" crowdedState
    hacyclic 0 with ⟨hentering, hexiting, _, hvalue, _⟩
  refine ⟨hacyclic, ?_, hexiting, ?_⟩
  · rcases hentering [⟨"rows", "int[][]"⟩] [.array 1] (.cons rfl .nil) with
      ⟨copies, hcopies, hevent⟩
    rcases List.forall₂_cons_left_iff.mp hcopies with ⟨copy, rest, hcopy, hrest, rfl⟩
    obtain rfl := List.forall₂_nil_left_iff.mp hrest
    obtain rfl : _ = copy := Option.some.inj hcopy
    exact hevent
  · rcases hvalue (.name "total") (.int 7) rfl with ⟨copy, hcopy, hevent, _⟩
    obtain rfl : _ = copy := Option.some.inj hcopy
    exact hevent

end Eval
end TraceWeaving
