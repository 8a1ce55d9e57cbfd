import TraceWeaving.Proofs.Eval.Limit
import TraceWeaving.Proofs.Trace.Bracket

/-!
# What evaluation reports

Every evaluation adds a word to the recorded events.  Code of an activation that leaves
entry, exit and errors to the wrapper around it adds a well-bracketed word, which is cut
off where a fault ends the evaluation.
-/

namespace TraceWeaving
namespace Eval

open Code
open Code.Stmt (HoldsHere)
open Trace (Throwable Report Event Recorder Bracketed Cut directEvents)

/-! ## Words -/

def State.events (s : State) : List Event :=
  s.recorder.events

/-- A word of an activation that reports no error of its own; the flag says whether the
activations inside it may report theirs. -/
structure Emission (errors : Bool) (own : Option String) (w : List Event) : Prop where
  bracketed : Bracketed own w
  direct : ∀ e ∈ directEvents w, e.isFailed = false
  nested : ∀ e ∈ w, e.isFailed = true → errors = true

structure Broken (errors : Bool) (own : Option String) (w : List Event) : Prop where
  cut : Cut own w
  nested : ∀ e ∈ w, e.isFailed = true → errors = true

section

variable {errors : Bool} {own : Option String} {w v : List Event}

theorem Emission.nil : Emission errors own [] where
  bracketed := .nil
  direct _ h := absurd h List.not_mem_nil
  nested _ h := absurd h List.not_mem_nil

theorem Emission.append (hw : Emission errors own w) (hv : Emission errors own v) :
    Emission errors own (w ++ v) where
  bracketed := hw.bracketed.append hv.bracketed
  direct := by
    rw [hw.bracketed.directEvents_append]
    exact List.forall_mem_append.mpr ⟨hw.direct, hv.direct⟩
  nested := List.forall_mem_append.mpr ⟨hw.nested, hv.nested⟩

theorem Emission.inside (hw : Emission errors none w) (own : Option String) :
    Emission errors own w where
  bracketed := hw.bracketed.inside own
  direct := hw.direct
  nested := hw.nested

theorem Emission.broken (hw : Emission errors own w) : Broken errors own w :=
  ⟨.of_bracketed hw.bracketed, hw.nested⟩

theorem Broken.append (hw : Emission errors own w) (hv : Broken errors own v) :
    Broken errors own (w ++ v) where
  cut := hv.cut.append hw.bracketed
  nested := List.forall_mem_append.mpr ⟨hw.nested, hv.nested⟩

theorem Broken.inside (hw : Broken errors none w) (own : Option String) :
    Broken errors own w :=
  ⟨hw.cut.inside own, hw.nested⟩

theorem Emission.single {id : String} {e : Event} (he : e.isBracket = false)
    (hf : e.isFailed = false) (hid : e.method = id) : Emission errors (some id) [e] where
  bracketed := .single he hid
  direct e' h := by
    rw [Trace.directEvents, Trace.directAt_zero_cons he] at h
    obtain rfl := List.mem_singleton.mp h
    exact hf
  nested e' h he' := by
    obtain rfl := List.mem_singleton.mp h
    rw [hf] at he'
    exact absurd he' (by simp)

end

/-! ## Actions -/

def Outcome.Adds {α : Type} (before : List Event) (whole broken : List Event → Prop) :
    Outcome α → Prop
  | done _ s => ∃ w, s.events = before ++ w ∧ whole w
  | thrown _ s => ∃ w, s.events = before ++ w ∧ whole w
  | fault _ s => ∃ w, s.events = before ++ w ∧ broken w
  | exhausted => True

/-- Wherever an action starts, it adds a word of an activation. -/
def Emits {α : Type} (errors : Bool) (own : Option String) (x : Action α) : Prop :=
  ∀ s, (x s).Adds s.events (Emission errors own) (Broken errors own)

section

variable {α β : Type} {errors : Bool} {own : Option String}

theorem Outcome.Adds.mapState {o : Outcome α} {before : List Event}
    {whole broken : List Event → Prop} {f : State → State}
    (hf : ∀ s, (f s).events = s.events) (ho : o.Adds before whole broken) :
    (o.mapState f).Adds before whole broken := by
  cases o with
  | done a s | thrown t s | fault e s =>
      rcases ho with ⟨w, hs, hw⟩
      exact ⟨w, (hf s).trans hs, hw⟩
  | exhausted => trivial

/-- Words that can follow each other; a word may be cut off where a fault ends it. -/
structure Language (whole broken : List Event → Prop) : Prop where
  nil : whole []
  append : ∀ {w v : List Event}, whole w → whole v → whole (w ++ v)
  cut : ∀ {w : List Event}, whole w → broken w
  append_cut : ∀ {w v : List Event}, whole w → broken v → broken (w ++ v)

def Speaks (whole broken : List Event → Prop) (x : Action α) : Prop :=
  ∀ s, (x s).Adds s.events whole broken

namespace Language

variable {whole broken : List Event → Prop} (h : Language whole broken)

include h

theorem prefixed {o : Outcome α} {before w : List Event} (hw : whole w)
    (ho : o.Adds (before ++ w) whole broken) : o.Adds before whole broken := by
  cases o with
  | done a s | thrown t s =>
      rcases ho with ⟨v, hs, hv⟩
      exact ⟨w ++ v, by rw [hs, List.append_assoc], h.append hw hv⟩
  | fault e s =>
      rcases ho with ⟨v, hs, hv⟩
      exact ⟨w ++ v, by rw [hs, List.append_assoc], h.append_cut hw hv⟩
  | exhausted => trivial

theorem speaks_of_done {x : Action α}
    (hx : ∀ s, ∃ a s', x s = .done a s' ∧ s'.events = s.events) : Speaks whole broken x := by
  intro s
  rcases hx s with ⟨a, s', ho, hs⟩
  rw [ho]
  exact ⟨[], by rw [hs, List.append_nil], h.nil⟩

theorem speaks_andThen {x : Action α} {f : α → Action β} {g : Throwable → Action β}
    (hx : Speaks whole broken x) (hf : ∀ a, Speaks whole broken (f a))
    (hg : ∀ t, Speaks whole broken (g t)) : Speaks whole broken (x.andThen f g) := by
  intro s
  have hxs := hx s
  show ((x s).andThen f g).Adds _ _ _
  cases ho : x s with
  | done a s' =>
      rw [ho] at hxs
      rcases hxs with ⟨w, hs, hw⟩
      have ha := hf a s'
      rw [hs] at ha
      exact h.prefixed hw ha
  | thrown t s' =>
      rw [ho] at hxs
      rcases hxs with ⟨w, hs, hw⟩
      have ht := hg t s'
      rw [hs] at ht
      exact h.prefixed hw ht
  | fault e s' =>
      rw [ho] at hxs
      exact hxs
  | exhausted => trivial

/-- Every change of a state other than a report leaves the events alone. -/
theorem closed_speaks : ClosedStmt (ι := Unit) fun x => Speaks whole broken (x ()) where
  look g := h.speaks_of_done fun s => ⟨g s.view, s, rfl, rfl⟩
  raise t s := ⟨[], by rw [List.append_nil], h.nil⟩
  fail f s := ⟨[], by rw [List.append_nil], h.cut h.nil⟩
  exhausted _ := trivial
  andThen := h.speaks_andThen
  inScope hx s := (hx s.pushScope).mapState fun _ => rfl
  inFrame frame hx s := (hx (s.pushFrame frame)).mapState fun s =>
    congrArg Recorder.events (recorder_popFrame s)
  declare name value := h.speaks_of_done fun s => ⟨(), s.declare name value, rfl, rfl⟩
  assign name value s := by
    show Outcome.Adds s.events whole broken (Place.write (.named name) value s)
    rw [place_write_named]
    cases s.frame.assign? name value with
    | none => exact ⟨[], by rw [List.append_nil], h.cut h.nil⟩
    | some frame => exact ⟨[], by rw [List.append_nil]; rfl, h.nil⟩
  setField cls name value :=
    h.speaks_of_done fun s => ⟨(), s.setField cls name value, rfl, rfl⟩
  openNew cls := h.speaks_of_done fun s => by
    show ∃ a s', (if s.hasClass cls then Outcome.done false s else .done true (s.openClass cls)) =
      .done a s' ∧ _
    split
    · exact ⟨false, s, rfl, rfl⟩
    · exact ⟨true, s.openClass cls, rfl, rfl⟩
  invoking cls method := h.speaks_of_done fun s =>
    ⟨(), { s with recorder := s.recorder.keepInvoking cls method }, rfl,
      s.recorder.events_keepInvoking cls method⟩
  advance millis := h.speaks_of_done fun s =>
    ⟨(), { s with recorder := s.recorder.advance millis }, rfl, rfl⟩

theorem finish_speaks : Finish (ι := Unit) (fun x => Speaks whole broken (x ()))
    fun x => Speaks whole broken (x ()) :=
  h.closed_speaks.finish
    (fun address index value => h.speaks_of_done fun s =>
      ⟨(), { s with heap := s.heap.store address index value }, rfl, rfl⟩)
    fun items => h.speaks_of_done fun s =>
      ⟨.array s.heap.size, { s with heap := s.heap.push items }, rfl, rfl⟩

end Language

theorem language_emission (errors : Bool) (own : Option String) :
    Language (Emission errors own) (Broken errors own) where
  nil := .nil
  append := Emission.append
  cut := Emission.broken
  append_cut hw hv := hv.append hw

theorem closed_emits (errors : Bool) (own : Option String) :
    ClosedStmt (ι := Unit) fun x => Emits errors own (x ()) :=
  (language_emission errors own).closed_speaks

theorem finish_emits (errors : Bool) (own : Option String) :
    Finish (ι := Unit) (fun x => Emits errors own (x ())) fun x => Emits errors own (x ()) :=
  (language_emission errors own).finish_speaks

theorem Emits.bind {x : Action α} {f : α → Action β} (hx : Emits errors own x)
    (hf : ∀ a, Emits errors own (f a)) : Emits errors own (x >>= f) :=
  (closed_emits errors own).bind (x := fun _ => x) (f := fun _ => f) hx hf

theorem Emits.pure (a : α) : Emits errors own (Pure.pure a : Action α) :=
  (closed_emits errors own).pure a

theorem Emits.fail (f : Fault) : Emits errors own (Action.fail f : Action α) :=
  (closed_emits errors own).fail f

theorem Emits.inside {x : Action α} (hx : Emits errors none x) (own : Option String) :
    Emits errors own x := by
  intro s
  have hxs := hx s
  cases ho : x s with
  | done a s' | thrown t s' =>
      rw [ho] at hxs
      rcases hxs with ⟨w, hs, hw⟩
      exact ⟨w, hs, hw.inside own⟩
  | fault e s' =>
      rw [ho] at hxs
      rcases hxs with ⟨w, hs, hw⟩
      exact ⟨w, hs, hw.inside own⟩
  | exhausted => trivial

theorem Emits.of_below {x y : Action α} (h : ∀ s, x s = .exhausted ∨ x s = y s)
    (hy : Emits errors own y) : Emits errors own x := by
  intro s
  rcases h s with hx | hx
  · rw [hx]
    trivial
  · rw [hx]
    exact hy s

end

/-! ## Code of an activation -/

def innerHooks : List String :=
  ["returning", "valueChanged", "timeout"]

def Benign (runtimeClass : String) (own : Option String) (e : Expr) : Prop :=
  ∀ hook args, e = .call (some (.name runtimeClass)) hook args →
    ∃ id ∈ own, hook ∈ innerHooks ∧ ∃ rest, args = .text id :: rest

/-- Expressions whose reports are those of the activation they belong to. -/
def CalmExpr (runtimeClass : String) (own : Option String) : Expr → Prop :=
  Expr.Every (Benign runtimeClass own)

def Calm (runtimeClass : String) (own : Option String) : Stmt → Prop :=
  Stmt.Every (HoldsHere (CalmExpr runtimeClass own))

theorem emits_receive {errors : Bool} {id : String} {report : Report} {e : Event}
    (hevents : ∀ r : Recorder, r.eventsOf id report = [e]) (hb : e.isBracket = false)
    (hf : e.isFailed = false) (hid : e.method = id) :
    Emits errors (some id) (Action.modify fun s =>
      { s with recorder := s.recorder.receive id report }) := by
  intro s
  refine ⟨[e], ?_, .single hb hf hid⟩
  show (s.recorder.receive id report).events = _
  rw [Recorder.events_receive, hevents]
  rfl

theorem snapshot_str (text : String) : (Value.str text).snapshot = Pure.pure (.str text) :=
  rfl

theorem callHook_str (hook id : String) (values : List Value) :
    callHook hook (.str id :: values) =
      reportOf hook (.str id :: values) >>= fun report =>
        Action.modify (fun s => { s with recorder := s.recorder.receive id report })
          >>= fun _ => Pure.pure Value.null := by
  have hid : methodIdOf (.str id :: values) = Pure.pure id := by
    show (Value.str id).snapshot >>= (fun copy => Pure.pure copy.text) = _
    rw [snapshot_str]
    rfl
  unfold callHook
  rw [hid]
  rfl

theorem emits_innerHook {errors : Bool} {hook : String} (hhook : hook ∈ innerHooks)
    (id : String) (values : List Value) :
    Emits errors (some id) (callHook hook (.str id :: values)) := by
  have hsnapshot : ∀ value : Value, Emits errors (some id) value.snapshot :=
    (closed_emits errors (some id)).snapshot
  have htext : ∀ value : Value, Emits errors (some id) value.text :=
    (closed_emits errors (some id)).text
  have hkept : ∀ {report : Report} {e : Event}, (∀ r : Recorder, r.eventsOf id report = [e]) →
      e.isBracket = false → e.isFailed = false → e.method = id →
      Emits errors (some id) (Action.modify (fun s =>
        { s with recorder := s.recorder.receive id report }) >>= fun _ => Pure.pure Value.null) :=
    fun hevents hb hf hid => (emits_receive hevents hb hf hid).bind fun _ => .pure _
  rw [callHook_str]
  simp only [innerHooks, List.mem_cons, List.not_mem_nil, or_false] at hhook
  rcases hhook with rfl | rfl | rfl
  · match values with
    | [value] =>
        show Emits errors (some id) ((value.snapshot >>= fun copy =>
          Pure.pure (Report.returning copy)) >>= _)
        rw [bind_assoc]
        exact (hsnapshot value).bind fun copy => hkept (fun _ => rfl) rfl rfl rfl
    | [] => exact Emits.fail _
    | _ :: _ :: _ => exact Emits.fail _
  · match values with
    | [path, value] =>
        show Emits errors (some id) ((path.text >>= fun path => value.snapshot >>= fun copy =>
          Pure.pure (Report.changed path copy)) >>= _)
        rw [bind_assoc]
        refine (htext path).bind fun path => ?_
        rw [bind_assoc]
        exact (hsnapshot value).bind fun copy => hkept (fun _ => rfl) rfl rfl rfl
    | [] => exact Emits.fail _
    | [_] => exact Emits.fail _
    | _ :: _ :: _ :: _ => exact Emits.fail _
  · match values with
    | [.int millis] => exact hkept (fun _ => rfl) rfl rfl rfl
    | [.null] | [.bool _] | [.str _] | [.array _] | [.object _] | [.throwable _] =>
        exact Emits.fail _
    | [] => exact Emits.fail _
    | value :: _ :: _ => cases value <;> exact Emits.fail _

end Eval
end TraceWeaving
