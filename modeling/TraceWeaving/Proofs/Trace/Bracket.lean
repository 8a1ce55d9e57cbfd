import TraceWeaving.Trace.Recorder

/-!
# Well-bracketed traces

The entry and the exit of an activation enclose everything that is reported while it
runs.  An event between them belongs to the activation directly, unless it lies inside
the brackets of another activation.
-/

namespace TraceWeaving
namespace Trace

namespace Event

def isBracket : Event → Bool
  | entering _ _ | exiting _ => true
  | _ => false

def isFailed : Event → Bool
  | failed _ _ => true
  | _ => false

def isReturning : Event → Bool
  | returning _ _ => true
  | _ => false

def isChanged : Event → Bool
  | changed _ _ _ => true
  | _ => false

end Event

/-! ## Words -/

/-- The words that an activation of a method can report between its entry and its exit.
Outside of every activation nothing is reported directly. -/
inductive Bracketed : Option String → List Event → Prop where
  | nil {own : Option String} : Bracketed own []
  | direct {id : String} {e : Event} {rest : List Event} :
      e.isBracket = false → e.method = id → Bracketed (some id) rest →
        Bracketed (some id) (e :: rest)
  | nested {own : Option String} {id : String} {params : List (String × Snapshot)}
      {inner rest : List Event} :
      Bracketed (some id) inner → Bracketed own rest →
        Bracketed own (.entering id params :: (inner ++ .exiting id :: rest))

namespace Bracketed

theorem append {own : Option String} {w v : List Event} (hw : Bracketed own w)
    (hv : Bracketed own v) : Bracketed own (w ++ v) := by
  induction hw with
  | nil => exact hv
  | direct he hid _ ih => exact .direct he hid (ih hv)
  | nested hinner _ _ ih =>
      rw [List.cons_append, List.append_assoc, List.cons_append]
      exact .nested hinner (ih hv)

/-- What is reported outside of every activation may also be reported inside of one. -/
theorem inside {w : List Event} (hw : Bracketed none w) (own : Option String) :
    Bracketed own w := by
  generalize hnone : none = outer at hw
  induction hw with
  | nil => exact .nil
  | direct _ _ _ _ => exact absurd hnone (by simp)
  | nested hinner _ _ ih => exact .nested hinner (ih hnone)

theorem single {id : String} {e : Event} (he : e.isBracket = false) (hid : e.method = id) :
    Bracketed (some id) [e] :=
  .direct he hid .nil

theorem activation {own : Option String} {id : String} {params : List (String × Snapshot)}
    {inner : List Event} (hinner : Bracketed (some id) inner) :
    Bracketed own (.entering id params :: (inner ++ [.exiting id])) :=
  .nested hinner .nil

end Bracketed

/-- The words that are cut off before the end of a well-bracketed word. -/
def Cut (own : Option String) (w : List Event) : Prop :=
  ∃ rest, Bracketed own (w ++ rest)

namespace Cut

theorem of_bracketed {own : Option String} {w : List Event} (hw : Bracketed own w) :
    Cut own w :=
  ⟨[], by rw [List.append_nil]; exact hw⟩

theorem append {own : Option String} {w v : List Event} (hw : Bracketed own w)
    (hv : Cut own v) : Cut own (w ++ v) := by
  rcases hv with ⟨rest, hrest⟩
  refine ⟨rest, ?_⟩
  rw [List.append_assoc]
  exact hw.append hrest

theorem inside {w : List Event} (hw : Cut none w) (own : Option String) : Cut own w := by
  rcases hw with ⟨rest, hrest⟩
  exact ⟨rest, hrest.inside own⟩

theorem activation {own : Option String} {id : String} {params : List (String × Snapshot)}
    {inner : List Event} (hinner : Cut (some id) inner) :
    Cut own (.entering id params :: inner) := by
  rcases hinner with ⟨rest, hrest⟩
  refine ⟨rest ++ [.exiting id], ?_⟩
  rw [List.cons_append, ← List.append_assoc]
  exact .activation hrest

end Cut

/-! ## Direct events -/

/-- The events that lie outside of all brackets of a word that starts inside `depth` of
them. -/
def directAt : Nat → List Event → List Event
  | _, [] => []
  | depth, .entering _ _ :: rest => directAt (depth + 1) rest
  | depth, .exiting _ :: rest => directAt (depth - 1) rest
  | 0, e :: rest => e :: directAt 0 rest
  | depth + 1, _ :: rest => directAt (depth + 1) rest

def directEvents (w : List Event) : List Event :=
  directAt 0 w

theorem directAt_zero_cons {e : Event} (he : e.isBracket = false) (w : List Event) :
    directAt 0 (e :: w) = e :: directAt 0 w := by
  cases e with
  | entering _ _ | exiting _ => simp [Event.isBracket] at he
  | returning _ _ | changed _ _ _ | failed _ _ | deadlineSet _ _ | timedOut _ _ => rfl

theorem directAt_succ_cons {e : Event} (he : e.isBracket = false) (depth : Nat)
    (w : List Event) : directAt (depth + 1) (e :: w) = directAt (depth + 1) w := by
  cases e with
  | entering _ _ | exiting _ => simp [Event.isBracket] at he
  | returning _ _ | changed _ _ _ | failed _ _ | deadlineSet _ _ | timedOut _ _ => rfl

namespace Bracketed

theorem directAt_succ_append {own : Option String} {w : List Event} (hw : Bracketed own w)
    (depth : Nat) (v : List Event) : directAt (depth + 1) (w ++ v) = directAt (depth + 1) v := by
  induction hw generalizing depth v with
  | nil => rfl
  | direct he _ _ ih =>
      rw [List.cons_append, directAt_succ_cons he]
      exact ih depth v
  | @nested _ id _ inner rest _ _ ihinner ihrest =>
      rw [List.cons_append, List.append_assoc, List.cons_append]
      show directAt (depth + 1 + 1) (inner ++ .exiting id :: (rest ++ v)) = _
      rw [ihinner]
      exact ihrest depth v

theorem directEvents_append {own : Option String} {w : List Event} (hw : Bracketed own w)
    (v : List Event) : directEvents (w ++ v) = directEvents w ++ directEvents v := by
  unfold directEvents
  induction hw with
  | nil => rfl
  | direct he _ _ ih =>
      rw [List.cons_append, directAt_zero_cons he, directAt_zero_cons he, ih]
      rfl
  | @nested _ id _ inner rest hinner _ _ ihrest =>
      rw [List.cons_append, List.append_assoc, List.cons_append]
      show directAt 1 (inner ++ .exiting id :: (rest ++ v)) =
        directAt 1 (inner ++ .exiting id :: rest) ++ directAt 0 v
      rw [hinner.directAt_succ_append, hinner.directAt_succ_append]
      exact ihrest

theorem directEvents_eq_nil {w : List Event} (hw : Bracketed none w) : directEvents w = [] := by
  generalize hnone : none = outer at hw
  unfold directEvents
  induction hw with
  | nil => rfl
  | direct _ _ _ _ => exact absurd hnone (by simp)
  | nested hinner _ _ ihrest =>
      show directAt 1 (_ ++ _) = []
      rw [hinner.directAt_succ_append]
      exact ihrest hnone

theorem directEvents_activation {id : String} {params : List (String × Snapshot)}
    {inner : List Event} (hinner : Bracketed (some id) inner) :
    directEvents (.entering id params :: (inner ++ [.exiting id])) = [] := by
  show directAt 1 (inner ++ [.exiting id]) = []
  rw [hinner.directAt_succ_append]
  rfl

end Bracketed

theorem directAt_append (depth : Nat) (w v : List Event) :
    ∃ rest, directAt depth (w ++ v) = directAt depth w ++ rest := by
  induction w generalizing depth with
  | nil => exact ⟨directAt depth v, rfl⟩
  | cons e w ih =>
      cases e with
      | entering _ _ => exact ih (depth + 1)
      | exiting _ => exact ih (depth - 1)
      | returning _ _ | changed _ _ _ | failed _ _ | deadlineSet _ _ | timedOut _ _ =>
          cases depth with
          | zero =>
              rcases ih 0 with ⟨rest, hrest⟩
              exact ⟨rest, congrArg (List.cons _) hrest⟩
          | succ depth => exact ih (depth + 1)

theorem Cut.directEvents_eq_nil {w : List Event} (hw : Cut none w) : directEvents w = [] := by
  rcases hw with ⟨rest, hrest⟩
  rcases directAt_append 0 w rest with ⟨u, hu⟩
  have hnil : directAt 0 (w ++ rest) = [] := hrest.directEvents_eq_nil
  rw [hu] at hnil
  exact (List.append_eq_nil_iff.mp hnil).1

theorem directAt_filter {keep : Event → Bool} (hkeep : ∀ e, e.isBracket = true → keep e = true)
    (depth : Nat) (w : List Event) :
    directAt depth (w.filter keep) = (directAt depth w).filter keep := by
  induction w generalizing depth with
  | nil => rfl
  | cons e w ih =>
      by_cases hb : e.isBracket = true
      · rw [List.filter_cons_of_pos (hkeep e hb)]
        cases e with
        | entering _ _ => exact ih (depth + 1)
        | exiting _ => exact ih (depth - 1)
        | returning _ _ | changed _ _ _ | failed _ _ | deadlineSet _ _ | timedOut _ _ =>
            exact absurd hb (by simp [Event.isBracket])
      · have hb' : e.isBracket = false := by simpa using hb
        cases depth with
        | zero =>
            rw [directAt_zero_cons hb', List.filter_cons, List.filter_cons]
            split
            · rw [directAt_zero_cons hb', ih]
            · exact ih 0
        | succ depth =>
            rw [directAt_succ_cons hb', List.filter_cons]
            split
            · rw [directAt_succ_cons hb', ih]
            · exact ih (depth + 1)

theorem Bracketed.filter_directEvents_append {own : Option String} {w : List Event}
    (hw : Bracketed own w) (kind : Event → Bool) (v : List Event) :
    (directEvents (w ++ v)).filter kind =
      (directEvents w).filter kind ++ (directEvents v).filter kind := by
  rw [hw.directEvents_append, List.filter_append]

theorem filter_directEvents_filter {kind keep : Event → Bool}
    (hkeep : ∀ e, e.isBracket = true ∨ kind e = true → keep e = true) (w : List Event) :
    (directEvents (w.filter keep)).filter kind = (directEvents w).filter kind := by
  unfold directEvents
  rw [directAt_filter fun e he => hkeep e (.inl he), List.filter_filter]
  apply List.filter_congr
  intro e _
  cases hk : kind e with
  | false => rfl
  | true => exact hkeep e (.inr hk)

def directReturns (w : List Event) : List Event :=
  (directEvents w).filter Event.isReturning

def directChanges (w : List Event) : List Event :=
  (directEvents w).filter Event.isChanged

example : directEvents [.entering "a" [], .returning "a" .null, .exiting "a",
    .failed "b" .null] = [.failed "b" .null] :=
  rfl

/-! ## What a recorder adds -/

/-- The events that a report of a method is recorded as. -/
def Recorder.eventsOf (r : Recorder) (method : String) : Report → List Event
  | .entering names values => [.entering method (names.zip values)]
  | .exiting =>
      ((r.missed? method).map fun d => Event.timedOut method d.millis).toList
        ++ [.exiting method]
  | .returning value => [.returning method value]
  | .changed path value => [.changed method path value]
  | .failed error => [.failed method error]
  | .deadline millis => [.deadlineSet method millis]

namespace Recorder

theorem events_keep (r : Recorder) (e : Event) : (r.keep e).events = r.events ++ [e] := by
  simp [events, keep]

theorem events_clearDeadline (r : Recorder) (method : String) :
    (r.clearDeadline method).events = r.events :=
  rfl

theorem events_keepInvoking (r : Recorder) (cls method : String) :
    (r.keepInvoking cls method).events = r.events := by
  simp [events, keepInvoking]

theorem events_receive (r : Recorder) (method : String) (report : Report) :
    (r.receive method report).events = r.events ++ r.eventsOf method report := by
  cases report with
  | exiting =>
      show (r.keepExit method).events = _
      unfold keepExit eventsOf
      cases r.missed? method with
      | none => rw [events_keep, events_clearDeadline]; rfl
      | some d => rw [events_keep, events_keep, events_clearDeadline, List.append_assoc]; rfl
  | deadline millis => exact events_keep _ _
  | entering _ _ | returning _ | changed _ _ | failed _ => exact events_keep _ _

theorem clock_receive (r : Recorder) (method : String) (report : Report) :
    (r.receive method report).clock = r.clock := by
  cases report with
  | exiting =>
      show (r.keepExit method).clock = r.clock
      unfold keepExit
      split <;> rfl
  | deadline _ | entering _ _ | returning _ | changed _ _ | failed _ => rfl

theorem deadlines_receive (r : Recorder) (method : String) (report : Report) :
    (r.receive method report).deadlines =
      match report with
      | .exiting => r.deadlines.eraseP fun d => d.method = method
      | .deadline millis => ⟨method, r.clock, millis⟩ :: r.deadlines
      | _ => r.deadlines := by
  cases report with
  | exiting =>
      show (r.keepExit method).deadlines = r.deadlines.eraseP _
      unfold keepExit
      split <;> rfl
  | deadline _ | entering _ _ | returning _ | changed _ _ | failed _ => rfl

end Recorder

end Trace
end TraceWeaving
