import TraceWeaving.Proofs.Trace.Bracket

/-!
# Pending deadlines

A deadline is pending from the report that sets it to the exit that judges it.  A stretch
of a run keeps order when it leaves the deadlines of timed methods as they were: what it
sets it also takes back.  A report of a missed deadline stands right before an exit.
-/

namespace TraceWeaving
namespace Trace

/-! ## Words with missed deadlines -/

def Event.isTimedOut : Event → Bool
  | .timedOut _ _ => true
  | _ => false

/-- The words in which a missed deadline is only reported right before the exit of the
same method, and only for methods that may miss one. -/
inductive Prompt (may : String → Prop) : List Event → Prop where
  | nil : Prompt may []
  | late {id : String} {millis : UInt64} {rest : List Event} :
      may id → Prompt may rest → Prompt may (.timedOut id millis :: .exiting id :: rest)
  | other {e : Event} {rest : List Event} :
      e.isTimedOut = false → Prompt may rest → Prompt may (e :: rest)

namespace Prompt

variable {may may' : String → Prop} {w v : List Event}

theorem append (hw : Prompt may w) (hv : Prompt may v) : Prompt may (w ++ v) := by
  induction hw with
  | nil => exact hv
  | late hmay _ ih => exact .late hmay ih
  | other he _ ih => exact .other he ih

theorem mono (himp : ∀ id, may id → may' id) (hw : Prompt may w) : Prompt may' w := by
  induction hw with
  | nil => exact .nil
  | late hmay _ ih => exact .late (himp _ hmay) ih
  | other he _ ih => exact .other he ih

theorem single {e : Event} (he : e.isTimedOut = false) : Prompt may [e] :=
  .other he .nil

theorem may_of_mem (hw : Prompt may w) {id : String} {millis : UInt64}
    (h : .timedOut id millis ∈ w) : may id := by
  induction hw with
  | nil => exact absurd h List.not_mem_nil
  | late hmay _ ih =>
      rcases List.mem_cons.mp h with heq | h
      · obtain ⟨rfl, rfl⟩ := Event.timedOut.inj heq
        exact hmay
      · rcases List.mem_cons.mp h with heq | h
        · exact absurd heq (by simp)
        · exact ih h
  | other he _ ih =>
      rcases List.mem_cons.mp h with heq | h
      · subst heq
        exact absurd he (by simp [Event.isTimedOut])
      · exact ih h

theorem tail {e : Event} (h : Prompt may (e :: w)) : Prompt may w := by
  cases h with
  | late _ hrest => exact .other rfl hrest
  | other _ hrest => exact hrest

theorem right (h : Prompt may (w ++ v)) : Prompt may v := by
  induction w with
  | nil => exact h
  | cons e w ih => exact ih h.tail

theorem direct_of_bracketed {own : Option String} (hw : Prompt may w)
    (hb : Bracketed own w) : ∀ e ∈ directEvents w, e.isTimedOut = false := by
  unfold directEvents
  induction hb with
  | nil => exact fun e he => absurd he List.not_mem_nil
  | @direct id e rest hbracket hid hrest ih =>
      rw [directAt_zero_cons hbracket]
      intro e' he'
      rcases List.mem_cons.mp he' with rfl | he'
      · cases hw with
        | other htimed _ => exact htimed
        | late _ _ => cases hrest with
          | direct h _ _ => exact absurd h (by simp [Event.isBracket])
      · exact ih hw.tail e' he'
  | @nested _ id params inner rest hinner _ _ ihrest =>
      have hdirect : directAt 0 (.entering id params :: (inner ++ .exiting id :: rest)) =
          directAt 0 rest := by
        show directAt 1 (inner ++ .exiting id :: rest) = _
        rw [hinner.directAt_succ_append]
        rfl
      rw [hdirect]
      exact ihrest hw.tail.right.tail

end Prompt

/-! ## Stretches that keep deadlines in order -/

def pendingOf (timed : List String) (ds : List Deadline) : List Deadline :=
  ds.filter fun d => d.method ∈ timed

/-- What happens between two recorders when every deadline of a timed method that is set
is judged as well. -/
structure Recorder.Later (timed : List String) (k k' : Recorder) : Prop where
  pending : pendingOf timed k'.deadlines = pendingOf timed k.deadlines
  older : ∀ d ∈ k'.deadlines, d ∈ k.deadlines
  word : ∃ w, k'.events = k.events ++ w ∧
    Prompt (fun id => id ∈ timed ∨ ∃ d ∈ k.deadlines, d.method = id) w

namespace Recorder

variable {timed : List String} {k k' k'' : Recorder}

theorem Later.of_same (hdeadlines : k'.deadlines = k.deadlines) {w : List Event}
    (hevents : k'.events = k.events ++ w) (hw : ∀ e ∈ w, e.isTimedOut = false) :
    k.Later timed k' where
  pending := by rw [hdeadlines]
  older d hd := by
    rw [hdeadlines] at hd
    exact hd
  word := by
    refine ⟨w, hevents, ?_⟩
    clear hevents
    induction w with
    | nil => exact .nil
    | cons e w ih =>
        apply Prompt.other
        · exact hw e List.mem_cons_self
        · apply ih
          intro e' he'
          exact hw e' (List.mem_cons_of_mem e he')

theorem Later.refl (timed : List String) (k : Recorder) : k.Later timed k :=
  .of_same rfl (List.append_nil _).symm fun _ he => absurd he List.not_mem_nil

theorem Later.trans (h : k.Later timed k') (h' : k'.Later timed k'') : k.Later timed k'' where
  pending := h'.pending.trans h.pending
  older d hd := h.older d (h'.older d hd)
  word := by
    rcases h.word with ⟨w, hevents, hw⟩
    rcases h'.word with ⟨w', hevents', hw'⟩
    refine ⟨w ++ w', ?_, ?_⟩
    · rw [hevents', hevents, List.append_assoc]
    · apply hw.append
      apply hw'.mono
      rintro id (hid | ⟨d, hd, rfl⟩)
      · exact .inl hid
      · exact .inr ⟨d, h.older d hd, rfl⟩

theorem later_receive (report : Report) (hexit : report ≠ .exiting)
    (hdeadline : ∀ millis, report ≠ .deadline millis) (timed : List String) (k : Recorder)
    (id : String) : k.Later timed (k.receive id report) := by
  cases report with
  | exiting => exact absurd rfl hexit
  | deadline millis => exact absurd rfl (hdeadline millis)
  | entering names values | returning value | changed path value | failed error =>
      apply Later.of_same (w := k.eventsOf id _) (by rw [deadlines_receive])
      · rw [events_receive]
      · intro e he
        obtain rfl := List.mem_singleton.mp he
        rfl

/-! ## Exits -/

theorem eventsOf_exiting_of_find {d : Deadline} {id : String}
    (hfind : k.deadlines.find? (fun d => d.method = id) = some d) :
    k.eventsOf id .exiting =
      (if d.isMissed k.clock then [.timedOut id d.millis] else []) ++ [.exiting id] := by
  unfold eventsOf missed?
  rw [hfind]
  cases hmissed : d.isMissed k.clock <;> simp [Option.filter, hmissed]

theorem eventsOf_exiting_of_not_find {id : String}
    (hfind : k.deadlines.find? (fun d => d.method = id) = none) :
    k.eventsOf id .exiting = [.exiting id] := by
  unfold eventsOf missed?
  rw [hfind]
  rfl

theorem prompt_eventsOf_exiting {may : String → Prop} {id : String}
    (hmay : ∀ d ∈ k.deadlines, d.method = id → may id) :
    Prompt may (k.eventsOf id .exiting) := by
  cases hfind : k.deadlines.find? (fun d => d.method = id) with
  | none =>
      rw [eventsOf_exiting_of_not_find hfind]
      exact .single rfl
  | some d =>
      have hid : d.method = id := by simpa using List.find?_some hfind
      rw [eventsOf_exiting_of_find hfind]
      split
      · exact .late (hmay d (List.mem_of_find?_eq_some hfind) hid) .nil
      · exact .single rfl

theorem pendingOf_eraseP_of_not_mem {id : String} (hid : id ∉ timed) (ds : List Deadline) :
    pendingOf timed (ds.eraseP fun d => d.method = id) = pendingOf timed ds := by
  unfold pendingOf
  induction ds with
  | nil => rfl
  | cons d ds ih =>
      by_cases hd : d.method = id
      · rw [List.eraseP_cons_of_pos (by simpa using hd), List.filter_cons_of_neg]
        rw [hd]
        simpa using hid
      · rw [List.eraseP_cons_of_neg (by simpa using hd), List.filter_cons, List.filter_cons, ih]

theorem pendingOf_eraseP_of_mem {id : String} (hid : id ∈ timed) (ds : List Deadline) :
    pendingOf timed (ds.eraseP fun d => d.method = id) =
      (pendingOf timed ds).eraseP fun d => d.method = id := by
  unfold pendingOf
  induction ds with
  | nil => rfl
  | cons d ds ih =>
      by_cases hd : d.method = id
      · have htimed : d.method ∈ timed := by rwa [hd]
        rw [List.eraseP_cons_of_pos (by simpa using hd),
          List.filter_cons_of_pos (by simpa using htimed),
          List.eraseP_cons_of_pos (by simpa using hd)]
      · rw [List.eraseP_cons_of_neg (by simpa using hd), List.filter_cons, List.filter_cons]
        split
        · rw [List.eraseP_cons_of_neg (by simpa using hd), ih]
        · exact ih

/-- The exit of a method that sets no deadline judges none of a timed method. -/
theorem later_exit_untimed {id : String} (hid : id ∉ timed) :
    k.Later timed (k.receive id .exiting) where
  pending := by
    rw [deadlines_receive]
    exact pendingOf_eraseP_of_not_mem hid k.deadlines
  older d hd := by
    rw [deadlines_receive] at hd
    exact List.mem_of_mem_eraseP hd
  word := by
    refine ⟨_, events_receive k id .exiting, ?_⟩
    apply prompt_eventsOf_exiting
    intro d hd hmethod
    exact .inr ⟨d, hd, hmethod⟩

section

variable {id : String} {millis : UInt64} (hid : id ∈ timed)
  (h : (k.receive id (.deadline millis)).Later timed k')

include hid h

theorem pending_of_deadline :
    pendingOf timed k'.deadlines = ⟨id, k.clock, millis⟩ :: pendingOf timed k.deadlines := by
  rw [h.pending, deadlines_receive]
  apply List.filter_cons_of_pos
  simpa using hid

/-- The exit judges the deadline that the same activation has set. -/
theorem find?_of_deadline :
    k'.deadlines.find? (fun d => d.method = id) = some ⟨id, k.clock, millis⟩ := by
  have hfind : (pendingOf timed k'.deadlines).find? (fun d => d.method = id) =
      k'.deadlines.find? fun d => d.method = id := by
    unfold pendingOf
    rw [List.find?_filter]
    congr 1
    funext d
    by_cases hd : d.method = id
    · simp [hd, hid]
    · simp [hd]
  rw [← hfind, pending_of_deadline hid h]
  exact List.find?_cons_of_pos (by simp)

theorem eventsOf_exiting_of_deadline :
    k'.eventsOf id .exiting =
      (if millis.toNat < k'.clock - k.clock then [.timedOut id millis] else [])
        ++ [.exiting id] := by
  rw [eventsOf_exiting_of_find (find?_of_deadline hid h)]
  simp [Deadline.isMissed]

/-- An activation that sets a deadline leaves the pending ones as they were. -/
theorem later_exit_timed : k.Later timed (k'.receive id .exiting) where
  pending := by
    rw [deadlines_receive]
    show pendingOf timed (k'.deadlines.eraseP fun d => d.method = id) = _
    rw [pendingOf_eraseP_of_mem hid, pending_of_deadline hid h]
    exact List.eraseP_cons_of_pos (by simp)
  older d hd := by
    rw [deadlines_receive] at hd
    change d ∈ k'.deadlines.eraseP _ at hd
    have hd' : d ∈ (k.receive id (.deadline millis)).deadlines :=
      h.older d (List.mem_of_mem_eraseP hd)
    rw [deadlines_receive] at hd'
    rcases List.mem_cons.mp hd' with rfl | hd'
    · -- the deadline that was set is among the pending ones, unless it was taken back
      have hpending : (⟨id, k.clock, millis⟩ : Deadline) ∈
          pendingOf timed (k'.deadlines.eraseP fun d => d.method = id) := by
        apply List.mem_filter.mpr
        exact ⟨hd, by simpa using hid⟩
      rw [pendingOf_eraseP_of_mem hid, pending_of_deadline hid h,
        List.eraseP_cons_of_pos (by simp)] at hpending
      exact (List.mem_filter.mp hpending).1
    · exact hd'
  word := by
    rcases h.word with ⟨w, hevents, hw⟩
    refine ⟨.deadlineSet id millis :: (w ++ k'.eventsOf id .exiting), ?_, ?_⟩
    · rw [events_receive, hevents, events_receive, List.append_assoc, List.append_assoc]
      rfl
    · apply Prompt.other rfl
      apply Prompt.append
      · apply hw.mono
        rintro other (hother | ⟨d, hd, rfl⟩)
        · exact .inl hother
        · rw [deadlines_receive] at hd
          rcases List.mem_cons.mp hd with rfl | hd
          · exact .inl hid
          · exact .inr ⟨d, hd, rfl⟩
      · apply prompt_eventsOf_exiting
        intro _ _ _
        exact .inl hid

end

end Recorder

end Trace
end TraceWeaving
