import TraceWeaving.Proofs.Weave.Omitted
import TraceWeaving.Proofs.Weave.Toggles

/-!
# Reports as filters

Runs of the same unit that is woven with fewer and with more reports end in the same way,
and the shorter trace is the longer one without the reports that are switched off.
-/

namespace TraceWeaving
namespace Weave

open Code
open Code.Stmt (HoldsHere)
open Eval (Evaluator Action Value Flow Program Records Silences WithoutHooks Only closed_records)
open Trace (Event Recorder Report)

namespace Toggles

def reports (t : Toggles) : Event → Bool
  | .changed _ _ _ => t.changes
  | .returning _ _ => t.returns
  | .failed _ _ => t.errors
  | _ => true

def silenced (t : Toggles) : List String :=
  (if t.changes then [] else ["valueChanged"]) ++ (if t.returns then [] else ["returning"]) ++
    if t.errors then [] else ["onError"]

instance : LE Toggles :=
  ⟨fun t t' => (t.changes = true → t'.changes = true) ∧ (t.returns = true → t'.returns = true) ∧
    (t.errors = true → t'.errors = true)⟩

instance (t t' : Toggles) : Decidable (t ≤ t') :=
  inferInstanceAs (Decidable (_ ∧ _ ∧ _))

theorem le_refl (t : Toggles) : t ≤ t :=
  ⟨id, id, id⟩

theorem le_ite {t t₁ t₂ : Toggles} (h₁ : t ≤ t₁) (h₂ : t ≤ t₂) (i : Bool) :
    t ≤ if i then t₁ else t₂ := by
  cases i with
  | false => exact h₂
  | true => exact h₁

theorem mem_silenced {t : Toggles} {hook : String} : hook ∈ t.silenced ↔
    (hook = "valueChanged" ∧ t.changes = false) ∨ (hook = "returning" ∧ t.returns = false) ∨
      (hook = "onError" ∧ t.errors = false) := by
  unfold silenced
  cases t.changes <;> cases t.returns <;> cases t.errors <;> simp

theorem silences (t : Toggles) : Silences t.silenced t.reports where
  entering _ _ := rfl
  callHook hook hhook values := by
    have h := closed_records t.reports
    have hlook : ∀ {α : Type} (g : Eval.View → α), Records t.reports (Action.look g) := h.look
    have hsnapshot : ∀ value : Value, Records t.reports value.snapshot := h.snapshot
    have hrecord : ∀ {id : String} {report : Report},
        (∀ k : Recorder, Only t.reports (k.eventsOf id report)) →
          Records t.reports (Action.record id report >>= fun _ => Pure.pure Value.null) :=
      fun hreport => (Eval.records_record hreport).bind fun _ => h.pure _
    have hsingle : ∀ {e : Event}, t.reports e = true → Only t.reports [e] := by
      intro e he e' hm
      obtain rfl := List.mem_singleton.mp hm
      exact he
    apply Records.bind (h.methodIdOf values)
    intro id
    show Records t.reports (Eval.reportOf hook values >>= fun report =>
      Action.record id report >>= fun _ => Pure.pure Value.null)
    unfold Eval.reportOf
    split
    · simp only [Eval.elementsOf_eq, bind_assoc, pure_bind]
      refine (hlook _).bind fun names => Records.bind (h.texts names) fun names => ?_
      refine (hlook _).bind fun items => Records.bind (h.snapshots items) fun values => ?_
      exact hrecord fun _ => hsingle rfl
    · apply hrecord
      intro k e he
      rcases List.mem_append.mp he with he | he
      · rcases Option.map_eq_some_iff.mp (Option.mem_toList.mp he) with ⟨_, _, rfl⟩
        rfl
      · obtain rfl := List.mem_singleton.mp he
        rfl
    · simp only [bind_assoc, pure_bind]
      exact (hsnapshot _).bind fun _ => hrecord fun _ => hsingle (by
        simpa [mem_silenced, reports] using hhook)
    · simp only [bind_assoc, pure_bind]
      refine Records.bind (h.text _) fun _ => (hsnapshot _).bind fun _ => ?_
      exact hrecord fun _ => hsingle (by simpa [mem_silenced, reports] using hhook)
    · simp only [bind_assoc, pure_bind]
      exact (hsnapshot _).bind fun _ => hrecord fun _ => hsingle (by
        simpa [mem_silenced, reports] using hhook)
    · exact hrecord fun _ => hsingle rfl
    · exact h.fail _

end Toggles

/-! ## Woven programs -/

section

variable {w : Weaver} {t : Toggles} {id : String}

abbrev Unsilenced (w : Weaver) (t : Toggles) : Stmt → Prop :=
  HoldsHere (WithoutHooks t.silenced w.hooks.runtimeClass)

theorem unsilenced_report {hook : String} (hhook : hook ∉ t.silenced) {args : List Expr}
    (hargs : ∀ e ∈ args, WithoutHooks t.silenced w.hooks.runtimeClass e) :
    (w.hooks.report hook args).Every (Unsilenced w t) := by
  refine (Stmt.every_leaf rfl).mpr fun e he => ?_
  obtain rfl := List.mem_singleton.mp he
  exact Eval.withoutHooks_call hhook hargs

theorem withoutHooks_array {type : TypeName} {elements : List Expr}
    (h : ∀ e ∈ elements, e.isCallOn w.hooks.runtimeClass = false ∧ e.children = []) :
    WithoutHooks t.silenced w.hooks.runtimeClass (.newArray type elements) := by
  refine Expr.every_iff.mpr ⟨?_, ?_⟩
  · intro _ _ heq
    exact nomatch heq
  · intro e he
    exact Eval.withoutHooks_of_leaf (h e he).1 (h e he).2

theorem unsilenced_entering (params : List Param) :
    (w.hooks.entering id params).Every (Unsilenced w t) := by
  apply unsilenced_report (by simp [Toggles.mem_silenced])
  intro e he
  simp only [List.mem_cons, List.not_mem_nil, or_false] at he
  rcases he with rfl | rfl | rfl
  · exact Eval.withoutHooks_of_leaf rfl rfl
  · apply withoutHooks_array
    intro e he
    rcases List.mem_map.mp he with ⟨param, -, rfl⟩
    exact ⟨rfl, rfl⟩
  · apply withoutHooks_array
    intro e he
    rcases List.mem_map.mp he with ⟨param, -, rfl⟩
    exact ⟨rfl, rfl⟩

theorem unsilenced_onError (herrors : t.errors = true) :
    Stmt.EveryIn (Unsilenced w t) (w.hooks.onErrorClause id).body := by
  have hreport : (w.hooks.report "onError" [.text id, .name Hooks.errorVariable]).Every
      (Unsilenced w t) := by
    apply unsilenced_report (by simp [Toggles.mem_silenced, herrors])
    intro e he
    simp only [List.mem_cons, List.not_mem_nil, or_false] at he
    rcases he with rfl | rfl
    · exact Eval.withoutHooks_of_leaf rfl rfl
    · exact Eval.withoutHooks_of_leaf rfl rfl
  have hraise : (Stmt.raise (.name Hooks.errorVariable)).Every (Unsilenced w t) := by
    refine (Stmt.every_leaf rfl).mpr fun e he => ?_
    obtain rfl := List.mem_singleton.mp he
    exact Eval.withoutHooks_of_leaf rfl rfl
  exact Stmt.everyIn_cons.mpr ⟨hreport, Stmt.everyIn_singleton.mpr hraise⟩

theorem unsilenced_wrapped (params : List Param) {inner : List Stmt}
    (h : Stmt.EveryIn (Unsilenced w t) inner) :
    Stmt.EveryIn (Unsilenced w t) (wrapped w.hooks id params t.errors inner) := by
  have hexit : (w.hooks.exiting id).Every (Unsilenced w t) := by
    apply unsilenced_report (by simp [Toggles.mem_silenced])
    intro e he
    obtain rfl := List.mem_singleton.mp he
    exact Eval.withoutHooks_of_leaf rfl rfl
  have hcatches : ∀ c ∈ (if t.errors then [w.hooks.onErrorClause id] else []),
      Stmt.EveryIn (Unsilenced w t) c.body := by
    intro c hc
    cases herrors : t.errors with
    | false =>
        rw [herrors] at hc
        exact absurd hc List.not_mem_nil
    | true =>
        rw [herrors] at hc
        obtain rfl := List.mem_singleton.mp hc
        exact unsilenced_onError herrors
  have hwrapper := Stmt.every_tryCatch (q := Unsilenced w t).mpr
    ⟨fun _ he => absurd he List.not_mem_nil, h, hcatches, fun stmts hstmts => by
      obtain rfl := Option.some.inj hstmts
      exact Stmt.everyIn_singleton.mpr hexit⟩
  exact Stmt.everyIn_cons.mpr ⟨unsilenced_entering params, Stmt.everyIn_singleton.mpr hwrapper⟩

end

theorem unsilenced_bodyOf (w : Weaver) (t : Toggles) (s : Session) {body : List Stmt}
    (h : Stmt.EveryIn (HoldsHere (Expr.Avoids w.hooks.runtimeClass)) body) :
    Stmt.EveryIn (Unsilenced w t) ((w.tracing t).bodyOf s body) := by
  have hweavable : Weavable (w.tracing t) s.id
      (WithoutHooks t.silenced w.hooks.runtimeClass) := by
    apply Eval.weavable_withoutHooks (w.tracing t)
    · intro hon
      have hchanges : t.changes = true := hon
      simp [Toggles.mem_silenced, hchanges]
    · intro hon
      have hreturns : t.returns = true := hon
      simp [Toggles.mem_silenced, hreturns]
  have hinner : Stmt.EveryIn (Unsilenced w t) ((w.tracing t).innerBody s body) := by
    apply innerBody_every hweavable
    · intro n
      apply Eval.withoutHooks_call (by simp [Toggles.mem_silenced])
      intro e he
      simp only [List.mem_cons, List.not_mem_nil, or_false] at he
      rcases he with rfl | rfl
      · exact Eval.withoutHooks_of_leaf rfl rfl
      · exact Eval.withoutHooks_of_leaf rfl rfl
    · exact fun s hs => (h s hs).mono fun _ hq e he => Eval.withoutHooks_of_avoids (hq e he)
  rw [Weaver.bodyOf_eq]
  refine Stmt.everyIn_append.mpr ⟨?_, ?_⟩
  · intro s' hs'
    rcases List.mem_map.mp hs' with ⟨e, he, rfl⟩
    exact hinner _ (Weaver.mem_front (Option.mem_toList.mp he)).1
  · exact unsilenced_wrapped _ fun s' hs' => hinner s' ((w.tracing t).rest_subset s body hs')

theorem without_program (w : Weaver) (t : Toggles) {u : CompilationUnit}
    (hu : u.Avoids w.hooks.runtimeClass) : ((w.tracing t).program u).Without t.silenced where
  fields c' hc' f hf e he :=
    Eval.withoutHooks_of_avoids (avoids_of_mem_fields (w := w.tracing t) hu hc' hf he)
  methods c' hc' m' hm' body hbody := by
    rcases woven_of_mem_methods (w := w.tracing t) hu hc' hm' hbody with
      hplain | ⟨c, -, m, -, former, -, hformer, rfl⟩
    · exact fun s hs => (hplain s hs).mono fun _ hq e he => Eval.withoutHooks_of_avoids (hq e he)
    · exact unsilenced_bodyOf w t _ hformer

/-! ## Two runs -/

open Eval (State Outcome SameBut Heap Comparison Overlooks Followed Good)

/-- The events of the first recorder are the events of the second one that are kept. -/
structure Thinned (keep : Event → Bool) (k k' : Recorder) : Prop where
  clock : k.clock = k'.clock
  deadlines : k.deadlines = k'.deadlines
  events : k.events = k'.events.filter keep

section

variable {t : Toggles} {T : Bool → Toggles}

abbrev SameReports (t : Toggles) : Recorder → Recorder → Prop :=
  SameBut fun e => !t.reports e

theorem overlooks_of_silent {kind : Report → Prop}
    (h : ∀ id report, kind report → ∃ e, t.reports e = false ∧ ∀ k : Recorder,
      k.eventsOf id report = [e] ∧ (k.receive id report).deadlines = k.deadlines) :
    Overlooks (SameReports t) kind := by
  intro k k' hk id report hkind
  rcases h id report hkind with ⟨e, hsilent, hevent⟩
  have hdrop : (!t.reports e) = true := by rw [hsilent]; rfl
  have hevents : ∀ k : Recorder, k.eventsOf id report = [e] := fun k => (hevent k).1
  have hdeadlines : ∀ k : Recorder, (k.receive id report).deadlines = k.deadlines :=
    fun k => (hevent k).2
  constructor
  · exact (hk.symm.receive_of_drop hevents hdeadlines hdrop).symm
  · exact hk.receive_of_drop hevents hdeadlines hdrop

/-- A report that is made on both sides, or is not among the reports that count. -/
theorem optional_of_le {C : Comparison} {kind : Report → Prop} {reported : Bool}
    {on : Bool → Bool} (hle : ∀ i, reported = true → on i = true)
    (hacyclic : on true = reported ∨ ∀ heap, C.good heap = true → heap.isAcyclic = true)
    (hoverlooks : reported = false → Overlooks C.related kind) : C.Optional on kind := by
  cases hreported : reported with
  | true =>
      left
      rw [hle false hreported, hle true hreported]
  | false =>
      right
      refine ⟨hoverlooks hreported, fun hon => ?_⟩
      rcases hacyclic with hsame | hgood
      · rw [hon, hreported] at hsame
        exact nomatch hsame
      · exact hgood

theorem switched_of_le (hle : ∀ i, t ≤ T i) {ok : Heap → Bool}
    (hacyclic : T true = t ∨ ∀ heap, ok heap = true → heap.isAcyclic = true) (p : Program) :
    Switched (.careful p ok (SameBut.kept fun e => !t.reports e)) T := by
  constructor
  · apply optional_of_le fun i => (hle i).1
    · exact hacyclic.imp_left (congrArg Toggles.changes)
    · intro hoff
      apply overlooks_of_silent
      intro id report hkind
      cases report with
      | changed path value => exact ⟨.changed id path value, hoff, fun _ => ⟨rfl, rfl⟩⟩
      | entering _ _ | exiting | returning _ | failed _ | deadline _ => exact hkind.elim
  · apply optional_of_le fun i => (hle i).2.1
    · exact hacyclic.imp_left (congrArg Toggles.returns)
    · intro hoff
      apply overlooks_of_silent
      intro id report hkind
      cases report with
      | returning value => exact ⟨.returning id value, hoff, fun _ => ⟨rfl, rfl⟩⟩
      | entering _ _ | exiting | changed _ _ | failed _ | deadline _ => exact hkind.elim
  · apply optional_of_le fun i => (hle i).2.2
    · exact hacyclic.imp_left (congrArg Toggles.errors)
    · intro hoff
      apply overlooks_of_silent
      intro id report hkind
      cases report with
      | failed error => exact ⟨.failed id error, hoff, fun _ => ⟨rfl, rfl⟩⟩
      | entering _ _ | exiting | changed _ _ | returning _ | deadline _ => exact hkind.elim

theorem Thinned.sameReports {k k' : Recorder} (h : Thinned t.reports k k') :
    SameReports t k k' where
  clock := h.clock
  deadlines := h.deadlines
  events := by
    simp only [Bool.not_not]
    rw [h.events, List.filter_filter]
    simp only [Bool.and_self]

theorem Thinned.only {k k' : Recorder} (h : Thinned t.reports k k') :
    Only t.reports k.events := by
  intro e he
  rw [h.events] at he
  exact (List.mem_filter.mp he).2

/-- Where the first recorder keeps reports of the right kinds only, it keeps what the other
one keeps of these kinds. -/
theorem thinned_of_only {k k' : Recorder} (h : SameReports t k k')
    (honly : Only t.reports k.events) : Thinned t.reports k k' where
  clock := h.clock
  deadlines := h.deadlines
  events := by
    have hevents := h.events
    simp only [Bool.not_not] at hevents
    rw [← hevents]
    exact (List.filter_eq_self.mpr honly).symm

theorem agrees_thinned {α : Type} {o o' : Eval.Outcome α} {before : List Event}
    (hbefore : Only t.reports before) (hadds : o.Adds before (Only t.reports) (Only t.reports))
    (h : o.Agrees (SameReports t) o') : o.Agrees (Thinned t.reports) o' := by
  have honly : ∀ {s : State}, (∃ v, s.events = before ++ v ∧ Only t.reports v) →
      Only t.reports s.recorder.events := by
    rintro s ⟨v, hv, hadded⟩
    have hevents : s.recorder.events = before ++ v := hv
    rw [hevents]
    exact (Eval.language_only t.reports).append hbefore hadded
  cases o with
  | done _ _ | thrown _ _ =>
      rcases h with ⟨k, rfl, hk⟩
      exact ⟨k, rfl, thinned_of_only hk (honly hadds)⟩
  | fault _ _ =>
      rcases h with ⟨f, k, rfl, hk⟩
      exact ⟨f, k, rfl, thinned_of_only hk (honly hadds)⟩
  | exhausted => exact h

end

section

variable {w : Weaver} {t t' : Toggles} {u : CompilationUnit}

variable (hle : t ≤ t') (hu : Reportable u)

include hle hu

/-- A run with more reports can make them while no array contains itself. -/
theorem followed_more (cls method : String) (args : List Value) :
    Followed (Good Heap.isAcyclic) (SameReports t) fun i =>
      ((w.tracing (if i then t' else t)).program u).outcomeWhile Heap.isAcyclic cls method args := by
  apply followed_outcomeWhile_tracing (SameBut.kept _) (fun k => .refl k) .trans hu
  exact switched_of_le (Toggles.le_ite hle t.le_refl) (.inr fun _ hgood => hgood)

/-- A run with fewer reports goes the way of a run with more of them. -/
theorem followed_fewer (cls method : String) (args : List Value) :
    Followed (Good fun _ => true) (SameReports t) fun i =>
      ((w.tracing (if i then t else t')).program u).outcomeOf cls method args := by
  simp only [← Program.outcomeWhile_true]
  apply followed_outcomeWhile_tracing (SameBut.kept _) (fun k => .refl k) .trans hu
  exact switched_of_le (Toggles.le_ite t.le_refl hle) (.inl rfl)

theorem agrees_tracing {cls method : String} {args : List Value} {s : State} {k : Recorder}
    (hk : SameReports t s.recorder k)
    (hacyclic : ((w.tracing t).program u).StaysAcyclic cls method args s) :
    (((w.tracing t).program u).outcomeOf cls method args s).Agrees (SameReports t)
      (((w.tracing t').program u).outcomeOf cls method args (s.recording k)) := by
  have hmore := followed_more (w := w) hle hu cls method args s k hacyclic.1 hk
  have hfewer := followed_fewer (w := w) hle hu cls method args (s.recording k) s.recorder rfl
    hk.symm
  have hmatched := Eval.Outcome.Matched.of_within
    (((w.tracing t').program u).outcomeWhile_within Heap.isAcyclic cls method args) hmore
  change (((w.tracing t).program u).outcomeWhile Heap.isAcyclic cls method args s).Matched _ _ _
    at hmatched
  rw [hacyclic.2] at hmatched
  apply hmatched.agrees
  intro hends
  change (((w.tracing t').program u).outcomeOf cls method args (s.recording k)).Matched _ _
    (((w.tracing t).program u).outcomeOf cls method args s) at hfewer
  rw [hends] at hfewer
  exact hfewer.exhausted

end

/-- Reports are filters.  Let a unit be woven with some reports and with more of them.  Then
a call ends with the same value, with the same throwable or with a fault in both programs,
or in none.  The states that are left are the same, and the first trace is the second one
without the reports that are switched off.  The call must not put an array into itself, as
such an array cannot be reported. -/
theorem fewer_reports_filter_trace {w : Weaver} {u : CompilationUnit}
    (hu : u.Avoids w.hooks.runtimeClass) (hr : Reportable u) {t t' : Toggles} (hle : t ≤ t')
    {fewer more : CompilationUnit} {fewerReport moreReport : UnitReport}
    (hfewer : (w.tracing t).weaveUnit u = .ok (fewer, fewerReport))
    (hmore : (w.tracing t').weaveUnit u = .ok (more, moreReport)) {cls method : String}
    {args : List Value} {s : State} {k : Recorder} (hk : Thinned t.reports s.recorder k)
    (hacyclic : (⟨fewer, w.hooks.runtimeClass⟩ : Program).StaysAcyclic cls method args s) :
    ∃ bound, ∀ steps ≥ bound,
      ((⟨fewer, w.hooks.runtimeClass⟩ : Program).call steps cls method args s).Agrees
        (Thinned t.reports)
        ((⟨more, w.hooks.runtimeClass⟩ : Program).call steps cls method args (s.recording k)) := by
  have hfewerProgram : (⟨fewer, w.hooks.runtimeClass⟩ : Program) = (w.tracing t).program u :=
    weaveUnit_ok hfewer _
  have hmoreProgram : (⟨more, w.hooks.runtimeClass⟩ : Program) = (w.tracing t').program u :=
    weaveUnit_ok hmore _
  rw [hfewerProgram] at hacyclic ⊢
  rw [hmoreProgram]
  rcases Program.tends_call ((w.tracing t).program u) cls method args s with ⟨N, hN⟩
  rcases Program.tends_call ((w.tracing t').program u) cls method args (s.recording k) with
    ⟨N', hN'⟩
  refine ⟨max N N', fun steps hsteps => ?_⟩
  have hcall : ((w.tracing t).program u).call steps cls method args s =
      ((w.tracing t).program u).outcomeOf cls method args s := hN steps (by omega)
  have hcall' : ((w.tracing t').program u).call steps cls method args (s.recording k) =
      ((w.tracing t').program u).outcomeOf cls method args (s.recording k) := hN' steps (by omega)
  have hadds := Eval.records_call t.silences (without_program w t hu) steps cls method args s
  rw [hcall] at hadds ⊢
  rw [hcall']
  exact agrees_thinned hk.only hadds (agrees_tracing hle hr hk.sameReports hacyclic)

theorem fewer_reports_filter_trace_drain :
    drainUnit.Avoids (Weaver.ofSettings .standard).hooks.runtimeClass ∧ Reportable drainUnit ∧
    (⟨false, true, false⟩ : Toggles) ≤ ⟨true, true, true⟩ ∧
    ∃ fewer more fewerReport moreReport,
      ((Weaver.ofSettings .standard).tracing ⟨false, true, false⟩).weaveUnit drainUnit =
        .ok (fewer, fewerReport) ∧
      ((Weaver.ofSettings .standard).tracing ⟨true, true, true⟩).weaveUnit drainUnit =
        .ok (more, moreReport) ∧
      (⟨fewer, (Weaver.ofSettings .standard).hooks.runtimeClass⟩ : Program).StaysAcyclic "Tank"
        "drain" [.int 5] .initial ∧
      ∃ bound, ∀ steps ≥ bound,
        ((⟨fewer, (Weaver.ofSettings .standard).hooks.runtimeClass⟩ : Program).call steps "Tank"
          "drain" [.int 5] .initial).Agrees (Thinned (Toggles.reports ⟨false, true, false⟩))
          ((⟨more, (Weaver.ofSettings .standard).hooks.runtimeClass⟩ : Program).call steps "Tank"
            "drain" [.int 5] .initial) := by
  have hu : drainUnit.Avoids (Weaver.ofSettings .standard).hooks.runtimeClass := by decide
  have hr : Reportable drainUnit := ⟨by decide, by decide, by decide⟩
  have hfewer : ∃ result, ((Weaver.ofSettings .standard).tracing ⟨false, true, false⟩).weaveUnit
      drainUnit = .ok result :=
    ⟨_, rfl⟩
  have hmore : ∃ result, ((Weaver.ofSettings .standard).tracing ⟨true, true, true⟩).weaveUnit
      drainUnit = .ok result :=
    ⟨_, rfl⟩
  rcases hfewer with ⟨⟨fewer, fewerReport⟩, hfewer⟩
  rcases hmore with ⟨⟨more, moreReport⟩, hmore⟩
  have hacyclic : (⟨fewer, (Weaver.ofSettings .standard).hooks.runtimeClass⟩ :
      Program).StaysAcyclic "Tank" "drain" [.int 5] .initial := by
    rw [weaveUnit_ok hfewer]
    exact Program.staysAcyclic_of_isDone rfl (n := 40) (by decide +kernel)
  exact ⟨hu, hr, by decide, fewer, more, fewerReport, moreReport, hfewer, hmore, hacyclic,
    fewer_reports_filter_trace hu hr (by decide) hfewer hmore ⟨rfl, rfl, rfl⟩ hacyclic⟩

/-- The second class goes by the full name of the first one. -/
def shadowUnit : CompilationUnit where
  package := some "p"
  classes :=
    [ClassDecl.empty "A",
     (ClassDecl.empty "p.A").withField ⟨"f", "int", false, some (.int 0)⟩
      |>.withMethod ((MethodDecl.procedure "run").withBody
          [.expr (.set (.field .self "f") (.int 1))])]

/-- Where a class is found in place of another one, a report can read a field that is not
there: the call ends in a fault with reports of value changes, and with a value without. -/
theorem shadowed_report_faults :
    shadowUnit.Avoids (Weaver.ofSettings .standard).hooks.runtimeClass ∧
    shadowUnit.EveryBody Arranged ∧
    (shadowUnit.EveryBody fun _ body => Stmt.EveryIn (HoldsHere Eval.ReportsOwn) body) ∧
    ¬ Eval.OwnNames shadowUnit ∧
    ∃ fewer more fewerReport moreReport,
      ((Weaver.ofSettings .standard).tracing ⟨false, true, true⟩).weaveUnit shadowUnit =
        .ok (fewer, fewerReport) ∧
      ((Weaver.ofSettings .standard).tracing ⟨true, true, true⟩).weaveUnit shadowUnit =
        .ok (more, moreReport) ∧
      (⟨fewer, (Weaver.ofSettings .standard).hooks.runtimeClass⟩ : Program).StaysAcyclic "p.p.A"
        "run" [] .initial ∧
      ((⟨fewer, (Weaver.ofSettings .standard).hooks.runtimeClass⟩ : Program).call 20 "p.p.A" "run"
        [] .initial).isDone = true ∧
      ((⟨more, (Weaver.ofSettings .standard).hooks.runtimeClass⟩ : Program).call 20 "p.p.A" "run"
        [] .initial).isFault = true := by
  have hfewer : ∃ result, ((Weaver.ofSettings .standard).tracing ⟨false, true, true⟩).weaveUnit
      shadowUnit = .ok result :=
    ⟨_, rfl⟩
  have hmore : ∃ result, ((Weaver.ofSettings .standard).tracing ⟨true, true, true⟩).weaveUnit
      shadowUnit = .ok result :=
    ⟨_, rfl⟩
  rcases hfewer with ⟨⟨fewer, fewerReport⟩, hfewer⟩
  rcases hmore with ⟨⟨more, moreReport⟩, hmore⟩
  refine ⟨by decide, by decide, by decide, by decide, fewer, more, fewerReport, moreReport, hfewer,
    hmore, ?_⟩
  rw [weaveUnit_ok hfewer, weaveUnit_ok hmore]
  refine ⟨Program.staysAcyclic_of_isDone rfl (n := 20) ?_, ?_, ?_⟩
  · decide +kernel
  · decide +kernel
  · decide +kernel

end Weave
end TraceWeaving
