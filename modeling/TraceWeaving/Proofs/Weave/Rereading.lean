import TraceWeaving.Proofs.Weave.Toggles

/-!
# Reading reported places again

The report of a write reads the written place once more, when the statement has gone on or
is over.  A wary tracer tries this out first and goes astray where the place cannot be read,
or where reading it changes anything.  It never does so where writes go to own paths.  Other
paths are found through a variable, which may hold something else by then.
-/

namespace TraceWeaving
namespace Eval

open Code
open Weave (Write)

/-- A written place has a value, and reading it changes nothing. -/
def ReadsBack (E : Evaluator) (s : State) (w : Write) : Prop :=
  ∃ value, E.eval w.target s = .done value s

open Classical in
/-- Records the values of written places, and ends in a stray state in front of a place that
does not read back. -/
noncomputable def reportWarily (E : Evaluator) (id : String) (stray : State → State) :
    List Write → Action Unit
  | [] => pure ()
  | w :: rest => fun s =>
      if ReadsBack E s w then
        (reportWrites E id [w] >>= fun _ => reportWarily E id stray rest) s
      else .fault (.invalidTarget w.path) (stray s)

noncomputable def Watch.wary (E : Evaluator) (id : String) (stray : State → State) : Watch :=
  { Watch.reporting E id with report := reportWarily E id stray }

section

variable {E : Evaluator} (hE : E.Growing) (id : String) (stray : State → State)

include hE

theorem grows_reportWrites (ws : List Write) : Grows (reportWrites E id ws) :=
  closed_grows.reportWrites (r := fun _ => E) hE.eval (fun id report => .receive id report) id ws

theorem grows_reportWarily (ws : List Write) : Grows (reportWarily E id stray ws) := by
  induction ws with
  | nil => exact .pure ()
  | cons w rest ih =>
      intro s
      have hgoOn := (grows_reportWrites hE id [w]).bind fun _ => ih
      unfold reportWarily
      split
      · exact hgoOn s
      · trivial

theorem reportWarily_of_shows {p : Program} (hp : Hosts p E) {s : State}
    (hown : OwnNamed p s.frame.cls) {ws : List Write} (hshows : s.Shows ws) :
    reportWarily E id stray ws s = reportWrites E id ws s := by
  induction ws generalizing s with
  | nil => rfl
  | cons w rest ih =>
      have hreads : ReadsBack E s w := hp.eval_readable hown (hshows w List.mem_cons_self)
      have hgrown := grows_reportWrites hE id [w] s
      have hcons : reportWrites E id (w :: rest) s =
          (reportWrites E id [w] >>= fun _ => reportWrites E id rest) s := by
        rw [← reportWrites_append, List.singleton_append]
      rw [hcons]
      unfold reportWarily
      rw [if_pos hreads]
      -- the report of the first place takes nothing away from the others
      show Action.bind _ _ s = Action.bind _ _ s
      unfold Action.bind
      cases ho : reportWrites E id [w] s with
      | done a s' =>
          rw [ho] at hgrown
          apply ih
          · rw [hgrown.cls]
            exact hown
          · exact State.Shows.grown (fun w hw => hshows w (List.mem_cons_of_mem _ hw)) hgrown
      | thrown _ _ | fault _ _ | exhausted => rfl

end

namespace Comparison

variable (C : Comparison) (id : String) (stray : State → State)

theorem watching_wary (wary : Bool → Bool) :
    C.Watching fun i =>
      if wary i then .wary C.evaluator id stray else .reporting C.evaluator id := by
  intro ws
  have hreport : ∀ {s : State}, OwnNamed C.program s.frame.cls → s.Shows ws → ∀ i,
      (if wary i then Watch.wary C.evaluator id stray
        else .reporting C.evaluator id).report ws s = reportWrites C.evaluator id ws s := by
    intro s hown hshows i
    cases wary i with
    | false => rfl
    | true => exact reportWarily_of_shows C.growing id stray C.runs.toHosts hown hshows
  constructor
  · intro i
    beta_reduce
    cases wary i with
    | false => exact grows_reportWrites C.growing id ws
    | true => exact grows_reportWarily C.growing id stray ws
  · intro s k hs hshows hk
    have htrails : C.Trails ws fun i => (Watch.when C.evaluator id ((fun _ => true) i)).report ws :=
      trails_report (.inl rfl) ws
    have hshows' : (s.recording k).Shows ws := hshows
    rw [hreport hs.2 hshows, hreport (s := s.recording k) hs.2 hshows']
    exact htrails.matched s k hs hshows hk

end Comparison

/-- Tracers of code that writes to own paths do the same, wary or not. -/
theorem agrees_wary {p : Program} {valued : Bool} {body : List Stmt}
    (hbody : Stmt.EveryIn (ReportsHere valued) body) (id : String)
    (stray : State → State) {s : State} (hs : OwnNamed p s.frame.cls) :
    ((tracer p.meaning id p.meaning.eval).execAll body s).Agrees Eq
      ((tracedRules p.meaning (.wary p.meaning id stray) p.meaning.eval).meaning.execAll
        body s) := by
  let C : Comparison := .careful p (fun _ => true) kept_eq
  have hC : C.evaluator = p.meaning := congrArg Rules.meaning p.careful_true
  have hreturn : ∀ value, C.Trails [] fun _ => C.evaluator.eval value :=
    fun value => Comparison.trails_eval value
  have hmatched : ∀ wary : Bool → Bool, Outcome.Matched C.proviso Eq
      ((tracedRules C.evaluator (if wary false then .wary C.evaluator id stray
        else .reporting C.evaluator id) C.evaluator.eval).meaning.execAll body s)
      ((tracedRules C.evaluator (if wary true then .wary C.evaluator id stray
        else .reporting C.evaluator id) C.evaluator.eval).meaning.execAll body s) := fun wary =>
    (Comparison.trails_tracer_execAll (C.watching_wary id stray wary) hreturn hbody).to_followed
      s s.recorder ⟨rfl, hs⟩ rfl
  have hforth := hmatched fun i => i
  have hback := hmatched fun i => !i
  rw [hC] at hforth hback
  exact hforth.agrees_of_matched hback

end Eval

namespace Weave

open Code
open Eval (Program State ReportsHere OwnNamed)

/-- Reported places can be read again.  Let all writes that a body reports go to own paths.
Then executing the body with its reports of value changes is tracing the body with a wary
tracer, wherever that one would end when it goes astray.  So it never does: at every report
that is reached, reading the place gives a value and leaves the state as it is. -/
theorem own_places_read_back {w : Weaver} {s : Session} (hon : w.settings.traceChanges = true)
    {p : Program} (hp : p.runtimeClass = w.hooks.runtimeClass) {body : List Stmt}
    (hlabels : Stmt.EveryIn LabelsHere body)
    (hown : Stmt.EveryIn (ReportsHere s.decl.returnsValue) body)
    {st : State} (hst : OwnNamed p st.frame.cls) (stray : State → State) :
    ∃ bound, ∀ steps ≥ bound,
      ((p.evaluator steps).execAll (w.changed s (normalizeAll body) 0).1 st).Agrees Eq
        ((Eval.tracedRules p.meaning (.wary p.meaning s.id stray) p.meaning.eval).meaning.execAll
          (extracted Expr.isName s.decl (normalizeAll body) 0).1 st) := by
  have hE := Eval.runs_meaning p
  have hcode : p.meaning.execAll (w.changed s (normalizeAll body) 0).1 =
      (Eval.tracer p.meaning s.id p.meaning.eval).execAll
        (extracted Expr.isName s.decl (normalizeAll body) 0).1 := by
    have htidy : Stmt.EveryIn Tidy (extracted Expr.isName s.decl (normalizeAll body) 0).1 :=
      extracted_every (extractable_tidy _) (normalizeAll_tidy hlabels) 0
    have hchanged := Eval.execAll_reportChanges (hE.reporting hE.passes hp s.id) hE.passes htidy
      (extracted Expr.isName s.decl (normalizeAll body) 0).2
    rw [hE.plain] at hchanged
    unfold Weaver.changed
    rw [hon]
    exact hchanged
  have htends := Eval.closed_tends.execAll_of_has p.has_tends (w.changed s (normalizeAll body) 0).1
  rcases htends st with ⟨bound, hbound⟩
  refine ⟨bound, fun steps hsteps => ?_⟩
  have hrun : (p.evaluator steps).execAll (w.changed s (normalizeAll body) 0).1 st =
      p.meaning.execAll (w.changed s (normalizeAll body) 0).1 st := hbound steps hsteps
  rw [hrun, hcode]
  exact Eval.agrees_wary (reportsHere_extracted _ (reportsHere_normalizeAll hown) 0) s.id stray hst

theorem own_places_read_back_drain :
    ∃ body, drainMethod.body = some body ∧ Stmt.EveryIn LabelsHere body ∧
      Stmt.EveryIn (ReportsHere drainMethod.returnsValue) body ∧
      ∀ stray, ∃ bound, ∀ steps ≥ bound,
        (((⟨drainUnit, Settings.standard.runtimeClass⟩ : Program).evaluator steps).execAll
          ((Weaver.ofSettings .standard).changed ((Weaver.ofSettings .standard).session drainUnit
            drainClass drainMethod) (normalizeAll body) 0).1
          (State.initial.pushFrame (Eval.callFrame drainClass drainMethod [.int 5]))).Agrees Eq
          ((Eval.tracedRules (⟨drainUnit, Settings.standard.runtimeClass⟩ : Program).meaning
            (.wary (⟨drainUnit, Settings.standard.runtimeClass⟩ : Program).meaning
              ((Weaver.ofSettings .standard).session drainUnit drainClass drainMethod).id stray)
            (⟨drainUnit, Settings.standard.runtimeClass⟩ : Program).meaning.eval).meaning.execAll
              (extracted Expr.isName drainMethod (normalizeAll body) 0).1
              (State.initial.pushFrame (Eval.callFrame drainClass drainMethod [.int 5]))) := by
  have hlabels : ∃ body, drainMethod.body = some body ∧ Stmt.EveryIn LabelsHere body ∧
      Stmt.EveryIn (ReportsHere drainMethod.returnsValue) body :=
    ⟨_, rfl, by decide, by decide⟩
  rcases hlabels with ⟨body, hbody, hlabels, hown⟩
  refine ⟨body, hbody, hlabels, hown, fun stray => ?_⟩
  exact own_places_read_back rfl rfl hlabels hown ⟨drainClass, rfl, rfl⟩ stray

/-- A field is written through a parameter that changes before the report. -/
def staleMethod : MethodDecl :=
  (MethodDecl.procedure "reset").withParam "node" "Node" |>.withBody
    [.expr (.set (.field (.name "node") "size")
      (.conditional (.binary .eq (.set (.name "node") .null) .null) (.int 1) (.int 2)))]

def staleUnit : CompilationUnit where
  package := none
  classes :=
    [(ClassDecl.empty "Node").withField ⟨"size", "int", false, some (.int 0)⟩
      |>.withMethod staleMethod]

/-- Where a place is found through a variable, its report can throw: the variable no longer
holds the object when the field is read again. -/
theorem stale_place_throws :
    (staleUnit.EveryBody fun _ body => Stmt.EveryIn LabelsHere body) ∧
    ((⟨staleUnit, Settings.standard.runtimeClass⟩ : Program).call 20 "Node" "reset"
      [.object "Node"] .initial).isDone = true ∧
    ∃ woven report, (Weaver.ofSettings .standard).weaveUnit staleUnit = .ok (woven, report) ∧
      thrownClass? ((⟨woven, Settings.standard.runtimeClass⟩ : Program).call 20 "Node" "reset"
        [.object "Node"] .initial) = some "NullPointerException" := by
  have hwoven : ∃ result, (Weaver.ofSettings .standard).weaveUnit staleUnit = .ok result :=
    ⟨_, rfl⟩
  rcases hwoven with ⟨⟨woven, report⟩, hwoven⟩
  refine ⟨by decide, by decide +kernel, woven, report, hwoven, ?_⟩
  rw [weaveUnit_ok hwoven]
  decide +kernel

end Weave
end TraceWeaving
