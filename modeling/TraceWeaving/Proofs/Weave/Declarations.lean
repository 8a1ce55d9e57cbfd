import TraceWeaving.Proofs.Weave.NormalForm
import TraceWeaving.Proofs.Weave.Refusal

/-!
# What weaving leaves alone

A pass changes the body of a method and the number of the next fresh name, and nothing else
of the method.  Whether a pass takes part depends on the markers, the kind of the method and
the settings, so it is the same for the declaration as it was written and for the one that
the earlier passes left behind.  A unit therefore keeps all of its declarations, and the
report names the passes that the original declarations ask for.
-/

namespace TraceWeaving
namespace Weave

open Code

/-! ## One pass -/

/-- The sessions agree, apart from the body and the number of the next fresh name. -/
structure Session.SameApart (s s' : Session) : Prop where
  className : s'.className = s.className
  classMarkers : s'.classMarkers = s.classMarkers
  markers : s'.markers = s.markers
  decl : s'.decl = { s.decl with body := s'.decl.body }

namespace Session.SameApart

theorem refl (s : Session) : s.SameApart s :=
  ⟨rfl, rfl, rfl, rfl⟩

theorem trans {s s' s'' : Session} (h : s.SameApart s') (h' : s'.SameApart s'') :
    s.SameApart s'' where
  className := h'.className.trans h.className
  classMarkers := h'.classMarkers.trans h.classMarkers
  markers := h'.markers.trans h.markers
  decl := by
    rw [h'.decl, h.decl]

theorem withBody (s : Session) (body : List Stmt) : s.SameApart (s.withBody body) :=
  ⟨rfl, rfl, rfl, rfl⟩

theorem naming (s : Session) (work : Naming (List Stmt)) : s.SameApart (s.naming work) :=
  ⟨rfl, rfl, rfl, rfl⟩

end Session.SameApart

theorem Pass.sameApart_of_run {pass : Pass} {hooks : Hooks} {s s' : Session}
    (h : pass.run hooks s = .ok s') : s.SameApart s' := by
  cases pass with
  | normalize =>
      rcases ok_of_bind_ok h with ⟨body, _, h⟩
      rcases ok_of_bind_ok h with ⟨normal, _, h⟩
      cases h
      exact .withBody s normal
  | changes =>
      rcases ok_of_bind_ok h with ⟨body, _, h⟩
      rcases ok_of_bind_ok h with ⟨work, _, h⟩
      rcases ok_of_bind_ok h with ⟨extracted, _, h⟩
      cases h
      exact (Session.SameApart.naming s work).trans (.naming (s.naming work) _)
  | entryExit =>
      rcases ok_of_bind_ok h with ⟨body, _, h⟩
      cases h
      exact .withBody s _
  | returns =>
      simp only [Pass.run] at h
      split at h
      · rcases ok_of_bind_ok h with ⟨body, _, h⟩
        rcases ok_of_bind_ok h with ⟨work, _, h⟩
        rcases ok_of_bind_ok h with ⟨extracted, _, h⟩
        cases h
        exact (Session.SameApart.naming s work).trans (.withBody (s.naming work) _)
      · cases h
        exact .refl s
  | timeout =>
      simp only [Pass.run] at h
      split at h
      · rcases ok_of_bind_ok h with ⟨body, _, h⟩
        rcases ok_of_bind_ok h with ⟨timed, _, h⟩
        cases h
        exact .withBody s timed
      · cases h
        exact .refl s
  | errors =>
      rcases ok_of_bind_ok h with ⟨body, _, h⟩
      rcases ok_of_bind_ok h with ⟨guarded, _, h⟩
      cases h
      exact .withBody s guarded
  | delegation =>
      simp only [Pass.run] at h
      split at h
      · rcases ok_of_bind_ok h with ⟨body, _, h⟩
        cases h
        exact .withBody s _
      · cases h
        exact .refl s

/-- Whether a pass takes part does not depend on what earlier passes did to the method. -/
theorem Session.SameApart.applies_eq {s s' : Session} (h : s.SameApart s') (pass : Pass)
    (settings : Settings) : pass.applies settings s' = pass.applies settings s := by
  cases pass with
  | normalize | changes | entryExit | returns | errors => rfl
  | timeout => exact congrArg (fun markers => markers.timeout.isSome) h.markers
  | delegation =>
      have hkind : s'.decl.isConstructor = s.decl.isConstructor := by
        rw [h.decl]
        rfl
      exact hkind

/-! ## A method -/

theorem runPasses_sameApart {w : Weaver} {passes : List Pass} {s s' : Session}
    (h : w.runPasses passes s = .ok s') : s.SameApart s' := by
  induction passes generalizing s with
  | nil =>
      cases h
      exact .refl _
  | cons pass rest ih =>
      unfold Weaver.runPasses at h
      split at h
      · rename_i next hrun
        exact (Pass.sameApart_of_run hrun).trans (ih h)
      · cases h

/-- Runs passes one after the other, and decides whether a pass takes part only when its turn
comes.  The second part of the result are the passes that took part. -/
def Weaver.runInTurn (w : Weaver) : List Pass → Session → Except Failure (Session × List Pass)
  | [], s => .ok (s, [])
  | pass :: rest, s =>
      if pass.applies w.settings s then
        match pass.run w.hooks s with
        | .ok next => do
            let (last, applied) ← runInTurn w rest next
            return (last, pass :: applied)
        | .error defect => .error (.defective s.className s.decl.name pass defect)
      else runInTurn w rest s

/-- Deciding about each pass in its turn comes to the same as deciding about all of them on
the declaration as it was written. -/
theorem runInTurn_eq (w : Weaver) {s s' : Session} (h : s.SameApart s') (passes : List Pass) :
    w.runInTurn passes s' =
      (w.runPasses (passes.filter fun pass => pass.applies w.settings s) s').map
        fun last => (last, passes.filter fun pass => pass.applies w.settings s) := by
  induction passes generalizing s' with
  | nil => rfl
  | cons pass rest ih =>
      unfold Weaver.runInTurn
      rw [h.applies_eq]
      by_cases ha : pass.applies w.settings s = true
      · rw [if_pos ha, List.filter_cons_of_pos (by simpa using ha), Weaver.runPasses]
        cases hrun : pass.run w.hooks s' with
        | error defect => rfl
        | ok next =>
            have hnext := ih (h.trans (Pass.sameApart_of_run hrun))
            show (w.runInTurn rest next >>= fun result => .ok (result.1, pass :: result.2)) =
              (w.runPasses (rest.filter fun pass => pass.applies w.settings s) next).map _
            rw [hnext]
            cases w.runPasses (rest.filter fun pass => pass.applies w.settings s) next <;> rfl
      · rw [if_neg ha, List.filter_cons_of_neg (by simpa using ha)]
        exact ih h

/-- What the report says about a method: why it is skipped, or the passes that apply to it as
it was written. -/
def Weaver.outcomeOf (w : Weaver) (s : Session) : Outcome :=
  match w.decide s with
  | .skip reason => .skipped reason
  | .weave => .woven (Pass.canonical.filter fun pass => pass.applies w.settings s)

/-- A method after weaving: the same declaration, whose body was rewritten by the passes in
their turn, or not at all. -/
structure Weaver.Weaves (w : Weaver) (s : Session) (m' : MethodDecl) : Prop where
  decl : m' = { s.decl with body := m'.body }
  skipped : ∀ reason, w.decide s = .skip reason → m'.body = s.decl.body
  woven : w.decide s = .weave → ∃ last, m'.body = last.decl.body ∧
    w.runInTurn Pass.canonical s =
      .ok (last, Pass.canonical.filter fun pass => pass.applies w.settings s)

theorem weaves_of_weaveMethod {w : Weaver} {s : Session} {result : MethodDecl × MethodReport}
    (h : w.weaveMethod s = .ok result) :
    w.Weaves s result.1 ∧ result.2 = ⟨s.className, s.decl.name, w.outcomeOf s⟩ := by
  rcases weaveMethod_cases h with ⟨reason, hskip, hd, hr⟩ | ⟨hweave, body, last, -, hlast, hd, hr⟩
  · refine ⟨⟨by rw [hd], fun _ _ => by rw [hd], fun hweave => ?_⟩, ?_⟩
    · exact nomatch hskip.symm.trans hweave
    · rw [hr, Weaver.outcomeOf, hskip]
  · refine ⟨⟨?_, fun _ hskip => ?_, fun _ => ⟨last, by rw [hd], ?_⟩⟩, ?_⟩
    · rw [hd]
      exact (runPasses_sameApart hlast).decl
    · exact nomatch hweave.symm.trans hskip
    · rw [runInTurn_eq w (.refl s)]
      rw [Weaver.passesFor] at hlast
      rw [hlast]
      rfl
    · rw [hr, Weaver.outcomeOf, hweave]
      rfl

/-! ## A unit -/

structure Weaver.WeavesClass (w : Weaver) (u : CompilationUnit) (c c' : ClassDecl) : Prop where
  decl : c' = { c with methods := c'.methods }
  methods : List.Forall₂ (fun m m' => w.Weaves (w.session u c m) m') c.methods c'.methods

def Weaver.entriesOf (w : Weaver) (u : CompilationUnit) (c : ClassDecl) : List MethodReport :=
  c.methods.map fun m => ⟨u.qualifiedName c, m.name, w.outcomeOf (w.session u c m)⟩

theorem weavesClass_of_weaveClass {w : Weaver} {u : CompilationUnit} {c : ClassDecl}
    {result : ClassDecl × List MethodReport} (h : w.weaveClass u c = .ok result) :
    w.WeavesClass u c result.1 ∧ result.2 = w.entriesOf u c := by
  rcases ok_of_bind_ok h with ⟨results, hresults, h⟩
  cases h
  constructor
  · refine ⟨rfl, ?_⟩
    show List.Forall₂ _ c.methods (results.map Prod.fst)
    rw [List.forall₂_map_right_iff]
    exact (mapM_eq_ok_iff.mp hresults).imp fun m result hm => (weaves_of_weaveMethod hm).1
  · exact mapM_map_ok Prod.snd (fun m result hm => (weaves_of_weaveMethod hm).2) hresults

theorem woven_add_skipped (report : UnitReport) :
    report.woven + report.skipped = report.methods.length := by
  have hle : report.woven ≤ report.methods.length := List.countP_le_length
  unfold UnitReport.skipped
  omega

/-- Weaving changes the bodies of selected methods only, and its report is true.  The unit
that comes out has the same package and the same classes with the same methods, in the same
order and declared alike; a method that is skipped also keeps its body, and any other has
the body that the passes leave when each is decided about in its turn.  The report has one
entry for every method in the order of the declarations: the reason to skip it, or the
passes that apply to the method as it was written, which are those that ran. -/
theorem weaving_keeps_declarations {w : Weaver} {u u' : CompilationUnit} {report : UnitReport}
    (h : w.weaveUnit u = .ok (u', report)) :
    u' = { u with classes := u'.classes } ∧
      List.Forall₂ (w.WeavesClass u) u.classes u'.classes ∧
      report.methods = (methodsOf u).map (fun cm =>
        ⟨u.qualifiedName cm.1, cm.2.name, w.outcomeOf (w.session u cm.1 cm.2)⟩) ∧
      report.woven + report.skipped = (methodsOf u).length := by
  rcases ok_of_bind_ok h with ⟨results, hresults, h⟩
  cases h
  have hmethods : (results.map Prod.snd).flatten = (methodsOf u).map (fun cm =>
      ⟨u.qualifiedName cm.1, cm.2.name, w.outcomeOf (w.session u cm.1 cm.2)⟩) := by
    have hentries : results.map Prod.snd = u.classes.map (w.entriesOf u) :=
      mapM_map_ok Prod.snd (fun c result hc => (weavesClass_of_weaveClass hc).2) hresults
    rw [hentries, ← List.flatMap_def, methodsOf, List.map_flatMap]
    simp only [List.map_map]
    rfl
  refine ⟨rfl, ?_, hmethods, ?_⟩
  · show List.Forall₂ _ u.classes (results.map Prod.fst)
    rw [List.forall₂_map_right_iff]
    exact (mapM_eq_ok_iff.mp hresults).imp fun c result hc => (weavesClass_of_weaveClass hc).1
  · rw [woven_add_skipped]
    show (results.map Prod.snd).flatten.length = _
    rw [hmethods, List.length_map]

def cart : CompilationUnit where
  package := some "shop"
  classes := [ClassDecl.empty "Cart"
    |>.withMethod ((MethodDecl.procedure "total").returning "int"
      |>.withBody [.retValue (.lit (.int 3))])
    |>.withMethod { MethodDecl.procedure "debug" with annotations := [.marker "Exclude"] }
    |>.withMethod ((MethodDecl.procedure "price").returning "int").withoutBody]

theorem weaving_keeps_declarations_cart : ∃ u' report,
    (Weaver.ofSettings .standard).weaveUnit cart = .ok (u', report) ∧
      List.Forall₂ ((Weaver.ofSettings .standard).WeavesClass cart) cart.classes u'.classes ∧
      report.methods =
        [⟨"shop.Cart", "total", .woven [.normalize, .changes, .entryExit, .returns, .errors]⟩,
          ⟨"shop.Cart", "debug", .skipped .excluded⟩,
          ⟨"shop.Cart", "price", .skipped .noBody⟩] ∧
      report.woven + report.skipped = 3 := by
  have hw : ∃ result, (Weaver.ofSettings .standard).weaveUnit cart = .ok result := ⟨_, rfl⟩
  rcases hw with ⟨⟨u', report⟩, hw⟩
  rcases weaving_keeps_declarations hw with ⟨_, hclasses, hmethods, hcount⟩
  exact ⟨u', report, hw, hclasses, hmethods.trans (by decide), hcount⟩

end Weave
end TraceWeaving
