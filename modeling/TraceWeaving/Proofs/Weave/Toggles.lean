import TraceWeaving.Proofs.Weave.Observers
import TraceWeaving.Proofs.Weave.WovenRuns

/-!
# Switching reports on and off

Reports of value changes, of returned values and of errors can be switched on and off one
by one.  A method that is woven with some of them goes the same way as the method that is
woven with others, but for these reports.
-/

namespace TraceWeaving
namespace Eval

open Code

/-- Every class of the unit is found under its own name. -/
def OwnNames (u : CompilationUnit) : Prop :=
  ∀ c ∈ u.classes, (u.class? c.name).map ClassDecl.name = some c.name

instance (u : CompilationUnit) : Decidable (OwnNames u) :=
  inferInstanceAs (Decidable (∀ c ∈ u.classes, (u.class? c.name).map ClassDecl.name = some c.name))

theorem OwnNames.ownNamed {p : Program} (h : OwnNames p.unit) (bodies : Bodies) {c : ClassDecl}
    (hc : c ∈ p.unit.classes) : OwnNamed (p.withBodies bodies) c.name := by
  rcases Option.map_eq_some_iff.mp (h c hc) with ⟨c', hc', hname⟩
  refine ⟨c'.withBodies (bodies c'), ?_, hname⟩
  rw [Program.class?_withBodies, hc']
  rfl

/-- Entry, deadline and exit may stand around any work. -/
theorem ClosedStmtHere.wrapped {ι : Type} {P : ∀ {α : Type}, (ι → Action α) → Prop}
    (h : ClosedStmtHere P) {E : ι → Evaluator} (hexec : ∀ s, P fun i => (E i).exec s)
    {errors : ι → Bool} {id : String} (hpass : ∀ t, P fun i => passOn (errors i) id t)
    (hexit : P fun _ => Action.record id .exiting) (entry : Stmt) (deadline : List Stmt)
    {inner : ι → Action Flow} (hinner : P inner) :
    P fun i => (E i).exec entry >>= ifNormal (guarding (errors i) id
      (.inScope ((E i).execAll deadline >>= ifNormal (inner i)))) := by
  have htimed : P fun i => (E i).execAll deadline >>= ifNormal (inner i) := by
    apply h.bind (h.execAll fun s _ => hexec s)
    intro flow
    cases flow with
    | normal => exact hinner
    | returned _ | broke _ | continued _ => exact h.pure _
  apply h.bind (hexec entry)
  intro flow
  cases flow with
  | normal => exact h.guarding hpass hexit (h.inScope htimed)
  | returned _ | broke _ | continued _ => exact h.pure _

namespace Comparison

open Trace (Throwable Report)

def IsFailed : Report → Prop
  | .failed _ => True
  | _ => False

variable {C : Comparison} {id : String} {errors : Bool → Bool} (herrors : C.Optional errors IsFailed)

include herrors

theorem trails_passOn {ws : List Weave.Write} (t : Throwable) :
    C.Trails ws fun i => passOn (errors i) id t := by
  have hpass : ∀ on, passOn on id t = (if on then
      (Value.throwable t).snapshot >>= fun copy => Action.record id (.failed copy)
      else pure ()) >>= fun _ => Action.raiseValue t := by
    intro on
    cases on with
    | false => rfl
    | true => rfl
  simp only [hpass]
  exact (C.closed_trails ws).bind (trails_copy herrors .failed (fun _ => trivial) id _)
    fun _ => (C.closed_trails ws).raise t

end Comparison
end Eval

namespace Weave

open Code
open Eval (Evaluator Action Value Flow Program Comparison ReportsOwn ReportsHere Watch observer
  returnRule reportWrites Followed Good SameBut SameEnd)

structure Toggles where
  changes : Bool
  returns : Bool
  errors : Bool
  deriving DecidableEq

def Weaver.tracing (w : Weaver) (t : Toggles) : Weaver :=
  { w with settings := { w.settings with
      traceChanges := t.changes
      traceReturns := t.returns
      traceErrors := t.errors } }

/-! ## Runs over given code -/

/-- An observed run in which the code between entry and exit is given. -/
noncomputable def Weaver.runOver (w : Weaver) (s : Session) (E : Evaluator) (start : Option Expr)
    (code : List Stmt) : Action Flow :=
  w.activation s E start do
    reportWrites E s.id (w.startWrites start)
    (w.observing s E).execAll code

theorem observedRun_eq (w : Weaver) (s : Session) (E : Evaluator) (body : List Stmt) :
    w.observedRun s E body = w.runOver s E (splitStart s.decl body).1
      (w.observed s (splitStart s.decl body).2) :=
  rfl

theorem sameEnd_extracted {hooks : Hooks} {p : Program} {E : Evaluator} (hE : Eval.Runs p E)
    (hp : p.runtimeClass = hooks.runtimeClass) (id : String) (reported : Bool)
    (keep : Expr → Bool) (decl : MethodDecl) {body : List Stmt}
    (hbody : Stmt.EveryIn (fun s => returnsBare s = false) body) :
    SameEnd ((Eval.plain E (returnRule E id reported)).execAll (extracted keep decl body 0).1)
      ((Eval.plain E (returnRule E id reported)).execAll body) := by
  rcases extracted_cases keep decl with hpure | ⟨type, hmoved⟩
  · rw [hpure]
    exact .refl _
  · rw [hmoved]
    exact Eval.sameEnd_exchanged
      (Eval.exchanges_extractReturns (hE.handing hp id) reported keep type)
      (fun t ht => (hbody t ht).mono fun _ hbare => ⟨hbare, fun _ _ => trivial⟩) 0

/-- Without reports of value changes, they may do so in an observed run. -/
theorem runOver_extracted {w : Weaver} (hoff : w.settings.traceChanges = false) {s : Session}
    {p : Program} {E : Evaluator} (hE : Eval.Runs p E)
    (hp : p.runtimeClass = w.hooks.runtimeClass) (start : Option Expr) {body : List Stmt}
    (hbody : Stmt.EveryIn (fun s => returnsBare s = false) body) :
    w.runOver s E start (extracted Expr.isName s.decl body 0).1 = w.runOver s E start body := by
  have hcode : SameEnd ((w.observing s E).execAll (extracted Expr.isName s.decl body 0).1)
      ((w.observing s E).execAll body) := by
    unfold Weaver.observing observer
    rw [hoff]
    exact sameEnd_extracted hE hp s.id (w.reportsReturns s) Expr.isName s.decl hbody
  unfold Weaver.runOver Weaver.activation
  congr 1
  funext _
  congr 2
  congr 1
  apply SameEnd.inScope_eq
  apply SameEnd.ifNormal (.refl _)
  exact SameEnd.after _ fun _ => hcode

/-! ## Switching reports -/

section

variable {C : Comparison} {w : Weaver} {s : Session} {t : Bool → Toggles}

/-- The reports in which two weavers differ make no difference to the comparison. -/
structure Switched (C : Comparison) (t : Bool → Toggles) : Prop where
  changes : C.Optional (fun i => (t i).changes) Comparison.IsChanged
  returns : C.Optional (fun i => (t i).returns) Comparison.IsReturning
  errors : C.Optional (fun i => (t i).errors) Comparison.IsFailed

theorem Switched.reportsReturns (ht : Switched C t) (w : Weaver) (s : Session) :
    C.Optional (fun i => (w.tracing (t i)).reportsReturns s) Comparison.IsReturning := by
  rcases ht.returns with hsame | ⟨hoverlooks, hacyclic⟩
  · left
    exact congrArg (· && s.decl.returnsValue) hsame
  · right
    refine ⟨hoverlooks, fun hon => hacyclic ?_⟩
    exact (Bool.and_eq_true_iff.mp hon).1

variable (ht : Switched C t)

include ht

omit ht in
theorem trails_activation (herrors : C.Optional (fun i => (t i).errors) Comparison.IsFailed)
    {start : Option Expr} (hstart : ∀ e ∈ start, ReportsOwn e) {inner : Bool → Action Flow}
    (hinner : C.Trails (start.toList.flatMap writesIn) inner) :
    C.Trails [] fun i => (w.tracing (t i)).activation s C.evaluator start (inner i) := by
  have hcalls : C.Leaving (start.toList.flatMap writesIn) fun _ =>
      C.evaluator.evalEach start.toList := by
    constructor
    · exact (C.closed_trails []).evalEach fun e _ => Comparison.trails_eval e
    · exact .evalEach fun e he => Eval.leaves_eval C.runs.toHosts C.growing e
        (hstart e (Option.mem_toList.mp he))
  exact hcalls.bind fun _ => (C.closed_trails _).wrapped (fun s => Comparison.trails_exec s)
    (Comparison.trails_passOn herrors) (Comparison.trails_record s.id .exiting)
    (w.hooks.entering s.id s.decl.params) (w.deadline s) hinner

theorem trails_runOver {start : Option Expr} (hstart : ∀ e ∈ start, ReportsOwn e) {valued : Bool}
    {code : List Stmt} (hcode : Stmt.EveryIn (ReportsHere valued) code) :
    C.Trails [] fun i => (w.tracing (t i)).runOver s C.evaluator start code := by
  have hreport : ∀ i, reportWrites C.evaluator s.id ((w.tracing (t i)).startWrites start) =
      (Watch.when C.evaluator s.id (t i).changes).report (start.toList.flatMap writesIn) := by
    intro i
    unfold Weaver.startWrites Watch.when
    show reportWrites _ _ (if (t i).changes = true then _ else _) = _
    cases (t i).changes with
    | false => rfl
    | true => rfl
  apply trails_activation ht.errors hstart
  simp only [hreport]
  apply (C.closed_trails _).bind (Comparison.trails_report ht.changes _)
  intro _
  exact (Comparison.trails_observer_execAll ht.changes (ht.reportsReturns w s) hcode).of_nil

omit ht in
theorem reportsHere_extracted (keep : Expr → Bool) {decl : MethodDecl} {body : List Stmt}
    (h : Stmt.EveryIn (ReportsHere decl.returnsValue) body) (n : Nat) :
    Stmt.EveryIn (ReportsHere decl.returnsValue) (extracted keep decl body n).1 := by
  cases hvalue : decl.returnsValue with
  | false =>
      rw [extracted_of_not_returnsValue keep hvalue, ← hvalue]
      exact h
  | true =>
      have hmoved : Extractable keep (ReportsHere true) :=
        { nested := fun _ s n hs => Eval.reportsHere_of_head (head_transformNested s n) hs
          declare := fun h _ _ => h
          name := fun _ e he w hw => by
            obtain rfl := List.mem_singleton.mp he
            exact absurd hw List.not_mem_nil }
      rw [hvalue] at h
      exact extracted_every hmoved h n

omit ht in
theorem reportsHere_normalizeAll {valued : Bool} {body : List Stmt}
    (h : Stmt.EveryIn (ReportsHere valued) body) :
    Stmt.EveryIn (ReportsHere valued) (normalizeAll body) :=
  normalizeAll_every (fun _ _ he => absurd he List.not_mem_nil)
    (fun s hs => Eval.reportsHere_of_head (head_normalize s) hs) h

theorem trails_observedRun (hp : C.program.runtimeClass = w.hooks.runtimeClass)
    {body : List Stmt} (hlabels : Stmt.EveryIn LabelsHere body)
    (hown : Stmt.EveryIn (ReportsHere s.decl.returnsValue) body) :
    C.Trails [] fun i => (w.tracing (t i)).observedRun s C.evaluator body := by
  rcases splitStart_every s.decl hown with ⟨hhere, hown⟩
  have hlabels := (splitStart_every s.decl hlabels).2
  have hstart : ∀ e ∈ (splitStart s.decl body).1, ReportsOwn e :=
    fun e he => hhere e he e (List.mem_singleton_self e)
  have hnormal := reportsHere_normalizeAll hown
  have hcode := reportsHere_extracted Expr.isName hnormal 0
  simp only [observedRun_eq]
  by_cases hsame : (t false).changes = (t true).changes
  · have hobserved : ∀ i, (w.tracing (t i)).observed s (splitStart s.decl body).2 =
        (w.tracing (t false)).observed s (splitStart s.decl body).2 := by
      intro i
      unfold Weaver.observed
      show (if (t i).changes = true then _ else _) = if (t false).changes = true then _ else _
      cases i with
      | false => rfl
      | true => rw [hsame]
    simp only [hobserved]
    apply trails_runOver ht hstart
    unfold Weaver.observed
    split
    · exact hcode
    · exact hnormal
  · -- the side without reports of value changes may have its returned values in variables, too
    have hrun : ∀ i, (w.tracing (t i)).runOver s C.evaluator (splitStart s.decl body).1
        ((w.tracing (t i)).observed s (splitStart s.decl body).2) =
          (w.tracing (t i)).runOver s C.evaluator (splitStart s.decl body).1
            (extracted Expr.isName s.decl (normalizeAll (splitStart s.decl body).2) 0).1 := by
      intro i
      unfold Weaver.observed
      show (w.tracing (t i)).runOver s _ _ (if (t i).changes = true then _ else _) = _
      cases hon : (t i).changes with
      | true => rfl
      | false =>
          have hbare := (normalizeAll_tidy hlabels)
          exact (runOver_extracted (w := w.tracing (t i)) hon C.runs hp _
            fun s hs => (hbare s hs).mono fun _ htidy => returnsBare_of_normalHere htidy.1).symm
    simp only [hrun]
    exact trails_runOver ht hstart hcode

omit ht in
theorem followed_call {c : ClassDecl} (hc : Eval.OwnNamed C.program c.name) (m : MethodDecl)
    (args : List Value) {x : Bool → Action Flow} (hx : C.Trails [] x) :
    Followed (Good C.good) C.related fun i =>
      Eval.prepareCall C.evaluator c m >>= fun _ =>
        Action.inFrame (Eval.callFrame c m args) (x i) >>= Eval.resultOf := by
  have h : Eval.ClosedStmt (ι := Bool) (Followed (Good C.good) C.related) :=
    Eval.closed_followed_heap C.kept
  have hframe : Followed (Good C.good) C.related fun i =>
      Action.inFrame (Eval.callFrame c m args) (x i) := hx.inFrame hc
  exact h.bind (Comparison.followed_prepareCall c m) fun _ => h.bind hframe h.resultOf

theorem followed_observedCall (hp : C.program.runtimeClass = w.hooks.runtimeClass)
    {c : ClassDecl} (hc : Eval.OwnNamed C.program c.name) {body : List Stmt}
    (hlabels : Stmt.EveryIn LabelsHere body)
    (hown : Stmt.EveryIn (ReportsHere s.decl.returnsValue) body) (args : List Value) :
    Followed (Good C.good) C.related fun i =>
      (w.tracing (t i)).observedCall s C.evaluator c body args :=
  followed_call hc s.decl args (trails_observedRun ht hp hlabels hown)

end

/-! ## Programs -/

open Eval (Heap Kept sides)
open Trace (Recorder)

/-- The conditions on a unit under which reports can be switched: bodies are arranged,
writes that are reported go to own paths, and classes are found under their own names. -/
structure Reportable (u : CompilationUnit) : Prop where
  arranged : u.EveryBody Arranged
  own : u.EveryBody fun m body => Stmt.EveryIn (ReportsHere m.returnsValue) body
  names : Eval.OwnNames u

section

variable {w : Weaver} {u : CompilationUnit} {t : Bool → Toggles} {ok : Heap → Bool}
variable {κ : Recorder → Recorder → Prop} (hκ : Kept κ) (hrefl : ∀ k, κ k k)
variable (htrans : ∀ {k k' k''}, κ k k' → κ k' k'' → κ k k'') (hu : Reportable u)
variable (ht : ∀ p, Switched (.careful p ok hκ) t)

include hrefl htrans hu ht

theorem followed_runMethod_tracing {n : Nat}
    (hr : Evaluator.Has (Followed (Good ok) κ) (sides ⟨u, w.hooks.runtimeClass⟩
      (fun i => (w.tracing (t i)).bodies u) ok n))
    {c : ClassDecl} (hc : c ∈ u.classes) {m : MethodDecl} (hm : m ∈ c.methods)
    (args : List Value) :
    Followed (Good ok) κ fun i =>
      Eval.runMethod (sides ⟨u, w.hooks.runtimeClass⟩ (fun i => (w.tracing (t i)).bodies u) ok n i)
        c { m with body := (w.tracing (t i)).bodies u c m } args := by
  have h : Eval.ClosedStmt (ι := Bool) (Followed (Good ok) κ) := Eval.closed_followed_heap hκ
  have hsame : ∀ m : MethodDecl, Followed (Good ok) κ fun i => Eval.runMethod
      (sides ⟨u, w.hooks.runtimeClass⟩ (fun i => (w.tracing (t i)).bodies u) ok n i) c m args :=
    fun m => h.runMethod_of_has hr c m args
  cases hdec : w.decide (w.session u c m) with
  | skip reason =>
      have hbodies : ∀ t, (w.tracing t).bodies u c m = m.body := by
        intro t
        unfold Weaver.bodies
        rw [show (w.tracing t).decide ((w.tracing t).session u c m) = _ from hdec]
      simp only [hbodies]
      exact hsame m
  | weave =>
      obtain ⟨body, hbody⟩ : ∃ body, m.body = some body := Weaver.body_of_decide hdec
      have hmem : body ∈ m.body.toList := Option.mem_toList.mpr hbody
      have hbodies : ∀ t, (w.tracing t).bodies u c m =
          some ((w.tracing t).bodyOf (w.session u c m) body) := by
        intro t
        unfold Weaver.bodies
        rw [show (w.tracing t).decide ((w.tracing t).session u c m) = _ from hdec, hbody]
        rfl
      let C : Comparison := .careful ((⟨u, w.hooks.runtimeClass⟩ : Program).withBodies
        ((w.tracing (t true)).bodies u)) ok hκ
      have harranged := hu.arranged c hc m hm body hmem
      have hrun : ∀ i, Eval.runMethod C.evaluator c
          { m with body := some ((w.tracing (t i)).bodyOf (w.session u c m) body) } args =
            (w.tracing (t i)).observedCall (w.session u c m) C.evaluator c body args :=
        fun i => runMethod_bodyOf (w := w.tracing (t i)) (s := w.session u c m) C.runs rfl c
          harranged.1 harranged.2 args
      have hown : Eval.OwnNamed C.program c.name := hu.names.ownNamed _ hc
      have hobserved : Followed (Good ok) κ fun i => Eval.runMethod C.evaluator c
          { m with body := some ((w.tracing (t i)).bodyOf (w.session u c m) body) } args := by
        simp only [hrun]
        exact followed_observedCall (ht _) rfl hown harranged.1 (hu.own c hc m hm body hmem) args
      -- the bounded run is followed by the unbounded one first, and then the reports change
      have hunbounded := hsame
        { m with body := some ((w.tracing (t false)).bodyOf (w.session u c m) body) }
      simp only [hbodies]
      intro s k hs hk
      exact (hunbounded s k hs hk).trans (hobserved (s.recording k) k hs (hrefl k)) htrans

theorem followed_outcomeWhile_tracing (cls method : String) (args : List Value) :
    Followed (Good ok) κ fun i =>
      ((w.tracing (t i)).program u).outcomeWhile ok cls method args :=
  Eval.followed_outcomeWhile hκ ⟨u, w.hooks.runtimeClass⟩
    (fun i => (w.tracing (t i)).bodies u) ok
    (fun _ hr _ hc _ hm args _ => followed_runMethod_tracing hκ hrefl htrans hu ht hr hc hm args)
    cls method args

end

end Weave
end TraceWeaving
