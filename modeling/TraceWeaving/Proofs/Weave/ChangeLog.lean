import TraceWeaving.Proofs.Weave.Chronicle
import TraceWeaving.Proofs.Weave.Meaning

/-!
# The log of value changes

The former body of a method, in normal form and with returned values in variables, is
executed once more in the program as it was, and this time nothing is recorded but the
values of written places, at the moments at which a tracer reports them.  The places are
looked at and not evaluated, so the log has no part in the run.  It is what the woven
activation reports directly about value changes.
-/

namespace TraceWeaving
namespace Eval

open Code
open Code.Stmt (HoldsHere ScopesHere)
open Trace (Event Recorder Bracketed directChanges)
open Weave (Write writesIn extracted normalizeAll)

variable {α : Type}

/-! ## Looking at written places -/

/-- Records the value of a written place, if it has one that can be copied. -/
def State.noting (s : State) (id : String) (k : Recorder) (w : Write) : Recorder :=
  match (s.valueAt? w.target).bind s.heap.snapshot? with
  | some copy => k.receive id (.changed w.path copy)
  | none => k

/-- Writes are observed: nothing but the recorder changes, and no observation fails. -/
def Watch.observing (id : String) : Watch where
  report writes := Action.modify fun s => s.recording (writes.foldl (s.noting id) s.recorder)
  testName operation _ := operation

theorem kept_noting {κ : Recorder → Recorder → Prop} (hκ : Kept κ) (s : State) (id : String)
    (writes : List Write) {k k' : Recorder} (hk : κ k k') :
    κ (writes.foldl (s.noting id) k) (writes.foldl (s.noting id) k') := by
  induction writes generalizing k k' with
  | nil => exact hk
  | cons w rest ih =>
      apply ih
      unfold State.noting
      split
      · exact hκ.receive hk id _
      · exact hk

theorem Grows.observing (id : String) (writes : List Write) :
    Grows ((Watch.observing id).report writes) :=
  .modify (Grows.of_same fun _ => ⟨rfl, rfl, rfl⟩)

theorem reportWrites_of_shows {p : Program} {E : Evaluator} (hE : Hosts p E) (id : String)
    {s : State} (hown : OwnNamed p s.frame.cls) (hacyclic : s.heap.isAcyclic = true)
    {writes : List Write} (hshows : s.Shows writes) :
    reportWrites E id writes s = (Watch.observing id).report writes s := by
  show _ = Outcome.done () (s.recording (writes.foldl (s.noting id) s.recorder))
  induction writes generalizing s with
  | nil => rfl
  | cons w rest ih =>
      rcases Option.isSome_iff_exists.mp (hshows w List.mem_cons_self) with ⟨value, hvalue⟩
      rcases Heap.snapshot?_of_isAcyclic hacyclic value with ⟨copy, hcopy⟩
      have hread : E.eval w.target s = .done value s := hE.eval_of_valueAt? hown hvalue
      have hsnapshot : value.snapshot s = .done copy s := by
        show Action.orDiverge (s.heap.snapshot? value) s = _
        rw [hcopy]
        rfl
      have hnoted : s.noting id s.recorder w = s.recorder.receive id (.changed w.path copy) := by
        unfold State.noting
        rw [hvalue, Option.bind_some, hcopy]
      have hrest := ih (s := s.recording (s.noting id s.recorder w)) hown hacyclic
        fun w hw => hshows w (List.mem_cons_of_mem _ hw)
      unfold reportWrites
      rw [Action.bind_of_eq_done hread, Action.bind_of_eq_done hsnapshot]
      show reportWrites E id rest (s.recording (s.recorder.receive id (.changed w.path copy))) = _
      rw [← hnoted, hrest]
      rfl

namespace Comparison

variable {C : Comparison}

theorem watching_observing (hgood : ∀ heap, C.good heap = true → heap.isAcyclic = true)
    (id : String) :
    C.Watching fun i => if i then .observing id else .reporting C.evaluator id := by
  intro writes
  constructor
  · intro i
    cases i with
    | false =>
        exact closed_grows.reportWrites (r := fun _ => C.evaluator) C.growing.eval
          (fun id report => .receive id report) id writes
    | true => exact .observing id writes
  · intro s k hs hshows hk
    have hreport : reportWrites C.evaluator id writes s = (Watch.observing id).report writes s :=
      reportWrites_of_shows C.runs.toHosts id hs.2 (hgood s.heap hs.1) hshows
    show Outcome.Matched C.proviso C.related (reportWrites C.evaluator id writes s)
      ((Watch.observing id).report writes (s.recording k))
    rw [hreport]
    exact ⟨hs, _, rfl, kept_noting C.kept s id writes hk⟩

theorem watching_idle (hrelated : ∀ k k', C.related k k') (id : String) :
    C.Watching fun i => if i then .idle else .observing id := by
  intro writes
  constructor
  · intro i
    cases i with
    | false => exact .observing id writes
    | true => exact .pure ()
  · exact fun s k hs _ _ => ⟨hs, k, rfl, hrelated _ _⟩

end Comparison

/-! ## Words and logs -/

def ChangesWhole (id : String) (w v : List Event) : Prop :=
  Bracketed (some id) w ∧ directChanges w = v

def ChangesIn (w v : List Event) : Prop :=
  directChanges w = v

/-- What was recorded since the given events reports directly the changes of the log. -/
def ChangesLogged (before : List Event) (k k' : Recorder) : Prop :=
  ∃ w, k.events = before ++ w ∧ directChanges w = k'.events

theorem chronicle_changes (id : String) : Chronicle id (ChangesWhole id) ChangesIn :=
  chronicle_direct id fun _ => .inr

theorem exists_noted (s : State) (id : String) (writes : List Write) :
    ∃ v, ChangesWhole id v v ∧
      ∀ k : Recorder, (writes.foldl (s.noting id) k).events = k.events ++ v := by
  induction writes with
  | nil => exact ⟨[], ⟨.nil, rfl⟩, fun k => (List.append_nil k.events).symm⟩
  | cons w rest ih =>
      rcases ih with ⟨v, hv, hevents⟩
      cases hcopy : (s.valueAt? w.target).bind s.heap.snapshot? with
      | none =>
          refine ⟨v, hv, fun k => ?_⟩
          have hnoted : s.noting id k w = k := by
            unfold State.noting
            rw [hcopy]
          rw [List.foldl_cons, hnoted, hevents]
      | some copy =>
          have hsingle : ChangesWhole id [.changed id w.path copy] [.changed id w.path copy] :=
            ⟨.single rfl rfl, rfl⟩
          refine ⟨.changed id w.path copy :: v, (chronicle_changes id).append hsingle hv,
            fun k => ?_⟩
          have hnoted : s.noting id k w = k.receive id (.changed w.path copy) := by
            unfold State.noting
            rw [hcopy]
          rw [List.foldl_cons, hnoted, hevents, Recorder.events_receive, List.append_assoc]
          rfl

theorem accompanied_observing (id : String) (writes : List Write) :
    Accompanied Anywhere (ChangesWhole id) ChangesIn fun _ =>
      (Watch.observing id).report writes := by
  intro s k hs
  rcases exists_noted s id writes with ⟨v, hv, hevents⟩
  exact ⟨hs, v, v, writes.foldl (s.noting id) k, hevents s.recorder, hevents k, hv, rfl⟩

/-! ## Logging runs -/

def changeRules (E : Evaluator) (id : String) : Rules :=
  tracedRules E.quiet (.observing id) E.quiet.eval

theorem regular_changeRules (E : Evaluator) (id : String) : (changeRules E id).Regular :=
  regular_tracedRules E.quiet (.observing id) E.quiet.eval

/-- A call of a method with a given body that logs the value changes: the normal form of the
body is executed, with returned values in variables. -/
noncomputable def changesCall (E : Evaluator) (id : String) (c : ClassDecl) (m : MethodDecl)
    (body : List Stmt) (args : List Value) : Action Value :=
  quietCall E c m ((changeRules E id).meaning.execBlock
    (extracted Expr.isName m (normalizeAll body) 0).1) args

/-- The log of some code accompanies its execution. -/
theorem accompanied_changes {hooks : Hooks} {errors : Bool} {p : Program}
    (hp : Orderly hooks errors p) (id : String) {stmts : List Stmt}
    (hs : Stmt.EveryIn (HoldsHere (Expr.Avoids hooks.runtimeClass)) stmts) :
    Accompanied Anywhere (ChangesWhole id) ChangesIn fun i =>
      (tracedRules (if i then p.meaning.quiet else p.meaning) (.observing id)
        (if i then p.meaning.quiet else p.meaning).eval).meaning.execAll stmts := by
  have hlog := chronicle_changes id
  have heval : ∀ e, e.Avoids hooks.runtimeClass →
      Accompanied Anywhere (ChangesWhole id) ChangesIn fun i =>
        (if i then p.meaning.quiet else p.meaning).eval e :=
    fun e he => hlog.accompanied_eval hp he
  exact hlog.closed_accompanied.execAll_traced Accompanied.limit heval
    (accompanied_observing id) heval hs

/-- Statements behind the call of another constructor, which is not in their scope.  What it
writes is logged first. -/
theorem execBlock_changes {p : Program} (id : String) (front : Option Expr) (rest : List Stmt) :
    (changeRules p.meaning id).meaning.execBlock (front.toList.map .expr ++ rest) =
      p.meaning.quiet.evalEach front.toList >>= fun _ => .inScope
        ((Watch.observing id).report (front.toList.flatMap writesIn) >>= fun _ =>
          (changeRules p.meaning id).meaning.execAll rest) := by
  let r : Evaluator := (changeRules p.meaning id).meaning
  have hexpr : ∀ e, r.exec (.expr e) = p.meaning.quiet.eval e >>= fun _ =>
      (Watch.observing id).report (writesIn e) >>= fun _ => Pure.pure Flow.normal := by
    intro e
    have heval : r.eval e = p.meaning.quiet.eval e :=
      (regular_changeRules p.meaning id).eval_meaning e
    rw [(regular_changeRules p.meaning id).exec_meaning (.expr e)]
    show (r.eval e >>= fun _ => Pure.pure Flow.normal) >>=
      ifNormal ((Watch.observing id).report (writesIn e) >>= fun _ => Pure.pure Flow.normal) = _
    rw [heval, bind_assoc]
    rfl
  have hpasses : PassesFrom 0 (p.meaning.quiet.evalEach front.toList) :=
    (closed_passes 0).evalEach (r := fun _ => p.meaning.quiet) fun e _ =>
      (p.passes_meaning.eval e).quietly
  have hexprs : r.execAll (front.toList.map .expr ++ rest) =
      p.meaning.quiet.evalEach front.toList >>= fun _ =>
        (Watch.observing id).report (front.toList.flatMap writesIn) >>= fun _ =>
          r.execAll rest := by
    cases front with
    | none => rfl
    | some e =>
        show r.execAll (.expr e :: rest) = _
        rw [Evaluator.execAll_cons, hexpr]
        simp only [Option.toList_some, List.flatMap_cons, List.flatMap_nil, List.append_nil]
        show _ = (p.meaning.quiet.eval e >>= fun _ => _) >>= _
        simp only [bind_assoc, pure_bind]
        rfl
  show Action.inScope (r.execAll (front.toList.map .expr ++ rest)) = _
  rw [hexprs, inScope_bind hpasses]

/-! ## Logs of related programs -/

theorem Followed.quietly {x : Bool → Action α} (hx : Followed Anywhere (fun _ _ => True) x) :
    Followed Anywhere Eq fun i => (x i).quietly := by
  intro s k hs hk
  obtain rfl : s.recorder = k := hk
  have hxs := hx s s.recorder hs trivial
  show ((x false s).mapState _).Matched _ _ ((x true (s.recording s.recorder)).mapState _)
  cases ho : x false s with
  | done a s' | thrown t s' =>
      rw [ho] at hxs
      rcases hxs with ⟨-, k', ho', -⟩
      rw [ho']
      exact ⟨rfl, s.recorder, rfl, rfl⟩
  | fault e s' =>
      rw [ho] at hxs
      rcases hxs with ⟨e', k', ho', -⟩
      rw [ho']
      exact ⟨e', s.recorder, rfl, rfl⟩
  | exhausted => trivial

theorem Followed.unquiet {x : Action α} (hx : Followed Anywhere (fun _ _ => True) fun _ => x) :
    Followed Anywhere (fun _ _ => True) fun i => if i then x else x.quietly := by
  intro s k hs hk
  have hxs : (x s).Matched _ _ (x (s.recording k)) := hx s k hs hk
  show ((x s).mapState _).Matched _ _ (x (s.recording k))
  cases ho : x s with
  | done a s' | thrown t s' =>
      rw [ho] at hxs
      rcases hxs with ⟨-, k', ho', -⟩
      rw [ho']
      exact ⟨rfl, k', rfl, trivial⟩
  | fault e s' =>
      rw [ho] at hxs
      rcases hxs with ⟨e', k', ho', -⟩
      rw [ho']
      exact ⟨e', k', rfl, trivial⟩
  | exhausted => trivial

theorem followed_observing {κ : Recorder → Recorder → Prop} (hκ : Kept κ) (id : String)
    (writes : List Write) :
    Followed Anywhere κ fun _ => (Watch.observing id).report writes :=
  fun s _ hs hk => ⟨hs, _, rfl, kept_noting hκ s id writes hk⟩

theorem followed_changesCall {E : Bool → Evaluator}
    (hE : ∀ e, Followed Anywhere (fun _ _ => True) fun i => (E i).eval e) (id : String)
    (c : ClassDecl) (m : MethodDecl) (body : List Stmt) (args : List Value) :
    Followed Anywhere Eq fun i => changesCall (E i) id c m body args := by
  have h : ClosedStmt (ι := Bool) (Followed Anywhere Eq) := closed_followed_heap kept_eq
  have heval : ∀ e, True → Followed Anywhere Eq fun i => (E i).quiet.eval e :=
    fun e _ => (hE e).quietly
  have hcode : Stmt.EveryIn (HoldsHere fun _ => True)
      (extracted Expr.isName m (normalizeAll body) 0).1 :=
    fun s _ => every_true s
  have hblock := h.inScope (h.execAll_traced Followed.limits heval
    (followed_observing kept_eq id) heval hcode)
  exact h.bind (followed_prepareCall hE c m).quietly fun _ => h.bind (h.inFrame _ hblock) h.resultOf

theorem Within.quietly {x y : Action α} (h : Within x y) : Within x.quietly y.quietly :=
  fun s => Within.mapState _ (h s)

theorem changesCall_below (p : Program) (id : String) (c : ClassDecl) (m : MethodDecl)
    (body : List Stmt) (args : List Value) (n : Nat) :
    Within
      (quietCall (p.evaluator n) c m (((changeRules (p.evaluator n) id).within n).execBlock
        (extracted Expr.isName m (normalizeAll body) 0).1) args)
      (changesCall p.meaning id c m body args) := by
  let code : List Stmt := (extracted Expr.isName m (normalizeAll body) 0).1
  have h := closed_below
  have hprepare : Below fun unbounded =>
      (prepareCall (if unbounded then p.meaning else p.evaluator n) c m).quietly :=
    Within.quietly (h.prepareCall (h.useClass fun _ _ e _ => (p.evaluator_below n).eval e) m)
  have heval : ∀ e, True → Below fun unbounded =>
      (if unbounded then p.meaning else p.evaluator n).quiet.eval e :=
    fun e _ => Within.quietly ((p.evaluator_below n).eval e)
  have hreport : ∀ writes, Below fun _ => (Watch.observing id).report writes :=
    fun writes => Below.const _
  have hbounded : Within (((changeRules (p.evaluator n) id).within n).execAll code)
      (((changeRules p.meaning id).within n).execAll code) :=
    h.execAll fun s _ => (h.hasOn_traced heval hreport heval n).exec s (every_true s)
  have hlimit : Within (((changeRules p.meaning id).within n).execAll code)
      ((changeRules p.meaning id).meaning.execAll code) :=
    h.execAll_of_has ((regular_changeRules p.meaning id).below_meaning n) code
  have hcode : Below fun unbounded => (if unbounded then (changeRules p.meaning id).meaning
      else (changeRules (p.evaluator n) id).within n).execAll code :=
    hbounded.trans hlimit
  exact h.bind hprepare fun _ =>
    h.bind (h.inFrame (callFrame c m args) (h.inScope hcode)) h.resultOf

/-! ## The log and the run -/

theorem inFrame_extracted {hooks : Hooks} {p : Program} (hp : p.runtimeClass = hooks.runtimeClass)
    (id : String) (c : ClassDecl) (m : MethodDecl) {body : List Stmt}
    (hlabels : Stmt.EveryIn Weave.LabelsHere body) (hscopes : Stmt.EveryIn ScopesHere body)
    (args : List Value) :
    Action.inFrame (callFrame c m args)
        (p.meaning.execBlock (extracted Expr.isName m (normalizeAll body) 0).1) =
      Action.inFrame (callFrame c m args) (p.meaning.execAll body) := by
  have hE := runs_meaning p
  have hplain : plain p.meaning (returnRule p.meaning id false) = p.meaning := by
    rw [returnRule_false, hE.plain]
  have hbare : Stmt.EveryIn (fun s => Weave.returnsBare s = false) (normalizeAll body) :=
    fun s hs => (Weave.normalizeAll_tidy hlabels s hs).mono fun _ htidy =>
      Weave.returnsBare_of_normalHere htidy.1
  have hextracted := Weave.sameEnd_extracted hE hp id false Expr.isName m hbare
  have hnormal := execAll_plain_normalize hE.passes hE.passes hscopes
  rw [hplain] at hextracted
  rw [hE.plain] at hnormal
  have hblock : p.meaning.execBlock (extracted Expr.isName m (normalizeAll body) 0).1 =
      Action.inScope (p.meaning.execAll body) := by
    rw [← hnormal]
    exact SameEnd.inScope_eq hextracted
  have hparts := parting_careful p fun _ => true
  rw [p.careful_true] at hparts
  have hparting : Parting (p.meaning.execAll body) := closed_parting.execAll_of_has hparts body
  have hscope : 1 ≤ (callFrame c m args).scopes.length := Nat.le_refl 1
  rw [hblock]
  exact ((sameAfter_inScope hparting (p.passes_meaning.execAll body)).inFrame hscope).symm

theorem followed_unlogged {hooks : Hooks} {p : Program} (hp : p.runtimeClass = hooks.runtimeClass)
    (id : String) {c : ClassDecl} (hc : OwnNamed p c.name) {m : MethodDecl} {body : List Stmt}
    (hlabels : Stmt.EveryIn Weave.LabelsHere body) (hscopes : Stmt.EveryIn ScopesHere body)
    (hown : Stmt.EveryIn (ReportsHere m.returnsValue) body) (args : List Value) :
    Followed Anywhere (fun _ _ => True) fun i =>
      if i then runMethod p.meaning c { m with body := some body } args
      else changesCall p.meaning id c m body args := by
  let C : Comparison := .careful p (fun _ => true) kept_true
  have hC : C.evaluator = p.meaning := congrArg Rules.meaning p.careful_true
  have h : ClosedStmt (ι := Bool) (Followed Anywhere fun _ _ => True) :=
    closed_followed_heap kept_true
  let code : List Stmt := (extracted Expr.isName m (normalizeAll body) 0).1
  let observed : Action Value := prepareCall p.meaning c m >>= fun _ =>
    Action.inFrame (callFrame c m args)
      ((tracedRules p.meaning (.observing id) p.meaning.eval).meaning.execBlock code) >>= resultOf
  -- first the expressions are quiet no longer, then nothing is observed
  have hloud : Followed Anywhere (fun _ _ => True) fun i =>
      if i then observed else changesCall p.meaning id c m body args := by
    have heval : ∀ e, True → Followed Anywhere (fun _ _ => True) fun i =>
        (if i then p.meaning else p.meaning.quiet).eval e := by
      intro e _ s k hs hk
      exact ((followed_meaning p).eval e).unquiet s k hs hk
    have hprepare := (followed_prepareCall (E := fun _ => p.meaning) (followed_meaning p).eval c
      m).unquiet
    have hcode : Stmt.EveryIn (HoldsHere fun _ => True) code := fun s _ => every_true s
    have hblock := h.inScope (h.execAll_traced Followed.limits heval
      (followed_observing kept_true id) heval hcode)
    have hcall := h.bind hprepare fun _ => h.bind (h.inFrame (callFrame c m args) hblock) h.resultOf
    exact fun s k hs hk => hcall s k hs hk
  have hidle : Followed Anywhere (fun _ _ => True) fun i =>
      if i then runMethod p.meaning c { m with body := some body } args else observed := by
    have hcode : Stmt.EveryIn (ReportsHere m.returnsValue) code :=
      Weave.reportsHere_extracted Expr.isName (Weave.reportsHere_normalizeAll hown) 0
    have hwatch : C.Watching fun i => if i then .idle else .observing id :=
      Comparison.watching_idle (fun _ _ => trivial) id
    have hreturn : ∀ value, C.Trails [] fun _ => C.evaluator.eval value :=
      fun value => Comparison.trails_eval value
    have hbody := (Comparison.trails_tracer_execAll hwatch hreturn hcode).inScope
    have hcall := Weave.followed_call hc m args hbody
    rw [hC] at hcall
    have hrun : (prepareCall p.meaning c m >>= fun _ => Action.inFrame (callFrame c m args)
        ((tracedRules p.meaning .idle p.meaning.eval).meaning.execBlock code) >>= resultOf) =
          runMethod p.meaning c { m with body := some body } args := by
      rw [tracedRules_idle, (runs_meaning p).plain, inFrame_extracted hp id c m hlabels hscopes,
        runMethod_eq]
    rw [← hrun]
    exact fun s k hs hk => hcall s k hs hk
  intro s k hs hk
  exact (hloud s k hs hk).trans (hidle (s.recording k) k hs trivial) fun _ _ => trivial

end Eval

namespace Weave

open Code
open Code.Stmt (HoldsHere ScopesHere)
open Eval (Program Evaluator Action State Value Flow Outcome Anywhere ChangesIn ChangesLogged
  Comparison Watch SameBut Heap changesCall returnRule tracedRules)
open Trace (Event Recorder directChanges)

/-! ## Traced calls -/

/-- A call of a woven method whose writes are watched: a tracer executes the normal form of
the body, with returned values in variables.  What the call of another constructor writes is
reported first. -/
noncomputable def Weaver.tracedCall (w : Weaver) (s : Session) (E : Evaluator) (c : ClassDecl)
    (watch : Watch) (returnBy : Expr → Action Value) (body : List Stmt) (args : List Value) :
    Action Value :=
  w.callOver s E c (splitStart s.decl body).1 (do
    watch.report ((splitStart s.decl body).1.toList.flatMap writesIn)
    (tracedRules E watch returnBy).meaning.execAll
      (extracted Expr.isName s.decl (normalizeAll (splitStart s.decl body).2) 0).1) args

theorem observedCall_of_traceChanges {w : Weaver} (hon : w.settings.traceChanges = true)
    (s : Session) (E : Evaluator) (c : ClassDecl) (body : List Stmt) (args : List Value) :
    w.observedCall s E c body args = w.tracedCall s E c (.reporting E s.id)
      (returnRule E s.id (w.reportsReturns s)) body args := by
  unfold Weaver.observedCall Weaver.observedRun Weaver.tracedCall Weaver.callOver
    Weaver.startWrites Weaver.observing Weaver.observed Eval.observer
  simp only [hon, if_true]
  rfl

theorem followed_tracedCall {C : Comparison} {w : Weaver} {s : Session} {c : ClassDecl}
    (hc : Eval.OwnNamed C.program c.name) {body : List Stmt}
    (hown : Stmt.EveryIn (Eval.ReportsHere s.decl.returnsValue) body) {watch : Bool → Watch}
    (hwatch : C.Watching watch) {returnBy : Bool → Expr → Action Value}
    (hreturn : ∀ value, C.Trails [] fun i => returnBy i value) (args : List Value) :
    Eval.Followed (Eval.Good C.good) C.related fun i =>
      w.tracedCall s C.evaluator c (watch i) (returnBy i) body args := by
  rcases splitStart_every s.decl hown with ⟨hhere, hrest⟩
  have hstart : ∀ e ∈ (splitStart s.decl body).1, Eval.ReportsOwn e :=
    fun e he => hhere e he e (List.mem_singleton_self e)
  have hcode := reportsHere_extracted Expr.isName (reportsHere_normalizeAll hrest) 0
  let t : Toggles := ⟨w.settings.traceChanges, w.settings.traceReturns, w.settings.traceErrors⟩
  let inner : Bool → Action Flow := fun i =>
    (watch i).report ((splitStart s.decl body).1.toList.flatMap writesIn) >>= fun _ =>
      (tracedRules C.evaluator (watch i) (returnBy i)).meaning.execAll
        (extracted Expr.isName s.decl (normalizeAll (splitStart s.decl body).2) 0).1
  have hinner : C.Trails ((splitStart s.decl body).1.toList.flatMap writesIn) inner :=
    (C.closed_trails _).bind (hwatch _) fun _ =>
      (Comparison.trails_tracer_execAll hwatch hreturn hcode).of_nil
  have hactivation : C.Trails [] fun i =>
      w.activation s C.evaluator (splitStart s.decl body).1 (inner i) :=
    trails_activation (w := w) (t := fun _ => t) (.inl rfl) hstart hinner
  exact followed_call hc s.decl args hactivation

theorem within_tracedCall {w : Weaver} {s : Session} {E E' : Evaluator}
    (hE : Evaluator.Has (ι := Bool) Eval.Below fun unbounded => if unbounded then E' else E)
    (c : ClassDecl) (watch : Watch) (body : List Stmt) (args : List Value) :
    Eval.Within (w.tracedCall s E c watch E.eval body args)
      (w.tracedCall s E' c watch E'.eval body args) := by
  have h := Eval.closed_below
  let inner : Bool → Action Flow := fun unbounded =>
    watch.report ((splitStart s.decl body).1.toList.flatMap writesIn) >>= fun _ =>
      (tracedRules (if unbounded then E' else E) watch
        (if unbounded then E' else E).eval).meaning.execAll
          (extracted Expr.isName s.decl (normalizeAll (splitStart s.decl body).2) 0).1
  have hinner : Eval.Below inner := by
    apply h.bind (Eval.Below.const _)
    intro _
    exact h.execAll_traced Eval.Below.limits (q := fun _ => True) (fun e _ => hE.eval e)
      (fun _ => Eval.Below.const _) (fun e _ => hE.eval e) fun s _ => Eval.every_true s
  have hactivation : Eval.Below fun unbounded =>
      w.activation s (if unbounded then E' else E) (splitStart s.decl body).1
        (inner unbounded) :=
    h.bind (h.evalEach fun e _ => hE.eval e) fun _ =>
      h.wrapped hE.exec (fun _ => Eval.Below.const _) (Eval.Below.const _)
        (w.hooks.entering s.id s.decl.params) (w.deadline s) hinner
  exact h.bind (h.prepareCall (h.useClass fun _ _ e _ => hE.eval e) s.decl) fun _ =>
    h.bind (h.inFrame (Eval.callFrame c s.decl args) hactivation) h.resultOf

/-! ## The log of an activation -/

theorem extracted_splitStart (decl : MethodDecl) (body : List Stmt) :
    (extracted Expr.isName decl (normalizeAll body) 0).1 =
      (splitStart decl body).1.toList.map .expr ++
        (extracted Expr.isName decl (normalizeAll (splitStart decl body).2) 0).1 := by
  have hwhole := congrArg (fun stmts => (extracted Expr.isName decl (normalizeAll stmts) 0).1)
    (splitStart_append decl body)
  rw [← hwhole]
  cases (splitStart decl body).1 with
  | none => rfl
  | some e =>
      show (extracted Expr.isName decl (.expr e :: normalizeAll (splitStart decl body).2) 0).1 = _
      rw [extracted_expr]
      rfl

/-- A call whose writes are observed reports directly what is logged about them. -/
theorem agrees_changesCall {w : Weaver} {s : Session} {p : Program}
    (hp : Eval.Orderly w.hooks w.settings.traceErrors p) {c : ClassDecl} {body : List Stmt}
    (havoid : Stmt.EveryIn (HoldsHere (Expr.Avoids w.hooks.runtimeClass)) body)
    {args : List Value} {st st' : State}
    (h : Eval.Opened p.meaning w.hooks s.id c s.decl (splitStart s.decl body).1 args st st') :
    (w.tracedCall s p.meaning c (.observing s.id) p.meaning.eval body args st).Agrees
      (ChangesLogged st'.events)
      (changesCall p.meaning s.id c s.decl body args (st.recording .empty)) := by
  have hlog := Eval.chronicle_changes s.id
  let start := (splitStart s.decl body).1
  let code := (extracted Expr.isName s.decl (normalizeAll (splitStart s.decl body).2) 0).1
  let inner : Bool → Action Flow := fun i =>
    (Watch.observing s.id).report (start.toList.flatMap writesIn) >>= fun _ =>
      (tracedRules (if i then p.meaning.quiet else p.meaning) (.observing s.id)
        (if i then p.meaning.quiet else p.meaning).eval).meaning.execAll code
  have hcode : Stmt.EveryIn (HoldsHere (Expr.Avoids w.hooks.runtimeClass)) code :=
    extracted_every (extractable_holdsHere (fun _ => avoids_of_isStablePath _ rfl) Expr.isName)
      (normalizeAll_holdsHere (splitStart_every s.decl havoid).2) 0
  have hinner : Eval.Accompanied Anywhere (Eval.ChangesWhole s.id) ChangesIn inner :=
    (hlog.closed_accompanied (I := Anywhere)).bind
      (Eval.accompanied_observing s.id (start.toList.flatMap writesIn)) fun _ =>
        Eval.accompanied_changes hp s.id hcode
  have hbody : (Eval.changeRules p.meaning s.id).meaning.execBlock
      (extracted Expr.isName s.decl (normalizeAll body) 0).1 =
        p.meaning.quiet.evalEach start.toList >>= fun _ => .inScope (inner true) := by
    rw [extracted_splitStart]
    exact Eval.execBlock_changes s.id start code
  exact agrees_quietCall hlog hp.runtimeClass h hinner hbody

theorem reports_of_bracket_or_changed {t : Toggles} (ht : t.changes = true) {e : Event}
    (he : e.isBracket = true ∨ e.isChanged = true) : t.reports e = true := by
  cases e with
  | changed _ _ _ => exact ht
  | entering _ _ | exiting _ | deadlineSet _ _ | timedOut _ _ => rfl
  | returning _ _ | failed _ _ => exact absurd he (by simp [Event.isBracket, Event.isChanged])

section

variable {w : Weaver} (hon : w.settings.traceChanges = true) {s : Session} {p : Program}
variable {c : ClassDecl} (hc : Eval.OwnNamed p c.name) {body : List Stmt}
variable (harranged : Arranged s.decl body)
variable (hown : Stmt.EveryIn (Eval.ReportsHere s.decl.returnsValue) body)
variable {args : List Value} {st : State}

include hon hc harranged hown

theorem matched_tracedCall (hp : p.runtimeClass = w.hooks.runtimeClass)
    (hacyclic : p.RunStaysAcyclic c { s.decl with body := some (w.bodyOf s body) } args st) :
    (w.observedCall s p.meaning c body args st).Matched (Eval.Good Heap.isAcyclic)
      (SameReports ⟨true, false, w.settings.traceErrors⟩)
      (w.tracedCall s p.meaning c (.observing s.id) p.meaning.eval body args st) := by
  let t : Toggles := ⟨true, false, w.settings.traceErrors⟩
  let t' : Toggles := ⟨w.settings.traceChanges, w.settings.traceReturns, w.settings.traceErrors⟩
  let C : Comparison := .careful p Heap.isAcyclic (SameBut.kept fun e => !t.reports e)
  have hle : t ≤ t' := ⟨fun _ => hon, Bool.noConfusion, fun herrors => herrors⟩
  have hswitched : Switched C fun i => if i then t else t' :=
    switched_of_le (Toggles.le_ite t.le_refl hle) (.inl rfl) p
  have hreturn : ∀ value, C.Trails [] fun i => returnRule C.evaluator s.id
      ((w.tracing (if i then t else t')).reportsReturns s) value :=
    Comparison.trails_returnRule (hswitched.reportsReturns w s)
  have hsilent : returnRule C.evaluator s.id ((w.tracing t).reportsReturns s) =
      C.evaluator.eval :=
    Eval.returnRule_false C.evaluator s.id
  have hfollowed := followed_tracedCall (w := w) hc hown
    (Comparison.watching_observing (fun _ hgood => hgood) s.id) hreturn args
  have hcalls : Eval.Followed (Eval.Good Heap.isAcyclic) (SameReports t) fun i =>
      if i then w.tracedCall s C.evaluator c (.observing s.id) C.evaluator.eval body args
      else w.observedCall s C.evaluator c body args := by
    intro st k hst hk
    show (w.observedCall s C.evaluator c body args st).Matched _ _
      (w.tracedCall s C.evaluator c (.observing s.id) C.evaluator.eval body args (st.recording k))
    rw [observedCall_of_traceChanges hon, ← hsilent]
    exact hfollowed st k hst hk
  exact matched_of_followed (x := fun E => w.tracedCall s E c (.observing s.id) E.eval body args)
    hp harranged hacyclic (.refl _) hcalls
    (within_tracedCall (p.careful_meaning_below Heap.isAcyclic) c (.observing s.id) body args)

/-- Beside a call that gets past its entry, a log of what it writes can be kept. -/
theorem matched_changesCall (hp : Eval.Orderly w.hooks w.settings.traceErrors p)
    (havoid : Stmt.EveryIn (HoldsHere (Expr.Avoids w.hooks.runtimeClass)) body)
    (hacyclic : p.RunStaysAcyclic c { s.decl with body := some (w.bodyOf s body) } args st)
    {st' : State}
    (h : Eval.Opened p.meaning w.hooks s.id c s.decl (splitStart s.decl body).1 args st st') :
    (Eval.runMethod p.meaning c { s.decl with body := some (w.bodyOf s body) } args st).Matched
      Anywhere (ChangesLogged st'.events)
      (changesCall p.meaning s.id c s.decl body args (st.recording .empty)) := by
  have hrun : Eval.runMethod p.meaning c { s.decl with body := some (w.bodyOf s body) } args =
      w.observedCall s p.meaning c body args :=
    runMethod_bodyOf (Eval.runs_meaning p) hp.runtimeClass c harranged.1 harranged.2 args
  have hadds := adds_bodyOf harranged.2 h
  rw [hrun] at hadds ⊢
  have hsame : ∀ v v' log, directChanges v = directChanges v' → ChangesIn v' log →
      ChangesIn v log :=
    fun _ _ _ h h' => h.trans h'
  exact matched_noted (fun _ => reports_of_bracket_or_changed rfl) hsame hadds
    (matched_tracedCall hon hc harranged hown hp.runtimeClass hacyclic)
    (agrees_changesCall hp havoid h)

end

/-! ## Woven programs -/

section

variable {w : Weaver} {u : CompilationUnit} (hr : Reportable u)
variable (hscopes : u.EveryBody fun _ body => Stmt.EveryIn ScopesHere body)

include hr hscopes

/-- The log is the same in the woven program and in the program as it was. -/
theorem followed_changesCall_woven (id : String) (c : ClassDecl) (m : MethodDecl)
    (body : List Stmt) (args : List Value) :
    Eval.Followed Anywhere Eq fun i => changesCall (if i then
      (⟨u, w.hooks.runtimeClass⟩ : Program).meaning else (w.program u).meaning) id c m body
        args := by
  let p : Program := ⟨u, w.hooks.runtimeClass⟩
  have hown : p.withBodies (w.bodiesWhen u false) = p := p.withBodies_own
  have hsides := followed_meanings_woven (w := w) (fun _ => true) (fun i => !i)
    (fun hon => nomatch hon) hr hscopes
  refine Eval.followed_changesCall (fun e s k hs hk => ?_) id c m body args
  have heval := hsides.eval e s k hs hk
  change Outcome.Matched _ _ (((w.program u).careful fun _ => true).meaning.eval e s)
    (((p.withBodies (w.bodiesWhen u false)).careful fun _ => true).meaning.eval e
      (s.recording k)) at heval
  rw [hown, Program.careful_true, Program.careful_true] at heval
  exact heval

variable {c : ClassDecl} (hc : c ∈ u.classes) {m : MethodDecl} (hm : m ∈ c.methods)
variable {args : List Value} (hargs : m.params.length = args.length) {s : State}
variable (hacyclic : (⟨u, w.hooks.runtimeClass⟩ : Program).RunStaysAcyclic c m args s)

include hc hm hargs hacyclic

theorem runMethod_woven :
    (w.program u).RunStaysAcyclic c { m with body := w.bodies u c m } args s ∧
    (Eval.runMethod (⟨u, w.hooks.runtimeClass⟩ : Program).meaning c m args s).Agrees
      (fun _ _ => True)
      (Eval.runMethod (w.program u).meaning c { m with body := w.bodies u c m } args s) := by
  let p : Program := ⟨u, w.hooks.runtimeClass⟩
  let woven : Evaluator → Action Value := fun E =>
    Eval.runMethod E c { m with body := w.bodies u c m } args
  have hown : p.withBodies (w.bodiesWhen u false) = p := p.withBodies_own
  have hforth := followed_runMethods_woven (w := w) Heap.isAcyclic (fun i => i)
    (fun _ _ hgood => hgood) hr hscopes hc hm hargs s s.recorder hacyclic.1 trivial
  change (Eval.runMethod ((p.withBodies (w.bodiesWhen u false)).careful Heap.isAcyclic).meaning c m
    args s).Matched _ _ (woven ((w.program u).careful Heap.isAcyclic).meaning s) at hforth
  rw [hown, hacyclic.2] at hforth
  have hback := followed_runMethods_woven (w := w) (fun _ => true) (fun i => !i)
    (fun hon => nomatch hon) hr hscopes hc hm hargs s s.recorder rfl trivial
  change (woven ((w.program u).careful fun _ => true).meaning s).Matched _ _
    (Eval.runMethod ((p.withBodies (w.bodiesWhen u false)).careful fun _ => true).meaning c m args
      s) at hback
  rw [hown, Program.careful_true, Program.careful_true] at hback
  have hwithin : Eval.Within (woven ((w.program u).careful Heap.isAcyclic).meaning)
      (woven (w.program u).meaning) :=
    Eval.closed_below.runMethod_of_has ((w.program u).careful_meaning_below Heap.isAcyclic) c _ args
  have hsame : woven ((w.program u).careful Heap.isAcyclic).meaning s =
      woven (w.program u).meaning s := by
    rcases hwithin s with hcut | hends
    · -- then the run as it was does not end, and neither does the woven one
      rw [hcut] at hforth
      have hplain : Eval.runMethod p.rules.meaning c m args s = .exhausted := hforth.exhausted
      rw [hplain] at hback
      exact hcut.trans hback.exhausted.symm
    · exact hends
  rw [hsame] at hforth
  exact ⟨⟨hacyclic.1, hsame⟩, hforth.agrees_of_matched hback⟩

theorem changesCall_exhausted {body : List Stmt} (hbody : m.body = some body) (id : String)
    (hends : Eval.runMethod (w.program u).meaning c { m with body := w.bodies u c m } args s =
      .exhausted) :
    changesCall (⟨u, w.hooks.runtimeClass⟩ : Program).meaning id c m body args
      (s.recording .empty) = .exhausted := by
  let p : Program := ⟨u, w.hooks.runtimeClass⟩
  have hmem : body ∈ m.body.toList := Option.mem_toList.mpr hbody
  have hagrees := (runMethod_woven hr hscopes hc hm hargs hacyclic).2
  have hplain : Eval.runMethod p.meaning c m args s = .exhausted := by
    rw [hends] at hagrees
    cases ho : Eval.runMethod p.meaning c m args s with
    | done _ _ | thrown _ _ =>
        rw [ho] at hagrees
        rcases hagrees with ⟨_, h, -⟩
        exact nomatch h
    | fault _ _ =>
        rw [ho] at hagrees
        rcases hagrees with ⟨_, _, h, -⟩
        exact nomatch h
    | exhausted => rfl
  have hnamed : Eval.OwnNamed p c.name := by
    have hown := hr.names.ownNamed (p := p) .own hc
    rw [p.withBodies_own] at hown
    exact hown
  have hruntime : p.runtimeClass = w.hooks.runtimeClass := rfl
  have hfollowed := Eval.followed_unlogged hruntime id hnamed
    (hr.arranged c hc m hm body hmem).1 (hscopes c hc m hm body hmem) (hr.own c hc m hm body hmem)
    args (s.recording .empty) s.recorder rfl trivial
  have hdecl : { m with body := some body } = m := by rw [← hbody]
  change (changesCall p.meaning id c m body args (s.recording .empty)).Matched _ _
    (Eval.runMethod p.meaning c { m with body := some body } args s) at hfollowed
  rw [hdecl, hplain] at hfollowed
  exact hfollowed.exhausted

end

/-- Reports of value changes are exact.  With them switched on, a call of a woven method that
gets past its entry reports directly, in order, the changes of a log that is kept in the unit
as it was: there the normal form of the former body is executed, with returned values in
variables, and the values of written places are looked at, at the moments at which a tracer
reports them.  The call ends in the way of that execution and leaves the same state.  Every
class must be found under its own name, and the call must not put an array into itself. -/
theorem changes_reported_exactly {w : Weaver} {u : CompilationUnit}
    (hu : u.Avoids w.hooks.runtimeClass) (hr : Reportable u)
    (hscopes : u.EveryBody fun _ body => Stmt.EveryIn ScopesHere body)
    (hon : w.settings.traceChanges = true) :
    ∀ u' report, w.weaveUnit u = .ok (u', report) →
    ∀ c ∈ u.classes, ∀ m ∈ c.methods, ∀ c' reports m' methodReport,
      w.weaveClass u c = .ok (c', reports) →
      w.weaveMethod (w.session u c m) = .ok (m', methodReport) →
      methodReport.isWoven = true →
      ∃ body rest, m.body = some body ∧
        m'.body = some ((splitStart m body).1.toList.map .expr ++
          w.hooks.entering (w.session u c m).id m.params :: rest) ∧
        ∀ args s, m.params.length = args.length →
          (⟨u, w.hooks.runtimeClass⟩ : Program).RunStaysAcyclic c m args s →
          ∀ steps₀ value s₀,
          Eval.runMethod ((⟨u', w.hooks.runtimeClass⟩ : Program).evaluator steps₀) c'
            { m' with body := some ((splitStart m body).1.toList.map .expr ++
              [w.hooks.entering (w.session u c m).id m.params]) } args s = .done value s₀ →
          ∃ bound, ∀ steps ≥ bound,
            (Eval.runMethod ((⟨u', w.hooks.runtimeClass⟩ : Program).evaluator steps) c' m' args
              s).Agrees (ChangesLogged s₀.events)
                (changesCall (⟨u, w.hooks.runtimeClass⟩ : Program).meaning (w.session u c m).id c m
                  body args (s.recording .empty)) := by
  intro u' report hw c hc m hm c' reports m' methodReport hc' hm' hwoven
  rcases bodies_of_isWoven hm' hwoven with ⟨body, hbody, hdecl⟩
  obtain rfl : c' = c.withBodies (w.bodies u c) := weaveClass_ok hc'
  obtain rfl : m' = { m with body := w.bodies u c m } := weaveMethod_ok hm'
  have hbodies : w.bodies u c m = some (w.bodyOf (w.session u c m) body) :=
    congrArg MethodDecl.body hdecl
  have hmem : body ∈ m.body.toList := Option.mem_toList.mpr hbody
  have harranged : Arranged m body := hr.arranged c hc m hm body hmem
  rcases exists_bodyOf w (w.session u c m) harranged.2 with ⟨rest, hrest⟩
  refine ⟨body, rest, hbody, hbodies.trans (congrArg some hrest), ?_⟩
  intro args s hargs hacyclic steps₀ value s₀ hopening
  let p : Program := ⟨u, w.hooks.runtimeClass⟩
  have hprogram : (⟨u', w.hooks.runtimeClass⟩ : Program) = w.program u := weaveUnit_ok hw _
  have hp : Eval.Orderly w.hooks w.settings.traceErrors (w.program u) := orderly_bodies w hu
  have hown : Eval.OwnNamed (w.program u) c.name := hr.names.ownNamed (p := p) (w.bodies u) hc
  have hwovenAcyclic := (runMethod_woven hr hscopes hc hm hargs hacyclic).1
  rw [hprogram] at hopening ⊢
  rcases Eval.exists_opened_of_within rfl hopening with ⟨s', hopened, hevents⟩
  rw [hbodies] at hwovenAcyclic
  -- the log is kept beside the woven run first, and then in the unit as it was
  have hlogged := matched_changesCall (s := w.session u c m) hon hown harranged
    (hr.own c hc m hm body hmem) hp ((hu c hc).2 m hm body hmem) hwovenAcyclic hopened
  rw [hevents, ← hbodies] at hlogged
  have hmatched := hlogged.trans (followed_changesCall_woven hr hscopes (w.session u c m).id c m
    body args (s.recording .empty) .empty rfl rfl) fun hlog hsame => hsame ▸ hlog
  have hagrees := hmatched.agrees fun hends =>
    changesCall_exhausted hr hscopes hc hm hargs hacyclic hbody (w.session u c m).id hends
  rcases (w.program u).tends_runMethod (c.withBodies (w.bodies u c))
    { m with body := w.bodies u c m } args s with ⟨bound, hbound⟩
  refine ⟨bound, fun steps hsteps => ?_⟩
  have hrun : Eval.runMethod ((w.program u).evaluator steps) (c.withBodies (w.bodies u c))
      { m with body := w.bodies u c m } args s =
        Eval.runMethod (w.program u).meaning c { m with body := w.bodies u c m } args s :=
    hbound steps hsteps
  rw [hrun]
  exact hagrees

theorem changes_reported_exactly_drain :
    drainUnit.Avoids (Weaver.ofSettings .standard).hooks.runtimeClass ∧ Reportable drainUnit ∧
    (drainUnit.EveryBody fun _ body => Stmt.EveryIn ScopesHere body) ∧
    ∃ u' report c' reports m' methodReport body rest,
      (Weaver.ofSettings .standard).weaveUnit drainUnit = .ok (u', report) ∧
      (Weaver.ofSettings .standard).weaveClass drainUnit drainClass = .ok (c', reports) ∧
      (Weaver.ofSettings .standard).weaveMethod ((Weaver.ofSettings .standard).session drainUnit
        drainClass drainMethod) = .ok (m', methodReport) ∧
      drainMethod.body = some body ∧
      m'.body = some ((Weaver.ofSettings .standard).hooks.entering "Tank.drain"
        drainMethod.params :: rest) ∧
      (⟨drainUnit, (Weaver.ofSettings .standard).hooks.runtimeClass⟩ : Program).RunStaysAcyclic
        drainClass drainMethod [.int 5] .initial ∧
      ∃ value s₀,
        Eval.runMethod ((⟨u', (Weaver.ofSettings .standard).hooks.runtimeClass⟩ :
          Program).evaluator 20) c' { m' with body := some [(Weaver.ofSettings
            .standard).hooks.entering "Tank.drain" drainMethod.params] } [.int 5] .initial =
              .done value s₀ ∧
        ∃ bound, ∀ steps ≥ bound,
          (Eval.runMethod ((⟨u', (Weaver.ofSettings .standard).hooks.runtimeClass⟩ :
            Program).evaluator steps) c' m' [.int 5] .initial).Agrees (ChangesLogged s₀.events)
              (changesCall (⟨drainUnit, (Weaver.ofSettings .standard).hooks.runtimeClass⟩ :
                Program).meaning "Tank.drain" drainClass drainMethod body [.int 5] .initial) := by
  have hu : drainUnit.Avoids (Weaver.ofSettings .standard).hooks.runtimeClass := by decide
  have hr : Reportable drainUnit := ⟨by decide, by decide, by decide⟩
  have hscopes : drainUnit.EveryBody fun _ body => Stmt.EveryIn ScopesHere body := by decide
  have hw : ∃ result, (Weaver.ofSettings .standard).weaveUnit drainUnit = .ok result := ⟨_, rfl⟩
  rcases hw with ⟨⟨u', report⟩, hw⟩
  have hclass : drainClass ∈ drainUnit.classes := List.mem_singleton_self _
  have hmethod : drainMethod ∈ drainClass.methods := List.mem_singleton_self _
  rcases exists_woven hw hclass hmethod rfl with ⟨c', reports, m', methodReport, hc, hm, hwoven⟩
  rcases changes_reported_exactly hu hr hscopes rfl u' report hw drainClass hclass drainMethod
    hmethod c' reports m' methodReport hc hm hwoven with ⟨body, rest, hbody, hbody', hexact⟩
  obtain rfl := Option.some.inj hbody
  have hacyclic : (⟨drainUnit, (Weaver.ofSettings .standard).hooks.runtimeClass⟩ :
      Program).RunStaysAcyclic drainClass drainMethod [.int 5] .initial :=
    Program.runStaysAcyclic_of_isDone rfl (n := 30) (by decide +kernel)
  have hdone : (Eval.runMethod ((⟨u', (Weaver.ofSettings .standard).hooks.runtimeClass⟩ :
      Program).evaluator 20) c' { m' with body := some [(Weaver.ofSettings
        .standard).hooks.entering "Tank.drain" drainMethod.params] } [.int 5] .initial).isDone =
          true := by
    obtain rfl : c' = drainClass.withBodies _ := weaveClass_ok hc
    obtain rfl := weaveMethod_ok hm
    rw [weaveUnit_ok hw]
    decide +kernel
  rcases Eval.Outcome.exists_of_isDone hdone with ⟨value, s₀, hopening⟩
  exact ⟨hu, hr, hscopes, u', report, c', reports, m', methodReport, _, rest, hw, hc, hm, rfl,
    hbody', hacyclic, value, s₀, hopening,
    hexact [.int 5] .initial rfl hacyclic 20 value s₀ hopening⟩

def faultsUnchanged {α : Type} : Eval.Outcome α → Bool
  | .fault _ s => s.events.all fun e => !e.isChanged
  | .done _ _ | .thrown _ _ | .exhausted => false

def recorded? {α : Type} : Eval.Outcome α → Option (List Event)
  | .done _ s => some s.events
  | .thrown _ _ | .fault _ _ | .exhausted => none

theorem recorded?_of_within {α : Type} {x y : Action α} (h : Eval.Within x y) {s : State}
    {events : List Event} (hx : recorded? (x s) = some events) : recorded? (y s) = some events := by
  rcases h s with hcut | hsame
  · rw [hcut] at hx
    exact nomatch hx
  · rw [← hsame]
    exact hx

/-- Where a class is found in place of another one, the report of a write can read a field
that is not there: the written value is logged, and it is not reported. -/
theorem shadowed_change_unreported :
    shadowUnit.Avoids (Weaver.ofSettings .standard).hooks.runtimeClass ∧
    shadowUnit.EveryBody Arranged ∧
    (shadowUnit.EveryBody fun m body => Stmt.EveryIn (Eval.ReportsHere m.returnsValue) body) ∧
    (shadowUnit.EveryBody fun _ body => Stmt.EveryIn ScopesHere body) ∧
    ¬ Eval.OwnNames shadowUnit ∧
    ∃ u' report, (Weaver.ofSettings .standard).weaveUnit shadowUnit = .ok (u', report) ∧
      ∃ c ∈ shadowUnit.classes, ∃ m ∈ c.methods, ∃ body, m.body = some body ∧
        (⟨shadowUnit, (Weaver.ofSettings .standard).hooks.runtimeClass⟩ : Program).RunStaysAcyclic
          c m [] .initial ∧
        recorded? (changesCall (⟨shadowUnit, (Weaver.ofSettings .standard).hooks.runtimeClass⟩ :
          Program).meaning "p.p.A.run" c m body [] .initial) =
            some [.changed "p.p.A.run" "this.f" (.int 1)] ∧
        faultsUnchanged ((⟨u', (Weaver.ofSettings .standard).hooks.runtimeClass⟩ : Program).call 20
          "p.p.A" "run" [] .initial) = true := by
  have hw : ∃ result, (Weaver.ofSettings .standard).weaveUnit shadowUnit = .ok result := ⟨_, rfl⟩
  rcases hw with ⟨⟨u', report⟩, hw⟩
  let p : Program := ⟨shadowUnit, (Weaver.ofSettings .standard).hooks.runtimeClass⟩
  refine ⟨by decide, by decide, by decide, by decide, by decide, u', report, hw, _,
    List.mem_cons_of_mem _ (List.mem_singleton_self _), _, List.mem_singleton_self _, _, rfl,
    Program.runStaysAcyclic_of_isDone rfl (n := 20) (by decide +kernel), ?_, ?_⟩
  · exact recorded?_of_within (Eval.changesCall_below p "p.p.A.run" _ _ _ [] 20) rfl
  · rw [weaveUnit_ok hw]
    decide +kernel

end Weave
end TraceWeaving
