import TraceWeaving.Proofs.Eval.Parting
import TraceWeaving.Proofs.Weave.Blocks
import TraceWeaving.Proofs.Weave.Deadlines
import TraceWeaving.Proofs.Weave.Filtering

/-!
# Weaving preserves meaning

A woven method does what the method did, but for what is recorded.  Its body was put into
normal form, entry, deadline and exit are reported around it, and it stands in a scope of
its own; after that, reports are switched on.
-/

namespace TraceWeaving
namespace Eval

open Code
open Trace (Recorder Report)
open Weave (Write)

variable {α β : Type}

/-! ## Remarks -/

/-- Work that only reads, and comes to an end unless an array contains itself. -/
def Tells (ws : List Write) (x : Action α) : Prop :=
  ∀ s, s.Shows ws → (∃ a, x s = .done a s) ∨ x s = .exhausted ∧ s.heap.isAcyclic = false

def Remarks (ws : List Write) (x : Action α) (a : α) : Prop :=
  ∀ s, s.Shows ws →
    (∃ k, x s = .done a (s.recording k)) ∨ x s = .exhausted ∧ s.heap.isAcyclic = false

namespace Tells

variable {ws : List Write}

theorem pure (a : α) : Tells ws (Pure.pure a : Action α) :=
  fun _ _ => .inl ⟨a, rfl⟩

theorem bind {x : Action α} {f : α → Action β} (hx : Tells ws x) (hf : ∀ a, Tells ws (f a)) :
    Tells ws (x >>= f) := by
  intro s hs
  rcases hx s hs with ⟨a, ha⟩ | ⟨hcut, hcyclic⟩
  · rw [Action.bind_of_eq_done ha]
    exact hf a s hs
  · right
    refine ⟨?_, hcyclic⟩
    show Action.bind x f s = _
    unfold Action.bind
    rw [hcut]

theorem snapshot (value : Value) : Tells ws value.snapshot := by
  intro s _
  have hsnapshot : value.snapshot s =
      match s.heap.snapshot? value with
      | some copy => .done copy s
      | none => .exhausted := by
    show Action.orDiverge (s.heap.snapshot? value) s = _
    cases s.heap.snapshot? value <;> rfl
  rw [hsnapshot]
  cases hcopy : s.heap.snapshot? value with
  | some copy => exact .inl ⟨copy, rfl⟩
  | none =>
      right
      refine ⟨rfl, ?_⟩
      cases hacyclic : s.heap.isAcyclic with
      | false => rfl
      | true =>
          rcases Heap.snapshot?_of_isAcyclic hacyclic value with ⟨copy, hc⟩
          rw [hcopy] at hc
          exact nomatch hc

theorem snapshots (values : List Value) : Tells ws (Eval.snapshots values) := by
  induction values with
  | nil => exact .pure []
  | cons value values ih =>
      exact (Tells.snapshot value).bind fun _ => ih.bind fun _ => .pure _

theorem readName {name : String} (h : .ofVariable name ∈ ws) : Tells ws (Eval.readName name) := by
  intro s hs
  rcases Option.isSome_iff_exists.mp (hs _ h) with ⟨value, hvalue⟩
  left
  refine ⟨value, ?_⟩
  rw [readName_eq]
  show Action.orFail _ ((s.view.lookup name).or (s.view.field? s.view.cls name)) s = _
  have hread : (s.view.lookup name).or (s.view.field? s.view.cls name) = some value := hvalue
  rw [hread]
  rfl

theorem names {p : Program} {E : Evaluator} (hE : Hosts p E) {params : List Param}
    (h : ∀ param ∈ params, .ofVariable param.name ∈ ws) :
    Tells ws (E.evalAll (params.map fun param => .name param.name)) := by
  induction params with
  | nil => exact .pure []
  | cons param params ih =>
      rcases List.forall_mem_cons.mp h with ⟨hparam, hparams⟩
      rw [List.map_cons, Evaluator.evalAll_cons, hE.eval_name]
      exact (Tells.readName hparam).bind fun _ => (ih hparams).bind fun _ => .pure _

theorem entryReport {p : Program} {E : Evaluator} (hE : Hosts p E) {params : List Param}
    (h : ∀ param ∈ params, .ofVariable param.name ∈ ws) :
    Tells ws (Eval.entryReport E params) :=
  (Tells.names hE h).bind fun values => (Tells.snapshots values).bind fun _ => .pure _

theorem remarks {x : Action Report} (hx : Tells ws x) (id : String) (a : α) :
    Remarks ws (x >>= fun report => Action.record id report >>= fun _ => Pure.pure a) a := by
  intro s hs
  rcases hx s hs with ⟨report, hreport⟩ | ⟨hcut, hcyclic⟩
  · rw [Action.bind_of_eq_done hreport]
    exact .inl ⟨s.recorder.receive id report, rfl⟩
  · right
    refine ⟨?_, hcyclic⟩
    show Action.bind x _ s = _
    unfold Action.bind
    rw [hcut]

end Tells

theorem remarks_pure (ws : List Write) (a : α) : Remarks ws (Pure.pure a : Action α) a :=
  fun s _ => .inl ⟨s.recorder, rfl⟩

theorem remarks_record (ws : List Write) (id : String) (report : Report) (a : α) :
    Remarks ws (Action.record id report >>= fun _ => Pure.pure a) a :=
  (Tells.pure report).remarks id a

/-! ## Silence -/

namespace Comparison

variable {C : Comparison} {loud : Bool → Bool} (hrelated : ∀ k k', C.related k k')
variable (hloud : loud true = true → ∀ heap, C.good heap = true → heap.isAcyclic = true)
variable {ws : List Write}

include hrelated hloud

theorem trails_remark {x : Action α} {a : α} (hboth : C.Trails ws fun _ => x)
    (hx : Remarks ws x a) : C.Trails ws fun i => if loud i then x else pure a := by
  have hgrows : ∀ i, Grows (if loud i then x else pure a) := by
    intro i
    split
    · exact hboth.grows i
    · exact .pure a
  refine ⟨hgrows, fun s k hs hshows hk => ?_⟩
  cases hfalse : loud false with
  | false =>
      cases htrue : loud true with
      | false => exact ⟨hs, k, rfl, hk⟩
      | true =>
          have hshows' : (s.recording k).Shows ws := hshows
          rcases hx (s.recording k) hshows' with ⟨k', hdone⟩ | ⟨-, hcyclic⟩
          · refine ⟨hs, k', ?_, hrelated _ _⟩
            exact hdone
          · rw [hloud htrue (s.recording k).heap hs.1] at hcyclic
            exact nomatch hcyclic
  | true =>
      cases htrue : loud true with
      | false =>
          simp only [if_true]
          rcases hx s hshows with ⟨k', hdone⟩ | ⟨hcut, -⟩
          · rw [hdone]
            exact ⟨hs, k, rfl, hrelated _ _⟩
          · rw [hcut]
            trivial
      | true => exact hboth.matched s k hs hshows hk

theorem trails_before {x : Action α} {a : α} (hboth : C.Trails ws fun _ => x)
    (hx : Remarks ws x a) {y : Bool → Action β} (hy : C.Trails ws y) :
    C.Trails ws fun i => if loud i then x >>= fun _ => y i else y i := by
  have hfirst := (C.closed_trails ws).bind (trails_remark hrelated hloud hboth hx)
    (f := fun i _ => y i) fun _ => hy
  have hsame : (fun i => (if loud i then x else pure a) >>= fun _ => y i) =
      fun i => if loud i then x >>= fun _ => y i else y i := by
    funext i
    cases loud i with
    | false => exact pure_bind a _
    | true => rfl
  rw [← hsame]
  exact hfirst

theorem trails_record_before (id : String) (report : Report) {y : Bool → Action β}
    (hy : C.Trails ws y) :
    C.Trails ws fun i => if loud i then Action.record id report >>= fun _ => y i else y i := by
  have hremark : Remarks ws (Action.record id report) () := by
    have h := remarks_record ws id report ()
    rw [bind_pure_unit] at h
    exact h
  exact trails_before hrelated hloud (trails_record id report) hremark hy

theorem trails_guarded {errors : Bool} {id : String} {x : Bool → Action Flow}
    (hx : C.Trails ws x) :
    C.Trails ws fun i => if loud i then guarding errors id (x i) else x i := by
  have h := C.closed_trails ws
  have hfailed : ∀ t, C.Trails ws fun i => if loud i then passOn errors id t
      else Action.raiseValue t := by
    intro t
    cases errors with
    | false => simpa only [passOn, Bool.false_eq_true, if_false, ite_self] using h.raise t
    | true => exact trails_record_before hrelated hloud id (.failed (.error t)) (h.raise t)
  have hwhole := h.andThen (h.andThen hx h.pure hfailed)
    (fun flow => trails_record_before hrelated hloud id .exiting (h.pure flow))
    fun t => trails_record_before hrelated hloud id .exiting (h.raise t)
  have hsame : (fun i => ((x i).andThen pure fun t => if loud i then passOn errors id t
      else Action.raiseValue t).andThen
        (fun flow => if loud i then Action.record id .exiting >>= fun _ => pure flow
          else pure flow)
        fun t => if loud i then Action.record id .exiting >>= fun _ => Action.raiseValue t
          else Action.raiseValue t) =
      fun i => if loud i then guarding errors id (x i) else x i := by
    funext i
    cases loud i with
    | true => rfl
    | false =>
        simp only [Bool.false_eq_true, if_false]
        funext s
        unfold Action.andThen
        cases x i s <;> rfl
  rw [← hsame]
  exact hwhole

end Comparison

/-! ## Reports at the end of a call -/

theorem popFrame_record {s s' : State} (h : s.popFrame = s'.popFrame) (f : Recorder → Recorder) :
    (s.recording (f s.recorder)).popFrame = (s'.recording (f s'.recorder)).popFrame := by
  have hrecorder : s.recorder = s'.recorder := by
    rw [← recorder_popFrame s, h, recorder_popFrame]
  rw [recording_popFrame, recording_popFrame, h, hrecorder]

theorem SameAfter.guarding {x y : Action Flow} (h : SameAfter x y) (errors : Bool) (id : String) :
    SameAfter (guarding errors id x) (guarding errors id y) := by
  have hexit : ∀ s s' : State, s.popFrame = s'.popFrame →
      (s.recording (s.recorder.receive id .exiting)).popFrame =
        (s'.recording (s'.recorder.receive id .exiting)).popFrame :=
    fun _ _ hs => popFrame_record hs fun k => k.receive id .exiting
  have hpassed : SameAfter (x.andThen Pure.pure (passOn errors id))
      (y.andThen Pure.pure (passOn errors id)) := by
    apply h.andThen
    · exact fun flow s s' hs => congrArg (Outcome.done flow) hs
    · intro t s s' hs
      cases errors with
      | false => exact congrArg (Outcome.thrown t) hs
      | true =>
          exact congrArg (Outcome.thrown t) (popFrame_record hs fun k => k.receive id
            (.failed (.error t)))
  apply hpassed.andThen
  · exact fun flow s s' hs => congrArg (Outcome.done flow) (hexit s s' hs)
  · exact fun t s s' hs => congrArg (Outcome.thrown t) (hexit s s' hs)

theorem Followed.trans_loud {I : Proviso} {κ : Recorder → Recorder → Prop} {loud : Bool → Bool}
    {x y z : Action α} (hrefl : ∀ k, κ k k)
    (hκ : ∀ {k k' k''}, κ k k' → κ k' k'' → κ k k'')
    (hxy : Followed I κ fun i => if loud i then y else x)
    (hyz : Followed I κ fun i => if loud i then z else y) :
    Followed I κ fun i => if loud i then z else x := by
  intro s k hs hk
  have hxy' := hxy s k hs hk
  have hyz' := hyz s k hs hk
  cases hfalse : loud false with
  | false =>
      cases htrue : loud true with
      | false =>
          simp only [hfalse, htrue, Bool.false_eq_true, if_false] at hxy' ⊢
          exact hxy'
      | true =>
          have hnext := hyz (s.recording k) k hs (hrefl k)
          simp only [hfalse, htrue, Bool.false_eq_true, if_false, if_true] at hxy' hnext ⊢
          exact hxy'.trans hnext hκ
  | true =>
      cases htrue : loud true with
      | false =>
          have hnext := hxy (s.recording k) k hs (hrefl k)
          simp only [hfalse, htrue, Bool.false_eq_true, if_false, if_true] at hyz' hnext ⊢
          exact hyz'.trans hnext hκ
      | true =>
          simp only [hfalse, htrue, if_true] at hyz' ⊢
          exact hyz'

end Eval

namespace Weave

open Code
open Code.Stmt (HoldsHere ScopesHere)
open Eval (Evaluator Action Value Flow Program State Heap Comparison Followed Good Tells Remarks
  SameAfter ReportsOwn guarding callFrame prepareCall resultOf sides)

def Toggles.none : Toggles :=
  ⟨false, false, false⟩

/-- The activation of a method whose statements stand in the scope of the parameters. -/
def Weaver.flatActivation (w : Weaver) (s : Session) (E : Evaluator) (start : Option Expr)
    (inner : Action Flow) : Action Flow := do
  E.evalEach start.toList
  E.exec (w.hooks.entering s.id s.decl.params) >>= Eval.ifNormal
    (guarding w.settings.traceErrors s.id
      (E.execAll (w.deadline s) >>= Eval.ifNormal inner))

section

variable {w : Weaver} {s : Session} {p : Program} {ok : Heap → Bool}
variable (hp : p.runtimeClass = w.hooks.runtimeClass) {start : Option Expr}

include hp

theorem exec_deadline_remarks (E : Evaluator) (hE : Eval.Hosts p E) (ws : List Write) :
    Remarks ws (E.execAll (w.deadline s)) Flow.normal ∧ ∀ next : Action Flow,
      E.execAll (w.deadline s) >>= Eval.ifNormal next =
        E.execAll (w.deadline s) >>= fun _ => next := by
  unfold Weaver.deadline
  cases s.markers.timeout with
  | none => exact ⟨Eval.remarks_pure ws Flow.normal, fun _ => rfl⟩
  | some millis =>
      have hexec : E.execAll [w.hooks.timeout s.id millis] =
          Action.record s.id (.deadline (min millis Hooks.longestMillis)) >>= fun _ =>
            Pure.pure .normal := by
        rw [Evaluator.execAll_singleton]
        exact hE.exec_timeout hp s.id millis
      show Remarks ws (E.execAll [w.hooks.timeout s.id millis]) Flow.normal ∧ ∀ next,
        E.execAll [w.hooks.timeout s.id millis] >>= _ = E.execAll [w.hooks.timeout s.id millis] >>= _
      rw [hexec]
      refine ⟨Eval.remarks_record ws s.id _ Flow.normal, fun next => ?_⟩
      simp only [bind_assoc, pure_bind]
      rfl

theorem exec_entering_remarks (E : Evaluator) (hE : Eval.Hosts p E) {params : List Param}
    {ws : List Write} (hparams : ∀ param ∈ params, .ofVariable param.name ∈ ws) :
    Remarks ws (E.exec (w.hooks.entering s.id params)) Flow.normal ∧ ∀ next : Action Flow,
      E.exec (w.hooks.entering s.id params) >>= Eval.ifNormal next =
        E.exec (w.hooks.entering s.id params) >>= fun _ => next := by
  rw [hE.exec_entering hp]
  refine ⟨(Tells.entryReport hE hparams).remarks s.id Flow.normal, fun next => ?_⟩
  simp only [bind_assoc, pure_bind]
  rfl

omit hp in
/-- The scope that the statements of a woven method stand in makes no difference. -/
theorem inFrame_flatActivation {inner : Action Flow} (hinner : Eval.Parting inner)
    (hpasses : Eval.PassesFrom 1 inner) (c : ClassDecl) (args : List Value) :
    Action.inFrame (callFrame c s.decl args)
        (w.flatActivation s (p.careful ok).meaning start inner) =
      Action.inFrame (callFrame c s.decl args)
        (w.activation s (p.careful ok).meaning start inner) := by
  have hparts := Eval.parting_careful p ok
  have hpass := p.passes_careful ok
  let E : Evaluator := (p.careful ok).meaning
  have hbody : Eval.Parting (E.execAll (w.deadline s) >>= Eval.ifNormal inner) := by
    apply Eval.closed_parting.bind (x := fun _ => E.execAll (w.deadline s))
      (f := fun _ => Eval.ifNormal inner)
    · exact Eval.closed_parting.execAll_of_has hparts (w.deadline s)
    · intro flow
      cases flow with
      | normal => exact hinner
      | returned _ | broke _ | continued _ => exact Eval.closed_parting.pure _
  have hbodyPasses : Eval.PassesFrom 1 (E.execAll (w.deadline s) >>= Eval.ifNormal inner) := by
    apply (hpass.execAll (w.deadline s)).bind
    intro flow
    cases flow with
    | normal => exact hpasses
    | returned _ | broke _ | continued _ => exact (Eval.closed_passes 1).pure _
  have hentry : Eval.PassesFrom 0 (E.exec (w.hooks.entering s.id s.decl.params)) := by
    have hcall : ∀ e, E.exec (.expr e) = E.eval e >>= fun _ => Pure.pure Flow.normal :=
      fun e => (p.regular_careful ok).exec_meaning (.expr e)
    unfold Hooks.entering Hooks.report
    rw [hcall]
    exact (hpass.eval _).bind fun _ => (Eval.closed_passes 0).pure Flow.normal
  have hstart : Eval.PassesFrom 0 (E.evalEach start.toList) :=
    (Eval.closed_passes 0).evalEach (r := fun _ => E) fun e _ => hpass.eval e
  have hsame : SameAfter (w.flatActivation s E start inner) (w.activation s E start inner) := by
    apply SameAfter.bind hstart
    intro _
    apply SameAfter.bind hentry
    intro flow
    apply SameAfter.ifNormal
    exact (Eval.sameAfter_inScope hbody hbodyPasses).guarding w.settings.traceErrors s.id
  exact hsame.inFrame (Nat.le_refl 1)

end

/-! ## From silence to reports -/

theorem shows_params (c : ClassDecl) {m : MethodDecl} {args : List Value}
    (hargs : m.params.length = args.length) (st : State) :
    (st.pushFrame (callFrame c m args)).Shows
      (m.params.map fun param => .ofVariable param.name) := by
  intro write hwrite
  rcases List.mem_map.mp hwrite with ⟨param, hparam, rfl⟩
  have hname : param.name ∈ ((m.params.map (·.name)).zip args).map Prod.fst := by
    rw [List.map_fst_zip (by rw [List.length_map]; exact hargs.le)]
    exact List.mem_map_of_mem hparam
  have hbound := Eval.Bindings.contains_ofPairs hname
  apply Eval.readable_name.mpr
  left
  exact ⟨_, List.mem_singleton_self _, hbound⟩

section

variable {w : Weaver} {s : Session} {p : Program} {ok : Heap → Bool} {loud : Bool → Bool}
variable (hp : p.runtimeClass = w.hooks.runtimeClass)
variable (hloud : loud true = true → ∀ heap, ok heap = true → heap.isAcyclic = true)

include hp hloud

theorem trails_flatActivation {ws : List Write}
    (hparams : ∀ param ∈ s.decl.params, .ofVariable param.name ∈ ws) (start : Option Expr)
    (stmts : List Stmt) :
    (Comparison.careful p ok Eval.kept_true).Trails ws fun i =>
      if loud i then
        w.flatActivation s (p.careful ok).meaning start ((p.careful ok).meaning.execAll stmts)
      else (p.careful ok).meaning.evalEach start.toList >>= fun _ =>
        (p.careful ok).meaning.execAll stmts := by
  let C : Comparison := .careful p ok Eval.kept_true
  let E : Evaluator := (p.careful ok).meaning
  have h := C.closed_trails ws
  have hrelated : ∀ k k', C.related k k' := fun _ _ => trivial
  have hexec : ∀ stmts, C.Trails ws fun _ => E.execAll stmts :=
    fun stmts => h.execAll fun s _ => Comparison.trails_exec s
  rcases exec_deadline_remarks (s := s) hp E C.runs.toHosts ws with ⟨hdeadline, hset⟩
  rcases exec_entering_remarks (s := s) hp E C.runs.toHosts hparams with ⟨hentry, hentered⟩
  let timed : Bool → Action Flow := fun i =>
    if loud i then E.execAll (w.deadline s) >>= fun _ => E.execAll stmts else E.execAll stmts
  let guarded : Bool → Action Flow := fun i =>
    if loud i then guarding w.settings.traceErrors s.id (timed i) else timed i
  have htimed : C.Trails ws timed :=
    C.trails_before hrelated hloud (hexec (w.deadline s)) hdeadline (hexec stmts)
  have hguarded : C.Trails ws guarded := C.trails_guarded hrelated hloud htimed
  have hwhole := h.bind (h.evalEach fun e (_ : e ∈ start.toList) => C.trails_eval e) fun _ =>
    C.trails_before hrelated hloud (C.trails_exec (w.hooks.entering s.id s.decl.params)) hentry
      hguarded
  have hsame : (fun i => if loud i then w.flatActivation s E start (E.execAll stmts)
      else E.evalEach start.toList >>= fun _ => E.execAll stmts) = fun i =>
        E.evalEach start.toList >>= fun _ =>
          if loud i then E.exec (w.hooks.entering s.id s.decl.params) >>= fun _ => guarded i
          else guarded i := by
    funext i
    simp only [guarded, timed]
    cases loud i with
    | false => rfl
    | true =>
        simp only [if_true]
        unfold Weaver.flatActivation
        rw [hset]
        simp only [hentered]
  rw [hsame]
  exact hwhole

omit hp hloud in
theorem observedRun_none {E : Evaluator} (hE : Eval.Runs p E) {body : List Stmt}
    (hscopes : Stmt.EveryIn ScopesHere body) :
    (w.tracing .none).observedRun s E body =
      (w.tracing .none).activation s E (splitStart s.decl body).1
        (E.execAll (splitStart s.decl body).2) := by
  have hrest : Stmt.EveryIn ScopesHere (splitStart s.decl body).2 :=
    (splitStart_every s.decl hscopes).2
  have hobserving : (w.tracing .none).observing s E = E := by
    show Eval.plain E (Eval.returnRule E s.id false) = E
    rw [Eval.returnRule_false, hE.plain]
  have hnormal : E.execAll (normalizeAll (splitStart s.decl body).2) =
      E.execAll (splitStart s.decl body).2 := by
    have hplain := Eval.execAll_plain_normalize hE.passes hE.passes hrest
    rw [hE.plain] at hplain
    exact hplain
  rw [observedRun_eq]
  unfold Weaver.runOver
  rw [hobserving]
  show (w.tracing .none).activation s E _ (Eval.reportWrites E s.id [] >>= fun _ =>
    E.execAll (normalizeAll (splitStart s.decl body).2)) = _
  rw [hnormal]
  rfl

variable {c : ClassDecl} (hc : Eval.OwnNamed p c.name) {body : List Stmt}
variable (harranged : Arranged s.decl body)
variable (hown : Stmt.EveryIn (Eval.ReportsHere s.decl.returnsValue) body)
variable (hscopes : Stmt.EveryIn ScopesHere body) {args : List Value}
variable (hargs : s.decl.params.length = args.length)

include hc hscopes hargs

theorem followed_silent :
    Followed (Good ok) (fun _ _ => True) fun i =>
      if loud i then (w.tracing .none).observedCall s (p.careful ok).meaning c body args
      else Eval.runMethod (p.careful ok).meaning c { s.decl with body := some body } args := by
  let C : Comparison := .careful p ok Eval.kept_true
  let E : Evaluator := (p.careful ok).meaning
  let start := (splitStart s.decl body).1
  let rest := (splitStart s.decl body).2
  have hE : Eval.Runs p E := C.runs
  have h : Eval.ClosedStmt (ι := Bool) (Followed (Good ok) fun _ _ => True) :=
    Eval.closed_followed_heap Eval.kept_true
  have hparams : ∀ param ∈ s.decl.params, .ofVariable param.name ∈
      s.decl.params.map fun param => Write.ofVariable param.name :=
    fun param hparam => List.mem_map.mpr ⟨param, hparam, rfl⟩
  have hflat : Followed (Good ok) (fun _ _ => True) fun i =>
      Action.inFrame (callFrame c s.decl args)
        (if loud i then (w.tracing .none).flatActivation s E start (E.execAll rest)
          else E.evalEach start.toList >>= fun _ => E.execAll rest) :=
    (trails_flatActivation (w := w.tracing .none) hp hloud hparams start rest).inFrame_of_shows hc
      (shows_params c hargs)
  have hparting : Eval.Parting (E.execAll rest) :=
    Eval.closed_parting.execAll_of_has (Eval.parting_careful p ok) rest
  have hbody : E.execAll body = E.evalEach start.toList >>= fun _ => E.execAll rest := by
    rw [← execAll_exprs hE, splitStart_append]
  have hcall : ∀ i, (if loud i then (w.tracing .none).observedCall s E c body args
      else Eval.runMethod E c { s.decl with body := some body } args) =
      prepareCall E c s.decl >>= fun _ => Action.inFrame (callFrame c s.decl args)
        (if loud i then (w.tracing .none).flatActivation s E start (E.execAll rest)
          else E.evalEach start.toList >>= fun _ => E.execAll rest) >>= resultOf := by
    intro i
    cases loud i with
    | false =>
        simp only [Bool.false_eq_true, if_false]
        rw [Eval.runMethod_eq, hbody]
    | true =>
        simp only [if_true]
        unfold Weaver.observedCall
        rw [observedRun_none hE hscopes, inFrame_flatActivation hparting
          ((p.passes_careful ok).execAll rest) c args]
  show Followed _ _ fun i => if loud i then (w.tracing .none).observedCall s E c body args
    else Eval.runMethod E c { s.decl with body := some body } args
  simp only [hcall]
  exact h.bind (C.followed_prepareCall c s.decl) fun _ => h.bind hflat h.resultOf

include harranged hown

theorem followed_woven :
    Followed (Good ok) (fun _ _ => True) fun i =>
      if loud i then w.observedCall s (p.careful ok).meaning c body args
      else Eval.runMethod (p.careful ok).meaning c { s.decl with body := some body } args := by
  let all : Toggles := ⟨w.settings.traceChanges, w.settings.traceReturns, w.settings.traceErrors⟩
  let C : Comparison := .careful p ok Eval.kept_true
  have hoptional : ∀ {kind : Trace.Report → Prop} (on : Toggles → Bool), on .none = false →
      C.Optional (fun i => on (if loud i then all else .none)) kind := by
    intro kind on hnone
    refine .inr ⟨fun _ _ _ _ => ⟨trivial, trivial⟩, fun htrue => hloud ?_⟩
    have hon : on (if loud true then all else .none) = true := htrue
    cases hl : loud true with
    | true => rfl
    | false =>
        rw [hl] at hon
        exact absurd (hnone.symm.trans hon) Bool.false_ne_true
  have hswitched : Switched C fun i => if loud i then all else .none :=
    ⟨hoptional Toggles.changes rfl, hoptional Toggles.returns rfl, hoptional Toggles.errors rfl⟩
  have hreports := followed_observedCall (w := w) (s := s) hswitched hp hc harranged.1 hown args
  have hall : (fun i => (w.tracing (if loud i then all else .none)).observedCall s
      C.evaluator c body args) = fun i =>
        if loud i then w.observedCall s C.evaluator c body args
        else (w.tracing .none).observedCall s C.evaluator c body args := by
    funext i
    cases loud i <;> rfl
  rw [hall] at hreports
  exact Followed.trans_loud (fun _ => trivial) (fun _ _ => trivial)
    (followed_silent hp hloud hc hscopes hargs) hreports

end

/-! ## Programs -/

section

variable {w : Weaver} {u : CompilationUnit} (ok : Heap → Bool) (loud : Bool → Bool)
variable (hloud : loud true = true → ∀ heap, ok heap = true → heap.isAcyclic = true)
variable (hr : Reportable u)
variable (hscopes : u.EveryBody fun _ body => Stmt.EveryIn ScopesHere body)

def Weaver.bodiesWhen (w : Weaver) (u : CompilationUnit) (woven : Bool) : Bodies :=
  if woven then w.bodies u else .own

include hloud hr hscopes

/-- Methods go the way of the woven ones, given that evaluations do. -/
theorem followed_runMethod_woven {n : Nat}
    (hsides : Evaluator.Has (Followed (Good ok) fun _ _ => True)
      (sides ⟨u, w.hooks.runtimeClass⟩ (fun i => w.bodiesWhen u (loud i)) ok n))
    {c : ClassDecl} (hc : c ∈ u.classes) {m : MethodDecl} (hm : m ∈ c.methods)
    {args : List Value} (hargs : m.params.length = args.length) :
    Followed (Good ok) (fun _ _ => True) fun i =>
      Eval.runMethod (sides ⟨u, w.hooks.runtimeClass⟩ (fun i => w.bodiesWhen u (loud i)) ok n i) c
        { m with body := w.bodiesWhen u (loud i) c m } args := by
  have h : Eval.ClosedStmt (ι := Bool) (Followed (Good ok) fun _ _ => True) :=
    Eval.closed_followed_heap Eval.kept_true
  have hsame := fun m : MethodDecl => h.runMethod_of_has hsides c m args
  cases hdec : w.decide (w.session u c m) with
  | skip reason =>
      have hbodies : ∀ i, w.bodiesWhen u (loud i) c m = m.body := by
        intro i
        unfold Weaver.bodiesWhen Weaver.bodies
        cases loud i with
        | false => rfl
        | true =>
            simp only [if_true]
            rw [hdec]
      simp only [hbodies]
      exact hsame m
  | weave =>
      obtain ⟨body, hbody⟩ : ∃ body, m.body = some body := Weaver.body_of_decide hdec
      have hmem : body ∈ m.body.toList := Option.mem_toList.mpr hbody
      have hbodies : ∀ i, w.bodiesWhen u (loud i) c m =
          if loud i then some (w.bodyOf (w.session u c m) body) else some body := by
        intro i
        unfold Weaver.bodiesWhen Weaver.bodies
        cases loud i with
        | false => exact hbody
        | true =>
            simp only [if_true]
            rw [hdec, hbody]
            rfl
      let p : Program :=
        (⟨u, w.hooks.runtimeClass⟩ : Program).withBodies (w.bodiesWhen u (loud true))
      let side : Bool → MethodDecl := fun i =>
        { m with body := if loud i then some (w.bodyOf (w.session u c m) body) else some body }
      have hE : Eval.Runs p (p.careful ok).meaning := (Comparison.careful p ok Eval.kept_true).runs
      have harranged := hr.arranged c hc m hm body hmem
      have hrun : ∀ i, Eval.runMethod (p.careful ok).meaning c (side i) args =
          if loud i then w.observedCall (w.session u c m) (p.careful ok).meaning c body args
          else Eval.runMethod (p.careful ok).meaning c { m with body := some body } args := by
        intro i
        simp only [side]
        cases loud i with
        | false => rfl
        | true =>
            exact runMethod_bodyOf (s := w.session u c m) hE rfl c harranged.1 harranged.2 args
      have hwoven : Followed (Good ok) (fun _ _ => True) fun i =>
          Eval.runMethod (p.careful ok).meaning c (side i) args := by
        simp only [hrun]
        exact followed_woven rfl hloud (hr.names.ownNamed _ hc) harranged
          (hr.own c hc m hm body hmem) (hscopes c hc m hm body hmem) hargs
      simp only [hbodies]
      intro s k hs hk
      -- the bounded run is followed by the unbounded one first, and then the body changes
      exact (hsame (side false) s k hs hk).trans (hwoven (s.recording k) k hs trivial)
        fun _ _ => trivial

theorem followed_meanings_woven :
    Evaluator.Has (Followed (Good ok) fun _ _ => True) fun i =>
      (((⟨u, w.hooks.runtimeClass⟩ : Program).withBodies
        (w.bodiesWhen u (loud i))).careful ok).meaning :=
  Eval.followed_meanings Eval.kept_true ⟨u, w.hooks.runtimeClass⟩
    (fun i => w.bodiesWhen u (loud i)) ok
    fun _ hsides _ hc _ hm _ hargs =>
      followed_runMethod_woven ok loud hloud hr hscopes hsides hc hm hargs

theorem followed_runMethods_woven {c : ClassDecl} (hc : c ∈ u.classes) {m : MethodDecl}
    (hm : m ∈ c.methods) {args : List Value} (hargs : m.params.length = args.length) :
    Followed (Good ok) (fun _ _ => True) fun i =>
      Eval.runMethod (((⟨u, w.hooks.runtimeClass⟩ : Program).withBodies
        (w.bodiesWhen u (loud i))).careful ok).meaning c
          { m with body := w.bodiesWhen u (loud i) c m } args :=
  Eval.followed_runMethods Eval.kept_true ⟨u, w.hooks.runtimeClass⟩
    (fun i => w.bodiesWhen u (loud i)) ok
    (fun _ hsides _ hc _ hm _ hargs =>
      followed_runMethod_woven ok loud hloud hr hscopes hsides hc hm hargs) hc hm hargs

theorem followed_outcomeWhile_woven (cls method : String) (args : List Value) :
    Followed (Good ok) (fun _ _ => True) fun i =>
      ((⟨u, w.hooks.runtimeClass⟩ : Program).withBodies
        (w.bodiesWhen u (loud i))).outcomeWhile ok cls method args :=
  Eval.followed_outcomeWhile Eval.kept_true ⟨u, w.hooks.runtimeClass⟩
    (fun i => w.bodiesWhen u (loud i)) ok
    (fun _ hsides _ hc _ hm _ hargs =>
      followed_runMethod_woven ok loud hloud hr hscopes hsides hc hm hargs) cls method args

end

/-- Weaving preserves meaning.  Let a unit be woven in which every class is found under its
own name.  Then a call ends with the same value, with the same throwable or with a fault in
both programs, or in none; and the fields and arrays that are left are the same.  The call
must not put an array into itself, as such an array cannot be reported. -/
theorem weaving_preserves_meaning {w : Weaver} {u u' : CompilationUnit} {report : UnitReport}
    (hr : Reportable u) (hscopes : u.EveryBody fun _ body => Stmt.EveryIn ScopesHere body)
    (hw : w.weaveUnit u = .ok (u', report)) {cls method : String} {args : List Value} {s : State}
    (hacyclic : (⟨u, w.hooks.runtimeClass⟩ : Program).StaysAcyclic cls method args s) :
    ∃ bound, ∀ steps ≥ bound,
      ((⟨u, w.hooks.runtimeClass⟩ : Program).call steps cls method args s).Agrees
        (fun _ _ => True)
        ((⟨u', w.hooks.runtimeClass⟩ : Program).call steps cls method args s) := by
  let p : Program := ⟨u, w.hooks.runtimeClass⟩
  have hprogram : (⟨u', w.hooks.runtimeClass⟩ : Program) = w.program u := weaveUnit_ok hw _
  have hown : p.withBodies (w.bodiesWhen u false) = p := p.withBodies_own
  rw [hprogram]
  apply Program.agrees_call
  -- the call stays acyclic as it is, and the woven one can make its reports beside it
  have hforth := followed_outcomeWhile_woven (w := w) Heap.isAcyclic (fun i => i)
    (fun _ _ hgood => hgood) hr hscopes cls method args s s.recorder hacyclic.1 trivial
  change ((p.withBodies (w.bodiesWhen u false)).outcomeWhile Heap.isAcyclic cls method args
    s).Matched _ _ ((w.program u).outcomeWhile Heap.isAcyclic cls method args s) at hforth
  rw [hown, hacyclic.2] at hforth
  have hback := followed_outcomeWhile_woven (w := w) (fun _ => true) (fun i => !i)
    (fun hon => nomatch hon) hr hscopes cls method args s s.recorder rfl trivial
  change ((w.program u).outcomeWhile (fun _ => true) cls method args s).Matched _ _
    ((p.withBodies (w.bodiesWhen u false)).outcomeWhile (fun _ => true) cls method args s) at hback
  rw [hown, Program.outcomeWhile_true, Program.outcomeWhile_true] at hback
  exact (hforth.of_within ((w.program u).outcomeWhile_within Heap.isAcyclic cls method
    args)).agrees_of_matched hback

theorem weaving_preserves_meaning_drain :
    Reportable drainUnit ∧ (drainUnit.EveryBody fun _ body => Stmt.EveryIn ScopesHere body) ∧
    ∃ u' report, (Weaver.ofSettings .standard).weaveUnit drainUnit = .ok (u', report) ∧
      (⟨drainUnit, (Weaver.ofSettings .standard).hooks.runtimeClass⟩ : Program).StaysAcyclic "Tank"
        "drain" [.int 5] .initial ∧
      ∃ bound, ∀ steps ≥ bound,
        ((⟨drainUnit, (Weaver.ofSettings .standard).hooks.runtimeClass⟩ : Program).call steps "Tank"
          "drain" [.int 5] .initial).Agrees (fun _ _ => True)
          ((⟨u', (Weaver.ofSettings .standard).hooks.runtimeClass⟩ : Program).call steps "Tank"
            "drain" [.int 5] .initial) := by
  have hr : Reportable drainUnit := ⟨by decide, by decide, by decide⟩
  have hscopes : drainUnit.EveryBody fun _ body => Stmt.EveryIn ScopesHere body := by decide
  have hw : ∃ result, (Weaver.ofSettings .standard).weaveUnit drainUnit = .ok result := ⟨_, rfl⟩
  rcases hw with ⟨⟨u', report⟩, hw⟩
  have hacyclic : (⟨drainUnit, (Weaver.ofSettings .standard).hooks.runtimeClass⟩ :
      Program).StaysAcyclic "Tank" "drain" [.int 5] .initial :=
    Program.staysAcyclic_of_isDone (n := 30) rfl (by decide +kernel)
  exact ⟨hr, hscopes, u', report, hw, hacyclic,
    weaving_preserves_meaning hr hscopes hw hacyclic⟩

/-- Where a class is found in place of another one, the report of a write can read a field
that is not there: a call that ended with a value ends in a fault once it is woven. -/
theorem shadowed_write_faults_woven :
    shadowUnit.Avoids (Weaver.ofSettings .standard).hooks.runtimeClass ∧
    shadowUnit.EveryBody Arranged ∧
    (shadowUnit.EveryBody fun _ body => Stmt.EveryIn (HoldsHere ReportsOwn) body) ∧
    (shadowUnit.EveryBody fun _ body => Stmt.EveryIn ScopesHere body) ∧
    ¬ Eval.OwnNames shadowUnit ∧
    ∃ u' report, (Weaver.ofSettings .standard).weaveUnit shadowUnit = .ok (u', report) ∧
      (⟨shadowUnit, (Weaver.ofSettings .standard).hooks.runtimeClass⟩ : Program).StaysAcyclic
        "p.p.A" "run" [] .initial ∧
      ((⟨shadowUnit, (Weaver.ofSettings .standard).hooks.runtimeClass⟩ : Program).call 20 "p.p.A"
        "run" [] .initial).isDone = true ∧
      ((⟨u', (Weaver.ofSettings .standard).hooks.runtimeClass⟩ : Program).call 20 "p.p.A" "run"
        [] .initial).isFault = true := by
  have hw : ∃ result, (Weaver.ofSettings .standard).weaveUnit shadowUnit = .ok result := ⟨_, rfl⟩
  rcases hw with ⟨⟨u', report⟩, hw⟩
  refine ⟨by decide, by decide, by decide, by decide, by decide, u', report, hw,
    Program.staysAcyclic_of_isDone (n := 20) rfl (by decide +kernel), by decide +kernel, ?_⟩
  rw [weaveUnit_ok hw]
  decide +kernel

end Weave
end TraceWeaving
