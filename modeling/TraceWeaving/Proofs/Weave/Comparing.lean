import TraceWeaving.Proofs.Eval.Nesting
import TraceWeaving.Proofs.Weave.Readable
import TraceWeaving.Proofs.Weave.Reference

/-!
# Runs with and without reports

Two runs of the same code that differ in what they report go the same way, as long as what
is reported can be read and copied.  The places that a report reads are known to be readable
from what was done before, so a comparison carries along which places those are.
-/

namespace TraceWeaving
namespace Eval

open Code
open Trace (Throwable Report Recorder Snapshot)
open Weave (Write writesIn)

variable {α β : Type}

def State.Shows (s : State) (ws : List Write) : Prop :=
  ∀ w ∈ ws, Readable s w.target

theorem State.Shows.grown {s s' : State} {ws : List Write} (h : s.Shows ws) (hs : s.Grown s') :
    s'.Shows ws :=
  fun w hw => (h w hw).grown hs

theorem State.Shows.pushScope {s : State} {ws : List Write} (h : s.Shows ws) :
    s.pushScope.Shows ws :=
  h

/-- A kind of reports that makes no difference to related recorders. -/
def Overlooks (κ : Recorder → Recorder → Prop) (kind : Report → Prop) : Prop :=
  ∀ {k k' : Recorder}, κ k k' → ∀ id report, kind report →
    κ (k.receive id report) k' ∧ κ k (k'.receive id report)

/-- The terms on which runs are compared: an evaluator for the expressions of a program, the
heaps on which it goes on, and how the recorders of the runs are related. -/
structure Comparison where
  program : Program
  evaluator : Evaluator
  good : Heap → Bool
  related : Recorder → Recorder → Prop
  kept : Kept related
  runs : Runs program evaluator
  growing : evaluator.Growing
  followed : Evaluator.Has (Followed (Good good) related) fun _ => evaluator

namespace Comparison

noncomputable def careful (p : Program) (ok : Heap → Bool) {κ : Recorder → Recorder → Prop}
    (hκ : Kept κ) : Comparison where
  program := p
  evaluator := (p.careful ok).meaning
  good := ok
  related := κ
  kept := hκ
  runs :=
    { below := fun e s => by
        rw [(p.regular_careful ok).eval_meaning e]
        exact p.careful_eval_within ok _ e s
      eval := fun e he => by
        rw [(p.regular_careful ok).eval_meaning e]
        show (if e.changesHeap then _ else _) = _
        rw [he]
        rfl
      exec := (p.regular_careful ok).exec_meaning
      passes := (p.passes_careful ok).eval
      plain := (p.regular_careful ok).plain_meaning rfl rfl }
  growing := p.growing_careful ok
  followed := followed_careful hκ p ok

variable (C : Comparison)

abbrev proviso : Proviso :=
  fun heap cls => C.good heap = true ∧ OwnNamed C.program cls

/-- The second run goes the way of the first one from wherever the given places can be
read. -/
structure Trails (ws : List Write) (x : Bool → Action α) : Prop where
  grows : ∀ i, Grows (x i)
  matched : ∀ s k, s.Meets C.proviso → s.Shows ws → C.related s.recorder k →
    (x false s).Matched C.proviso C.related (x true (s.recording k))

namespace Trails

variable {C} {ws ws' : List Write}

theorem of_followed {x : Bool → Action α} (hgrows : ∀ i, Grows (x i))
    (hx : Followed C.proviso C.related x) : C.Trails ws x :=
  ⟨hgrows, fun s k hs _ hk => hx s k hs hk⟩

theorem to_followed {x : Bool → Action α} (hx : C.Trails [] x) :
    Followed C.proviso C.related x :=
  fun s k hs hk => hx.matched s k hs (fun _ hw => absurd hw List.not_mem_nil) hk

theorem of_good {x : Bool → Action α} (hgrows : ∀ i, Grows (x i))
    (hx : Followed (Good C.good) C.related x) : C.Trails ws x := by
  refine .of_followed hgrows fun s k hs hk => ?_
  have hmatched := hx s k hs.1 hk
  have hgrown := hgrows false s
  cases ho : x false s with
  | done a s' | thrown t s' =>
      rw [ho] at hmatched hgrown
      refine ⟨⟨hmatched.1, ?_⟩, hmatched.2⟩
      rw [hgrown.cls]
      exact hs.2
  | fault e s' =>
      rw [ho] at hmatched
      exact hmatched
  | exhausted => trivial

theorem weaken {x : Bool → Action α} (hx : C.Trails ws x) (hsub : ws ⊆ ws') : C.Trails ws' x :=
  ⟨hx.grows, fun s k hs hshows hk => hx.matched s k hs (fun w hw => hshows w (hsub hw)) hk⟩

theorem of_nil {x : Bool → Action α} (hx : C.Trails [] x) : C.Trails ws x :=
  hx.weaken (List.nil_subset ws)

theorem andThen {x : Bool → Action α} {f : Bool → α → Action β} {g : Bool → Throwable → Action β}
    (hx : C.Trails ws x) (hf : ∀ a, C.Trails ws fun i => f i a)
    (hg : ∀ t, C.Trails ws fun i => g i t) :
    C.Trails ws fun i => (x i).andThen (f i) (g i) where
  grows i := (hx.grows i).andThen (fun a => (hf a).grows i) fun t => (hg t).grows i
  matched s k hs hshows hk := by
    have hxs := hx.matched s k hs hshows hk
    have hgrown := hx.grows false s
    show Outcome.Matched C.proviso C.related ((x false s).andThen (f false) (g false))
      ((x true (s.recording k)).andThen (f true) (g true))
    cases ho : x false s with
    | done a s' =>
        rw [ho] at hxs hgrown
        rcases hxs with ⟨hs', k', ho', hk'⟩
        rw [ho']
        exact (hf a).matched s' k' hs' (hshows.grown hgrown) hk'
    | thrown t s' =>
        rw [ho] at hxs hgrown
        rcases hxs with ⟨hs', k', ho', hk'⟩
        rw [ho']
        exact (hg t).matched s' k' hs' (hshows.grown hgrown) hk'
    | fault e s' =>
        rw [ho] at hxs
        rcases hxs with ⟨e', k', ho', hk'⟩
        rw [ho']
        exact ⟨e', k', rfl, hk'⟩
    | exhausted => trivial

theorem inScope {x : Bool → Action α} (hx : C.Trails ws x) :
    C.Trails ws fun i => Action.inScope (x i) where
  grows i := closed_grows.inScope (x := fun _ => x i) (hx.grows i)
  matched s k hs hshows hk :=
    (hx.matched s.pushScope k hs hshows.pushScope hk).mapState (fun _ h => h) (fun _ => rfl)
      fun _ _ => rfl

end Trails

theorem closed_trails (ws : List Write) : ClosedStmtHere (ι := Bool) (C.Trails ws) where
  look g := .of_followed (fun _ => .look g) ((closed_followed C.kept).look g)
  raise t := .of_followed (fun _ => closed_grows.raise t) ((closed_followed C.kept).raise t)
  fail f := .of_followed (fun _ => .fail f) ((closed_followed C.kept).fail f)
  exhausted := .of_followed (fun _ => closed_grows.exhausted) (closed_followed C.kept).exhausted
  andThen := .andThen
  inScope := .inScope
  declare name value := .of_followed (fun _ => closed_grows.declare name value)
    ((closed_followed C.kept).declare name value)
  assign name value := .of_followed (fun _ => closed_grows.assign name value)
    ((closed_followed C.kept).assign name value)
  setField cls name value := .of_followed (fun _ => closed_grows.setField cls name value)
    ((closed_followed C.kept).setField cls name value)
  openNew cls := .of_followed (fun _ => closed_grows.openNew cls)
    ((closed_followed C.kept).openNew cls)
  invoking cls method := .of_followed (fun _ => closed_grows.invoking cls method)
    ((closed_followed C.kept).invoking cls method)
  advance millis := .of_followed (fun _ => closed_grows.advance millis)
    ((closed_followed C.kept).advance millis)

variable {C}

theorem trails_fail {ws : List Write} (f : Bool → Fault) :
    C.Trails ws fun i => (Action.fail (f i) : Action α) :=
  .of_followed (fun i => .fail (f i)) (.fail f)

theorem trails_record {ws : List Write} (id : String) (report : Report) :
    C.Trails ws fun _ => Action.record id report :=
  .of_followed (fun _ => .receive id report)
    (.record (f := fun k => k.receive id report) fun _ _ hk => C.kept.receive hk id report)

theorem trails_eval {ws : List Write} (e : Expr) : C.Trails ws fun _ => C.evaluator.eval e :=
  .of_good (fun _ => C.growing.eval e) (C.followed.eval e)

theorem trails_exec {ws : List Write} (s : Stmt) : C.Trails ws fun _ => C.evaluator.exec s :=
  .of_good (fun _ => C.growing.exec s) (C.followed.exec s)

/-- Work in the frame of a class that is found under its own name, which may rely on what
can be read in that frame. -/
theorem Trails.inFrame_of_shows {ws : List Write} {x : Bool → Action α} (hx : C.Trails ws x)
    {frame : Frame} (hown : OwnNamed C.program frame.cls)
    (hshows : ∀ s : State, (s.pushFrame frame).Shows ws) :
    Followed (Good C.good) C.related fun i => Action.inFrame frame (x i) := by
  intro s k hs hk
  have hinner := hx.matched (s.pushFrame frame) k ⟨hs, hown⟩ (hshows s) hk
  refine hinner.mapState (fun s' hs' => ?_) recorder_popFrame recording_popFrame
  unfold State.Meets State.popFrame at *
  cases s'.callers with
  | nil => exact hs'.1
  | cons _ _ => exact hs'.1

theorem Trails.inFrame {x : Bool → Action α} (hx : C.Trails [] x) {frame : Frame}
    (hown : OwnNamed C.program frame.cls) :
    Followed (Good C.good) C.related fun i => Action.inFrame frame (x i) :=
  hx.inFrame_of_shows hown fun _ _ hw => absurd hw List.not_mem_nil

theorem followed_prepareCall (c : ClassDecl) (m : MethodDecl) :
    Followed (Good C.good) C.related fun _ => prepareCall C.evaluator c m := by
  have h : ClosedStmt (ι := Bool) (Followed (Good C.good) C.related) := closed_followed_heap C.kept
  exact h.prepareCall (h.useClass fun _ _ e _ => C.followed.eval e) m

/-! ## What was made readable -/

/-- Work of both runs after which the given places can be read. -/
structure Leaving (C : Comparison) (ws : List Write) (x : Bool → Action α) : Prop where
  trails : C.Trails [] x
  leaves : Leaves C.program ws (x false)

namespace Leaving

variable {ws ws' : List Write} {x : Bool → Action α}

theorem of_trails (hx : C.Trails [] x) : C.Leaving [] x :=
  ⟨hx, .of_grows (hx.grows false)⟩

theorem andThen {f : Bool → α → Action β} (hx : C.Leaving ws x)
    (hf : ∀ a, C.Trails [] fun i => f i a) : C.Leaving ws fun i => x i >>= f i where
  trails := (C.closed_trails []).bind hx.trails hf
  leaves := hx.leaves.andThen fun a => (hf a).grows false

theorem both {f : Bool → α → Action β} (hx : C.Leaving ws x)
    (hf : ∀ a, C.Leaving ws' fun i => f i a) : C.Leaving (ws ++ ws') fun i => x i >>= f i where
  trails := (C.closed_trails []).bind hx.trails fun a => (hf a).trails
  leaves := hx.leaves.bind fun a => (hf a).leaves

theorem bind {f : Bool → α → Action β} (hx : C.Leaving ws x)
    (hf : ∀ a, C.Trails ws fun i => f i a) : C.Trails [] fun i => x i >>= f i where
  grows i := (hx.trails.grows i).bind fun a => (hf a).grows i
  matched s k hs hshows hk := by
    have hxs := hx.trails.matched s k hs hshows hk
    show Outcome.Matched C.proviso C.related ((x false >>= f false) s)
      ((x true >>= f true) (s.recording k))
    rw [Action.bind_eq_andThen, Action.bind_eq_andThen]
    show Outcome.Matched C.proviso C.related ((x false s).andThen (f false) Action.raiseValue)
      ((x true (s.recording k)).andThen (f true) Action.raiseValue)
    cases ho : x false s with
    | done a s' =>
        rw [ho] at hxs
        rcases hxs with ⟨hs', k', ho', hk'⟩
        rw [ho']
        exact (hf a).matched s' k' hs' (hx.leaves.readable hs.2 ho) hk'
    | thrown t s' =>
        rw [ho] at hxs
        rcases hxs with ⟨hs', k', ho', hk'⟩
        rw [ho']
        exact ⟨hs', k', rfl, hk'⟩
    | fault e s' =>
        rw [ho] at hxs
        rcases hxs with ⟨e', k', ho', hk'⟩
        rw [ho']
        exact ⟨e', k', rfl, hk'⟩
    | exhausted => trivial

end Leaving

theorem leaving_declare (ident : String) (value : Value) :
    C.Leaving [.ofVariable ident] fun _ => Action.modify fun s => s.declare ident value where
  trails := (C.closed_trails []).declare ident value
  leaves :=
    { grows := closed_grows.declare ident value
      readable := fun {s s' a} _ ho w hw => by
        obtain rfl := List.mem_singleton.mp hw
        have hdone : Outcome.done () (s.declare ident value) = .done a s' := ho
        obtain ⟨-, rfl⟩ := Outcome.done.inj hdone
        have hlookup : (s.declare ident value).frame.lookup? ident = some value :=
          (s.frame.lookup?_declare ident value ident).trans (if_pos rfl)
        show Option.isSome (((s.declare ident value).frame.lookup? ident).or _) = true
        rw [hlookup]
        rfl }

/-! ## Reports on one side or both -/

/-- A kind of reports is made on both sides, or on none.  Or its reports make no difference,
and the second run can make them. -/
def Optional (C : Comparison) (on : Bool → Bool) (kind : Report → Prop) : Prop :=
  on false = on true ∨ Overlooks C.related kind ∧
    (on true = true → ∀ heap, C.good heap = true → heap.isAcyclic = true)

section

variable {on : Bool → Bool} {kind : Report → Prop} (hon : C.Optional on kind)

include hon

theorem trails_copy (report : Snapshot → Report) (hreport : ∀ copy, kind (report copy))
    (id : String) (value : Value) {ws : List Write} :
    C.Trails ws fun i => if on i then
      value.snapshot >>= fun copy => Action.record id (report copy) else Pure.pure () := by
  have h := C.closed_trails ws
  have hboth : C.Trails ws fun _ : Bool =>
      value.snapshot >>= fun copy => Action.record id (report copy) :=
    h.bind (h.snapshot value) fun copy => trails_record id (report copy)
  have hcopy : ∀ s : State, (value.snapshot >>= fun copy => Action.record id (report copy)) s =
      match s.heap.snapshot? value with
      | some copy => .done () (s.recording (s.recorder.receive id (report copy)))
      | none => .exhausted := by
    intro s
    show Action.bind (Action.orDiverge (s.heap.snapshot? value)) _ s = _
    cases s.heap.snapshot? value <;> rfl
  have hgrows : ∀ i, Grows (if on i then
      value.snapshot >>= fun copy => Action.record id (report copy) else Pure.pure ()) := by
    intro i
    cases on i with
    | false => exact .pure ()
    | true => exact hboth.grows i
  cases hfalse : on false with
  | false =>
      cases htrue : on true with
      | false =>
          refine ⟨hgrows, fun s k hs _ hk => ?_⟩
          simp only [hfalse, htrue]
          exact ⟨hs, k, rfl, hk⟩
      | true =>
          rcases hon with hsame | ⟨hoverlooks, hacyclic⟩
          · rw [hfalse, htrue] at hsame
            exact absurd hsame (by decide)
          refine ⟨hgrows, fun s k hs _ hk => ?_⟩
          simp only [hfalse, htrue, if_true, hcopy]
          rcases Heap.snapshot?_of_isAcyclic (hacyclic htrue s.heap hs.1) value with ⟨copy, hc⟩
          rw [show (s.recording k).heap = s.heap from rfl, hc]
          exact ⟨hs, k.receive id (report copy), rfl, (hoverlooks hk id _ (hreport copy)).2⟩
  | true =>
      cases htrue : on true with
      | false =>
          rcases hon with hsame | ⟨hoverlooks, -⟩
          · rw [hfalse, htrue] at hsame
            exact absurd hsame (by decide)
          refine ⟨hgrows, fun s k hs _ hk => ?_⟩
          simp only [hfalse, htrue, if_true, hcopy]
          cases s.heap.snapshot? value with
          | none => trivial
          | some copy => exact ⟨hs, k, rfl, (hoverlooks hk id _ (hreport copy)).1⟩
      | true =>
          refine ⟨hgrows, fun s k hs hshows hk => ?_⟩
          simp only [hfalse, htrue, if_true]
          exact hboth.matched s k hs hshows hk

end

end Comparison

end Eval
end TraceWeaving
