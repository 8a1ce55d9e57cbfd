import TraceWeaving.Proofs.Weave.Activation
import TraceWeaving.Proofs.Weave.Returned
import TraceWeaving.Proofs.Weave.Starts

/-!
# Woven methods and observed methods

A woven body is measured against the body that the method had before, in normal form.  An
observer executes it: the call of another constructor first, then the entry, the deadline,
and the statements with the reports that are asked for, until the exit is recorded on
every way out.  Executing the woven body comes to the same.
-/

namespace TraceWeaving
namespace Weave

open Code
open Eval (ReturnsIn)

/-! ## Returned values of normal code -/

theorem isValueReturn_of_isBlock {s : Stmt} (h : s.isBlock = true) : isValueReturn s = false := by
  cases s with
  | block _ => rfl
  | decl _ _ _ | expr _ | ifElse _ _ _ | whileLoop _ _ | doWhile _ _ | forLoop _ _ _ _
  | forEach _ _ _ _ | labeled _ _ | switch _ _ | breakTo _ | continueTo _ | ret _ | raise _
  | tryCatch _ _ _ | sync _ _ | unmodelled _ => exact absurd h (by simp [Stmt.isBlock])

theorem isValueReturn_of_keeps {s : Stmt} (h : chainsElse s = true ∨ keepsLabel s = true) :
    isValueReturn s = false := by
  cases s with
  | ret value => exact absurd h (by simp [chainsElse, keepsLabel, Stmt.isLoop])
  | block _ | decl _ _ _ | expr _ | ifElse _ _ _ | whileLoop _ _ | doWhile _ _
  | forLoop _ _ _ _ | forEach _ _ _ _ | labeled _ _ | switch _ _ | breakTo _ | continueTo _
  | raise _ | tryCatch _ _ _ | sync _ _ | unmodelled _ => rfl

theorem returnsBare_of_normalHere {s : Stmt} (h : NormalHere s) : returnsBare s = false := by
  have hbodies : ∀ t ∈ s.bodies, isValueReturn t = false := by
    intro t ht
    cases s with
    | ifElse cond ifTrue ifFalse =>
        rcases List.mem_cons.mp ht with rfl | ht
        · exact isValueReturn_of_isBlock h.1
        · rcases h.2 t (Option.mem_toList.mp ht) with hs | hs
          · exact isValueReturn_of_keeps (.inl hs)
          · exact isValueReturn_of_isBlock hs
    | whileLoop _ _ | doWhile _ _ | forLoop _ _ _ _ | forEach _ _ _ _ =>
        obtain rfl := List.mem_singleton.mp ht
        exact isValueReturn_of_isBlock h
    | labeled label body =>
        obtain rfl := List.mem_singleton.mp ht
        rcases h with hs | hs
        · exact isValueReturn_of_keeps (.inr hs)
        · exact isValueReturn_of_isBlock hs
    | block _ | decl _ _ _ | expr _ | switch _ _ | breakTo _ | continueTo _ | ret _ | raise _
    | tryCatch _ _ _ | sync _ _ | unmodelled _ => exact absurd ht List.not_mem_nil
  exact List.any_eq_false.mpr fun t ht => by simp [hbodies t ht]

theorem placeable_returnsBare (hooks : Hooks) (id : String) (bound : Nat) :
    Placeable hooks id bound fun s => returnsBare s = false where
  alike _ hbare h := Bool.eq_false_iff.mpr fun ht => absurd (hbare ht) (by simp [h])
  block _ := rfl
  changed _ _ _ := rfl
  test _ _ _ := rfl
  forever _ := rfl
  leave := rfl
  iteration _ _ _ := rfl
  next _ _ := rfl
  start _ := rfl
  forLoop h _ hbody := by
    simp only [returnsBare, Stmt.bodies, List.any_cons, List.any_nil, Bool.or_false] at h ⊢
    exact Bool.eq_false_iff.mpr fun ht => absurd (hbody ht) (by simp [h])

section

variable {keep : Expr → Bool} {type : TypeName}

theorem returnsIn_extractList (hname : ∀ ident, keep (.name ident) = true) {stmts : List Stmt}
    (h : ∀ s ∈ stmts, returnsBare s = false ∧
      ∀ t ∈ s.children, t.Every (ReturnsIn fun value => keep value = true)) (n : Nat) :
    Stmt.EveryIn (ReturnsIn fun value => keep value = true)
      (extractReturnsInList keep type stmts n).1 := by
  intro t ht
  rcases List.mem_flatten.mp ht with ⟨list, hlist, ht⟩
  rcases (mapM_naming stmts n fun s _ k => le_extractReturn keep type s k).2 list hlist with
    ⟨s, hs, k, _, rfl⟩
  unfold extractReturn at ht
  split at ht
  · rename_i value
    split at ht
    · rename_i hkeep
      obtain rfl := List.mem_singleton.mp ht
      refine (Stmt.every_leaf rfl).mpr ⟨rfl, fun value' hvalue => ?_⟩
      obtain rfl := Option.some.inj (Stmt.ret.inj hvalue)
      exact hkeep
    · rcases List.mem_cons.mp ht with rfl | ht
      · exact (Stmt.every_leaf rfl).mpr ⟨rfl, fun _ hvalue => Stmt.noConfusion hvalue⟩
      · obtain rfl := List.mem_singleton.mp ht
        refine (Stmt.every_leaf rfl).mpr ⟨rfl, fun value' hvalue => ?_⟩
        obtain rfl := Option.some.inj (Stmt.ret.inj hvalue)
        exact hname _
  · rename_i hother
    obtain rfl := List.mem_singleton.mp ht
    exact Stmt.every_iff.mpr
      ⟨⟨(h t hs).1, fun value hvalue => absurd hvalue (hother value)⟩, (h t hs).2⟩

theorem returnsIn_extractNested (hname : ∀ ident, keep (.name ident) = true) (s : Stmt)
    (h : s.Every fun s => returnsBare s = false) (n : Nat) :
    ∀ t ∈ (Stmt.transformNested (extractReturnsInList keep type) s n).1.children,
      t.Every (ReturnsIn fun value => keep value = true) := by
  induction s using Stmt.childInduction generalizing n with
  | step s ih =>
      intro t ht
      cases (transformNested_source (le_extractReturnsInList keep type) s n).2 t ht with
      | @body c k hc hk ht =>
          have hchild := s.bodies_subset hc
          have hreturn : isValueReturn t = false := by
            rw [ht, isValueReturn_of_head (head_transformNested c k)]
            have hbare : s.bodies.any isValueReturn = false := h.here
            simpa using List.any_eq_false.mp hbare c hc
          rw [ht] at hreturn ⊢
          refine Stmt.every_iff.mpr ⟨⟨?_, ?_⟩, ih c hchild (h.child hchild) k⟩
          · rw [returnsBare_transformNested]
            exact (h.child hchild).here
          · intro value hvalue
            rw [hvalue] at hreturn
            exact absurd hreturn (by simp [isValueReturn])
      | @list stmts k hstmts hk ht =>
          refine returnsIn_extractList hname (fun t' ht' => ?_) _ t ht
          rcases (mem_transformNestedInAll _
            (fun s _ n => (transformNested_source (le_extractReturnsInList keep type) s n).1) _).2
              t' ht' with ⟨c, hc, k', _, rfl⟩
          have hchild := hstmts hc
          refine ⟨?_, ih c hchild (h.child hchild) k'⟩
          rw [returnsBare_transformNested]
          exact (h.child hchild).here

theorem returnsIn_extractReturns (type : TypeName) (hname : ∀ ident, keep (.name ident) = true)
    {body : List Stmt}
    (h : Stmt.EveryIn (fun s => returnsBare s = false) body) (n : Nat) :
    Stmt.EveryIn (ReturnsIn fun value => keep value = true)
      (transformLists (extractReturnsInList keep type) body n).1 := by
  apply returnsIn_extractList hname
  intro t ht
  rcases (mem_transformNestedInAll _
    (fun s _ n => (transformNested_source (le_extractReturnsInList keep type) s n).1) _).2 t ht with
    ⟨s, hs, k, _, rfl⟩
  constructor
  · rw [returnsBare_transformNested]
    exact (h s hs).here
  · exact returnsIn_extractNested hname s (h s hs) k

end

end Weave

namespace Eval

open Code
open Weave

/-! ## Observers -/

/-- An evaluator that hosts a program and executes statements in the usual way, whatever
its expressions do. -/
structure Runs (p : Program) (E : Evaluator) : Prop extends Hosts p E where
  passes : ∀ e, PassesFrom 0 (E.eval e)
  plain : plain E E.eval = E

theorem runs_meaning (p : Program) : Runs p p.meaning where
  toHosts := hosts_meaning p
  passes := p.passes_meaning.eval
  plain := p.regular_rules.plain_meaning rfl rfl

/-- Executes statements, and reports value changes if that is asked for. -/
noncomputable def observer (E : Evaluator) (id : String) (changes : Bool)
    (returnBy : Expr → Action Value) : Evaluator :=
  if changes then tracer E id returnBy else plain E returnBy

theorem passes_returnRule {E : Evaluator} (hE : ∀ e, PassesFrom 0 (E.eval e)) (id : String)
    (reported : Bool) (value : Expr) : PassesFrom 0 (returnRule E id reported value) := by
  have h := closed_passes 0
  have hreport : ∀ (report : Trace.Report) (result : Value),
      PassesFrom 0 (Action.record id report >>= fun _ => Pure.pure result) := by
    intro report result
    refine h.bind (x := fun _ => Action.record id report) (f := fun _ _ => Pure.pure result) ?_
      fun _ => h.pure result
    exact fun _ _ _ => .modify fun _ => ⟨_, _, _, rfl, fun _ _ => rfl⟩
  refine h.bind (x := fun _ => E.eval value) (f := fun _ => handOver id reported) (hE value)
    fun result => ?_
  cases reported with
  | false => exact h.pure result
  | true =>
      exact h.bind (x := fun _ => result.snapshot)
        (f := fun _ copy => Action.record id (.returning copy) >>= fun _ => Pure.pure result)
        (h.snapshot result) fun copy => hreport _ result

end Eval

namespace Weave

open Code
open Eval (Evaluator Action Value Flow Program Runs observer returnRule guarding SameEnd
  reportWrites callFrame prepareCall resultOf)

namespace Weaver

def reportsReturns (w : Weaver) (s : Session) : Bool :=
  w.settings.traceReturns && s.decl.returnsValue

/-- The statements that an observer executes: the normal form of the former body, in which
returned values are moved into variables if value changes are reported. -/
def observed (w : Weaver) (s : Session) (body : List Stmt) : List Stmt :=
  if w.settings.traceChanges then (extracted Expr.isName s.decl (normalizeAll body) 0).1
  else normalizeAll body

noncomputable def observing (w : Weaver) (s : Session) (E : Evaluator) : Evaluator :=
  observer E s.id w.settings.traceChanges (returnRule E s.id (w.reportsReturns s))

def startWrites (w : Weaver) (start : Option Expr) : List Write :=
  if w.settings.traceChanges then start.toList.flatMap writesIn else []

/-- The activation of a method: the call of another constructor, the entry, the deadline and
what the activation is about, with the exit on every way out. -/
def activation (w : Weaver) (s : Session) (E : Evaluator) (start : Option Expr)
    (inner : Action Flow) : Action Flow := do
  E.evalEach start.toList
  E.exec (w.hooks.entering s.id s.decl.params) >>= Eval.ifNormal
    (guarding w.settings.traceErrors s.id (.inScope
      (E.execAll (w.deadline s) >>= Eval.ifNormal inner)))

noncomputable def observedRun (w : Weaver) (s : Session) (E : Evaluator) (body : List Stmt) :
    Action Flow :=
  let (start, rest) := splitStart s.decl body
  w.activation s E start do
    reportWrites E s.id (w.startWrites start)
    (w.observing s E).execAll (w.observed s rest)

noncomputable def observedCall (w : Weaver) (s : Session) (E : Evaluator) (c : ClassDecl)
    (body : List Stmt) (args : List Value) : Action Value := do
  prepareCall E c s.decl
  let flow ← Action.inFrame (callFrame c s.decl args) (w.observedRun s E body)
  resultOf flow

end Weaver

/-! ## Woven bodies -/

section

variable {w : Weaver} {s : Session} {p : Program} {E : Evaluator} (hE : Runs p E)
variable (hp : p.runtimeClass = w.hooks.runtimeClass)

include hE hp

theorem sameEnd_returned {body : List Stmt}
    (h : Stmt.EveryIn (fun s => returnsBare s = false) body) (n : Nat) :
    SameEnd ((Eval.plain E E.eval).execAll (w.returned s body n).1)
      ((Eval.plain E (returnRule E s.id (w.reportsReturns s))).execAll body) := by
  unfold Weaver.returned
  change SameEnd ((Eval.plain E E.eval).execAll ((if w.reportsReturns s = true then _ else _ :
    Naming (List Stmt)) n).1) _
  cases hr : w.reportsReturns s with
  | false =>
      rw [Eval.returnRule_false]
      exact .refl _
  | true =>
      have hvalue : s.decl.returnsValue = true := (Bool.and_eq_true_iff.mp hr).2
      have hhanding := hE.handing hp s.id
      show SameEnd ((Eval.plain E E.eval).execAll
        (reportReturns w.hooks s.id (extracted Expr.isTrivial s.decl body n).1)) _
      unfold extracted
      unfold MethodDecl.returnsValue at hvalue
      cases htype : s.decl.returnType with
      | none =>
          rw [htype] at hvalue
          exact absurd hvalue (by simp)
      | some type =>
          rw [htype] at hvalue
          have hvoid : isVoid type = false := by simpa using hvalue
          simp only [hvoid]
          let moved := (transformLists (extractReturnsInList Expr.isTrivial type) body n).1
          have hmoved : SameEnd ((Eval.plain E (returnRule E s.id true)).execAll moved) _ :=
            Eval.sameEnd_exchanged (Eval.exchanges_extractReturns hhanding true Expr.isTrivial type)
              (fun t ht => (h t ht).mono fun _ hbare => ⟨hbare, fun _ _ => trivial⟩) n
          have hreported := Eval.sameEnd_exchanged (Eval.exchanges_reportReturns hhanding)
            (returnsIn_extractReturns type (fun _ => rfl) h n) 0
          rw [transformLists_pure, Eval.returnRule_false] at hreported
          exact SameEnd.trans hreported hmoved

theorem execAll_changed {body : List Stmt} (hlabels : Stmt.EveryIn LabelsHere body) :
    (Eval.plain E (returnRule E s.id (w.reportsReturns s))).execAll
        (w.changed s (normalizeAll body) 0).1 =
      (w.observing s E).execAll (w.observed s body) := by
  unfold Weaver.changed Weaver.observing Weaver.observed observer
  cases w.settings.traceChanges with
  | false => rfl
  | true =>
      exact Eval.execAll_reportChanges (hE.reporting hE.passes hp s.id)
        (Eval.passes_returnRule hE.passes s.id _)
        (extracted_every (extractable_tidy _) (normalizeAll_tidy hlabels) 0) _

omit hE hp in
theorem changed_returnsBare {body : List Stmt} (hlabels : Stmt.EveryIn LabelsHere body) (n : Nat) :
    Stmt.EveryIn (fun s => returnsBare s = false) (w.changed s (normalizeAll body) n).1 := by
  have hbare : ∀ {stmts : List Stmt}, Stmt.EveryIn Tidy stmts →
      Stmt.EveryIn (fun s => returnsBare s = false) stmts :=
    fun h t ht => (h t ht).mono fun _ htidy => returnsBare_of_normalHere htidy.1
  have hnormal := normalizeAll_tidy hlabels
  unfold Weaver.changed
  split
  · exact reportChanges_every (placeable_returnsBare w.hooks s.id _)
      (hbare (extracted_every (extractable_tidy _) hnormal n)) _ (Nat.le_refl _)
  · exact hbare hnormal

/-- The statements between the reports of entry and exit do what the observer does. -/
theorem sameEnd_reported {body : List Stmt} (hlabels : Stmt.EveryIn LabelsHere body) :
    SameEnd (E.execAll (w.reported s body)) ((w.observing s E).execAll (w.observed s body)) := by
  have hbare : Stmt.EveryIn (fun s => returnsBare s = false)
      (w.changed s (normalizeAll body) 0).1 := changed_returnsBare hlabels 0
  have hreturned := sameEnd_returned (s := s) hE hp hbare (w.changed s (normalizeAll body) 0).2
  rw [hE.plain, execAll_changed hE hp hlabels] at hreturned
  exact hreturned

omit hp in
theorem execAll_exprs (es : List Expr) (rest : List Stmt) :
    E.execAll (es.map .expr ++ rest) = E.evalEach es >>= fun _ => E.execAll rest := by
  induction es with
  | nil => rfl
  | cons e es ih =>
      rw [List.map_cons, List.cons_append, Evaluator.execAll_cons, ih, hE.exec]
      show (E.eval e >>= fun _ => pure Flow.normal) >>= _ = (E.eval e >>= fun _ => _) >>= _
      simp only [bind_assoc, pure_bind]
      rfl

theorem evalEach_startCalls (start : Option Expr) :
    E.evalEach (start.toList.flatMap (w.startCalls s)) =
      reportWrites E s.id (w.startWrites start) := by
  have hcalls := (hE.reporting hE.passes hp s.id).evalEach_reportCalls
  unfold Weaver.startCalls Weaver.startWrites
  cases w.settings.traceChanges with
  | false => cases start <;> rfl
  | true =>
      cases start with
      | none => rfl
      | some e =>
          simp only [if_true, Option.toList_some, List.flatMap_cons, List.flatMap_nil,
            List.append_nil]
          exact hcalls (writesIn e)

theorem execAll_bodyOf {body : List Stmt} (hlabels : Stmt.EveryIn LabelsHere body)
    (hfirst : DelegatesFirst s.decl body) :
    E.execAll (w.bodyOf s body) = w.observedRun s E body := by
  rcases bodyOf_split w s hfirst with ⟨hfront, hrest⟩
  have hsuffix : Stmt.EveryIn LabelsHere (splitStart s.decl body).2 :=
    (splitStart_every s.decl hlabels).2
  have hinner : E.execBlock (w.rest s body) = Action.inScope (E.execAll (w.deadline s) >>=
      Eval.ifNormal (reportWrites E s.id (w.startWrites (splitStart s.decl body).1) >>= fun _ =>
        (w.observing s E).execAll (w.observed s (splitStart s.decl body).2))) := by
    unfold Evaluator.execBlock
    rw [hrest, Evaluator.execAll_append, execAll_exprs hE, evalEach_startCalls hE hp]
    apply SameEnd.inScope_eq
    apply SameEnd.ifNormal (.refl _)
    exact SameEnd.after _ fun _ => sameEnd_reported hE hp hsuffix
  rw [Weaver.bodyOf_eq, hfront, execAll_exprs hE, hE.execAll_wrapped hp]
  unfold Weaver.observedRun Weaver.activation Eval.guarded
  rw [hinner]

/-- A run of a woven method is an observed run of the method. -/
theorem runMethod_bodyOf (c : ClassDecl) {body : List Stmt}
    (hlabels : Stmt.EveryIn LabelsHere body) (hfirst : DelegatesFirst s.decl body)
    (args : List Value) :
    Eval.runMethod E c { s.decl with body := some (w.bodyOf s body) } args =
      w.observedCall s E c body args := by
  rw [Eval.runMethod_eq, execAll_bodyOf hE hp hlabels hfirst]
  rfl

end

end Weave
end TraceWeaving
