import TraceWeaving.Proofs.Weave.Errors

/-!
# When weaving fails

Two things make weaving fail: code without a model, and, where value changes are traced,
a `return` with a value in a method that has no type for it.  Both are looked for by
passes that go through the code in their own way; here they are conditions on all
statements of a body.  The other passes find what earlier ones have left behind and
never fail.
-/

namespace TraceWeaving
namespace Weave

open Code

/-! ## Code without a model -/

def unmodelledText? : Stmt → Option String
  | .unmodelled text => some text
  | _ => none

mutual

theorem unmodelled?_eq : ∀ s : Stmt, unmodelled? s = s.nodes.findSome? unmodelledText?
  | .unmodelled _ | .decl _ _ _ | .expr _ | .breakTo _ | .continueTo _ | .ret _ | .raise _ => rfl
  | .block stmts | .sync _ stmts => unmodelledInAll?_eq stmts
  | .whileLoop _ body | .doWhile body _ | .forLoop _ _ _ body | .forEach _ _ _ body
  | .labeled _ body => unmodelled?_eq body
  | .ifElse _ ifTrue ifFalse => by
      rw [unmodelled?, unmodelled?_eq ifTrue, unmodelledInElse?_eq ifFalse,
        ← List.findSome?_append]
      rfl
  | .switch _ cases => unmodelledInCases?_eq cases
  | .tryCatch body catches cleanup => by
      rw [unmodelled?, unmodelledInAll?_eq body, unmodelledInCatches?_eq catches,
        unmodelledInCleanup?_eq cleanup, ← List.findSome?_append, ← List.findSome?_append]
      rfl

theorem unmodelledInAll?_eq : ∀ stmts : List Stmt,
    unmodelledInAll? stmts = (Stmt.nodesOfAll stmts).findSome? unmodelledText?
  | [] => rfl
  | s :: rest => by
      rw [unmodelledInAll?, unmodelled?_eq s, unmodelledInAll?_eq rest, ← List.findSome?_append]
      rfl

theorem unmodelledInElse?_eq : ∀ s : Option Stmt,
    unmodelledInElse? s = (Stmt.nodesOfElse s).findSome? unmodelledText?
  | none => rfl
  | some s => unmodelled?_eq s

theorem unmodelledInCases?_eq : ∀ cases : List SwitchCase,
    unmodelledInCases? cases = (Stmt.nodesOfCases cases).findSome? unmodelledText?
  | [] => rfl
  | .mk _ body :: rest => by
      rw [unmodelledInCases?, unmodelledInAll?_eq body, unmodelledInCases?_eq rest,
        ← List.findSome?_append]
      rfl

theorem unmodelledInCatches?_eq : ∀ catches : List CatchClause,
    unmodelledInCatches? catches = (Stmt.nodesOfCatches catches).findSome? unmodelledText?
  | [] => rfl
  | .mk _ _ body :: rest => by
      rw [unmodelledInCatches?, unmodelledInAll?_eq body, unmodelledInCatches?_eq rest,
        ← List.findSome?_append]
      rfl

theorem unmodelledInCleanup?_eq : ∀ cleanup : Option (List Stmt),
    unmodelledInCleanup? cleanup = (Stmt.nodesOfCleanup cleanup).findSome? unmodelledText?
  | none => rfl
  | some stmts => unmodelledInAll?_eq stmts

end

/-- The text belongs to the first code without a model, in source order. -/
def FirstUnmodelled (body : List Stmt) (text : String) : Prop :=
  ∃ earlier later, Stmt.nodesOfAll body = earlier ++ .unmodelled text :: later ∧
    ∀ other, Stmt.unmodelled other ∉ earlier

theorem unmodelledText?_eq_some {s : Stmt} {text : String} :
    unmodelledText? s = some text ↔ s = .unmodelled text := by
  cases s <;> simp [unmodelledText?]

theorem unmodelledText?_eq_none {s : Stmt} :
    unmodelledText? s = none ↔ ∀ text, s ≠ .unmodelled text := by
  cases s <;> simp [unmodelledText?]

theorem unmodelledInAll?_eq_some {body : List Stmt} {text : String} :
    unmodelledInAll? body = some text ↔ FirstUnmodelled body text := by
  rw [unmodelledInAll?_eq, List.findSome?_eq_some_iff]
  constructor
  · rintro ⟨earlier, s, later, hnodes, hs, hearlier⟩
    obtain rfl := unmodelledText?_eq_some.mp hs
    exact ⟨earlier, later, hnodes, fun other hother =>
      unmodelledText?_eq_none.mp (hearlier _ hother) other rfl⟩
  · rintro ⟨earlier, later, hnodes, hearlier⟩
    refine ⟨earlier, .unmodelled text, later, hnodes, rfl, fun s hs => ?_⟩
    rw [unmodelledText?_eq_none]
    rintro other rfl
    exact hearlier other hs

theorem unmodelledInAll?_eq_none {body : List Stmt} :
    unmodelledInAll? body = none ↔ ∀ text, Stmt.unmodelled text ∉ Stmt.nodesOfAll body := by
  rw [unmodelledInAll?_eq, List.findSome?_eq_none_iff]
  constructor
  · exact fun h text hmem => unmodelledText?_eq_none.mp (h _ hmem) text rfl
  · intro h s hs
    rw [unmodelledText?_eq_none]
    rintro text rfl
    exact h text hs

/-! ## Values to return -/

def returnsIn (lists : List (ListRole × List Stmt)) : Bool :=
  lists.any fun list => list.2.any isValueReturn

theorem returnsIn_cons (role : ListRole) (stmts : List Stmt)
    (lists : List (ListRole × List Stmt)) :
    returnsIn ((role, stmts) :: lists) = (stmts.any isValueReturn || returnsIn lists) :=
  rfl

theorem returnsIn_append (xs ys : List (ListRole × List Stmt)) :
    returnsIn (xs ++ ys) = (returnsIn xs || returnsIn ys) :=
  List.any_append

def returnsHere (s : Stmt) : Bool :=
  isValueReturn s || returnsIn s.nestedLists

theorem returnsHere_asBlock (s : Stmt) : returnsHere (asBlock s) = returnsHere s := by
  unfold asBlock
  split
  · rfl
  · simp [returnsHere, Stmt.nestedLists, Stmt.nestedListsOfAll, isValueReturn, returnsIn_cons]

theorem returnsIn_nestedLists_of_keeps {s : Stmt}
    (h : keepsLabel s = true ∨ chainsElse s = true) :
    returnsIn (normalize s).nestedLists = returnsHere (normalize s) := by
  cases s <;> simp_all [keepsLabel, Stmt.isLoop, chainsElse, returnsHere, normalize, isValueReturn]

theorem returnsIn_nestedLists_asBlock (s : Stmt) :
    returnsIn (asBlock s).nestedLists = returnsHere s := by
  rw [← returnsHere_asBlock]
  unfold asBlock
  split
  · cases s <;> simp_all [returnsHere, isValueReturn, Stmt.isBlock]
  · rfl

mutual

/-- In normal form the lists reach every `return` with a value. -/
theorem returnsHere_normalize : ∀ s : Stmt,
    returnsHere (normalize s) = s.nodes.any isValueReturn
  | .unmodelled _ | .decl _ _ _ | .expr _ | .breakTo _ | .continueTo _ | .raise _ => rfl
  | .ret _ => by
      simp [returnsHere, normalize, Stmt.nestedLists, returnsIn, Stmt.nodes, Stmt.inner]
  | .block stmts | .sync _ stmts => returnsIn_normalizeAll stmts
  | .whileLoop _ body | .doWhile body _ | .forLoop _ _ _ body | .forEach _ _ _ body => by
      show returnsIn (asBlock (normalize body)).nestedLists = _
      rw [returnsIn_nestedLists_asBlock, returnsHere_normalize body]
      rfl
  | .labeled label body => by
      show returnsIn (if keepsLabel body then normalize body
        else asBlock (normalize body)).nestedLists = _
      split
      · rename_i hkeeps
        rw [returnsIn_nestedLists_of_keeps (.inl hkeeps), returnsHere_normalize body]
        rfl
      · rw [returnsIn_nestedLists_asBlock, returnsHere_normalize body]
        rfl
  | .ifElse _ ifTrue ifFalse => by
      show returnsIn ((asBlock (normalize ifTrue)).nestedLists ++
        Stmt.nestedListsOfElse (normalizeElse ifFalse)) = _
      rw [returnsIn_append, returnsIn_nestedLists_asBlock, returnsHere_normalize ifTrue,
        returnsIn_normalizeElse ifFalse, ← List.any_append]
      rfl
  | .switch _ cases => returnsIn_normalizeCases cases
  | .tryCatch body catches cleanup => by
      show returnsIn ((.block, normalizeAll body) ::
        Stmt.nestedListsOfAll (normalizeAll body) ++
        Stmt.nestedListsOfCatches (normalizeCatches catches) ++
        Stmt.nestedListsOfCleanup (normalizeCleanup cleanup)) = _
      rw [returnsIn_append, returnsIn_append, returnsIn_normalizeAll body,
        returnsIn_normalizeCatches catches, returnsIn_normalizeCleanup cleanup,
        ← List.any_append, ← List.any_append]
      rfl

theorem returnsIn_normalizeAll : ∀ stmts : List Stmt,
    returnsIn ((.block, normalizeAll stmts) :: Stmt.nestedListsOfAll (normalizeAll stmts)) =
      (Stmt.nodesOfAll stmts).any isValueReturn
  | [] => rfl
  | s :: rest => by
      have hs := returnsHere_normalize s
      have hrest := returnsIn_normalizeAll rest
      rw [returnsIn_cons] at hrest ⊢
      rw [normalizeAll, Stmt.nestedListsOfAll, returnsIn_append, List.any_cons]
      show _ = (s.nodes ++ Stmt.nodesOfAll rest).any isValueReturn
      rw [List.any_append, ← hs, ← hrest]
      unfold returnsHere
      ac_rfl

theorem returnsIn_normalizeElse : ∀ s : Option Stmt,
    returnsIn (Stmt.nestedListsOfElse (normalizeElse s)) =
      (Stmt.nodesOfElse s).any isValueReturn
  | none => rfl
  | some s => by
      show returnsIn (if chainsElse s then normalize s
        else asBlock (normalize s)).nestedLists = _
      split
      · rename_i hchains
        rw [returnsIn_nestedLists_of_keeps (.inr hchains), returnsHere_normalize s]
        rfl
      · rw [returnsIn_nestedLists_asBlock, returnsHere_normalize s]
        rfl

theorem returnsIn_normalizeCases : ∀ cases : List SwitchCase,
    returnsIn (Stmt.nestedListsOfCases (normalizeCases cases)) =
      (Stmt.nodesOfCases cases).any isValueReturn
  | [] => rfl
  | .mk _ body :: rest => by
      show returnsIn ((.block, normalizeAll body) ::
        Stmt.nestedListsOfAll (normalizeAll body) ++
        Stmt.nestedListsOfCases (normalizeCases rest)) = _
      rw [returnsIn_append, returnsIn_normalizeAll body, returnsIn_normalizeCases rest,
        ← List.any_append]
      rfl

theorem returnsIn_normalizeCatches : ∀ catches : List CatchClause,
    returnsIn (Stmt.nestedListsOfCatches (normalizeCatches catches)) =
      (Stmt.nodesOfCatches catches).any isValueReturn
  | [] => rfl
  | .mk _ _ body :: rest => by
      show returnsIn ((.block, normalizeAll body) ::
        Stmt.nestedListsOfAll (normalizeAll body) ++
        Stmt.nestedListsOfCatches (normalizeCatches rest)) = _
      rw [returnsIn_append, returnsIn_normalizeAll body, returnsIn_normalizeCatches rest,
        ← List.any_append]
      rfl

theorem returnsIn_normalizeCleanup : ∀ cleanup : Option (List Stmt),
    returnsIn (Stmt.nestedListsOfCleanup (normalizeCleanup cleanup)) =
      (Stmt.nodesOfCleanup cleanup).any isValueReturn
  | none => rfl
  | some stmts => returnsIn_normalizeAll stmts

end

theorem returnsSomeValue_normalizeAll {body : List Stmt} :
    returnsSomeValue (normalizeAll body) = true ↔
      ∃ value, Stmt.ret (some value) ∈ Stmt.nodesOfAll body := by
  have heq : returnsSomeValue (normalizeAll body) =
      (Stmt.nodesOfAll body).any isValueReturn := returnsIn_normalizeAll body
  rw [heq, List.any_eq_true]
  constructor
  · rintro ⟨s, hs, hret⟩
    cases s with
    | ret value =>
        cases value with
        | none => exact absurd hret (by simp [isValueReturn])
        | some value => exact ⟨value, hs⟩
    | _ => exact absurd hret (by simp [isValueReturn])
  · rintro ⟨value, hvalue⟩
    exact ⟨_, hvalue, rfl⟩

/-! ## Passes that fail -/

/-- The defect of a method with the given body, and the pass that finds it. -/
def Weaver.defect? (w : Weaver) (m : MethodDecl) (body : List Stmt) : Option (Pass × Defect) :=
  match unmodelledInAll? body with
  | some text => some (.normalize, .unmodelledCode text)
  | none =>
      if w.settings.traceChanges && !m.returnsValue && returnsSomeValue (normalizeAll body) then
        some (.changes, .valueWithoutType m.name)
      else none

theorem extractReturns_eq (keep : Expr → Bool) (decl : MethodDecl) (body : List Stmt) :
    extractReturns keep decl body =
      if !decl.returnsValue && returnsSomeValue body then .error (.valueWithoutType decl.name)
      else .ok (extracted keep decl body) := by
  unfold extractReturns extractReturns.refuseValues extracted MethodDecl.returnsValue
  cases decl.returnType with
  | none => cases returnsSomeValue body <;> rfl
  | some type =>
      by_cases hv : isVoid type = true
      · simp only [hv]
        cases returnsSomeValue body <;> rfl
      · simp only [hv]
        rfl

section

variable {w : Weaver} {s : Session} {body : List Stmt} (number : Nat)

theorem normalize_takes (h : unmodelledInAll? body = none) :
    Pass.Takes w s .normalize (s.holding body number) (s.holding (normalizeAll body) number) := by
  show (normalizeBody body >>= fun body => _) = _
  unfold normalizeBody
  rw [h]
  rfl

theorem changes_takes
    (h : (w.settings.traceChanges && !s.decl.returnsValue && returnsSomeValue body) = false) :
    Pass.Takes w s .changes (s.holding body number)
      (s.holding (w.changed s body number).1 (w.changed s body number).2) := by
  unfold Pass.Takes Pass.applies Weaver.changed
  by_cases hc : w.settings.traceChanges = true
  · simp only [hc, if_true, Bool.true_and] at h ⊢
    show (extractReturns Expr.isName (s.holding body number).decl body >>= fun work => _) = _
    have h' : (!(s.holding body number).decl.returnsValue && returnsSomeValue body) = false := h
    rw [extractReturns_eq, h']
    rfl
  · simp only [hc]
    rfl

theorem entryExit_takes : Pass.Takes w s .entryExit (s.holding body number)
    (s.holding (wrap w.hooks s.id s.decl.params body) number) :=
  rfl

theorem returns_takes (params : List Param) (inner : List Stmt) :
    ∃ after, Pass.Takes w s .returns (s.holding (wrap w.hooks s.id params inner) number)
      after := by
  unfold Pass.Takes
  by_cases hr : Pass.returns.applies w.settings s = true
  · simp only [hr, if_true, Pass.run]
    split
    · rename_i hv
      show ∃ after, (extractReturns Expr.isTrivial
        (s.holding (wrap w.hooks s.id params inner) number).decl
        (wrap w.hooks s.id params inner) >>= fun work => _) = Except.ok after
      rw [extractReturns_eq, hv]
      exact ⟨_, rfl⟩
    · exact ⟨_, rfl⟩
  · simp only [hr]
    exact ⟨_, rfl⟩

theorem timeout_takes (params : List Param) (inner : List Stmt) :
    ∃ after, Pass.Takes w s .timeout (s.holding (wrap w.hooks s.id params inner) number)
      after := by
  unfold Pass.Takes
  by_cases ht : Pass.timeout.applies w.settings s = true
  · simp only [ht, if_true, Pass.run]
    split
    · show ∃ after, (changeWrapper w.hooks _ (wrap w.hooks s.id params inner) >>=
        fun body => _) = Except.ok after
      unfold changeWrapper wrap
      rw [updateWrapper?_wrapper]
      exact ⟨_, rfl⟩
    · exact ⟨_, rfl⟩
  · simp only [ht]
    exact ⟨_, rfl⟩

end

/-- Weaving the method of a session goes wrong as its first defect says. -/
theorem runPasses_of_defect {w : Weaver} {s : Session} {body : List Stmt} {pass : Pass}
    {defect : Defect} (hbody : s.decl.body = some body) (hnumber : s.nextName = 0)
    (h : w.defect? s.decl body = some (pass, defect)) :
    w.runPasses (w.passesFor s) s = .error (.defective s.className s.decl.name pass defect) := by
  have hstart := s.eq_holding hbody hnumber
  have hfails : ∀ {pass : Pass} {rest : List Pass} {before : Session} {defect : Defect},
      pass.applies w.settings s = true → pass.run w.hooks before = .error defect →
      w.runPasses ((pass :: rest).filter fun pass => pass.applies w.settings s) before =
        .error (.defective before.className before.decl.name pass defect) := by
    intro pass rest before defect happlies hrun
    rw [List.filter_cons_of_pos (by simpa using happlies), Weaver.runPasses, hrun]
  unfold Weaver.defect? at h
  unfold Weaver.passesFor Pass.canonical
  cases hu : unmodelledInAll? body with
  | some text =>
      rw [hu] at h
      obtain ⟨rfl, rfl⟩ := Prod.mk.inj (Option.some.inj h)
      refine hfails rfl ?_
      rw [hstart]
      show (normalizeBody body >>= fun body => _) = _
      unfold normalizeBody
      rw [hu]
      rfl
  | none =>
      rw [hu] at h
      simp only at h
      split at h
      · rename_i hvalues
        obtain ⟨rfl, rfl⟩ := Prod.mk.inj (Option.some.inj h)
        simp only [Bool.and_eq_true, Bool.not_eq_true'] at hvalues
        obtain ⟨⟨hchanges, htype⟩, hreturn⟩ := hvalues
        have hnext : Pass.changes.run w.hooks (s.holding (normalizeAll body) 0) =
            .error (.valueWithoutType s.decl.name) := by
          show (extractReturns Expr.isName (s.holding (normalizeAll body) 0).decl
            (normalizeAll body) >>= fun work => _) = _
          have htype' : (s.holding (normalizeAll body) 0).decl.returnsValue = false := htype
          rw [extractReturns_eq, htype', hreturn]
          rfl
        rw [List.filter_cons_of_pos rfl, Weaver.runPasses]
        have hfirst : Pass.normalize.run w.hooks s = .ok (s.holding (normalizeAll body) 0) := by
          rw [hstart]
          exact normalize_takes (w := w) 0 hu
        rw [hfirst]
        exact hfails hchanges hnext
      · exact absurd h (by simp)

theorem runPasses_of_no_defect {w : Weaver} {s : Session} {body : List Stmt}
    (hbody : s.decl.body = some body) (hnumber : s.nextName = 0)
    (h : w.defect? s.decl body = none) :
    ∃ after, w.runPasses (w.passesFor s) s = .ok after := by
  have hstart := s.eq_holding hbody hnumber
  unfold Weaver.defect? at h
  cases hu : unmodelledInAll? body with
  | some text =>
      rw [hu] at h
      exact absurd h (by simp)
  | none =>
      rw [hu] at h
      simp only [ite_eq_right_iff, reduceCtorEq, imp_false, Bool.not_eq_true] at h
      have h1 : Pass.Takes w s .normalize s (s.holding (normalizeAll body) 0) := by
        have hholding := normalize_takes (w := w) (s := s) 0 hu
        rw [← hstart] at hholding
        exact hholding
      have h2 := changes_takes 0 h
      rcases returns_takes (w := w) (s := s)
        (w.changed s (normalizeAll body) 0).2 s.decl.params
        (w.changed s (normalizeAll body) 0).1 with ⟨s4, h4⟩
      obtain rfl := Pass.Takes.returns_holding h4
      rcases timeout_takes (w := w) (s := s)
        (w.returned s (w.changed s (normalizeAll body) 0).1
          (w.changed s (normalizeAll body) 0).2).2 s.decl.params
        (w.returned s (w.changed s (normalizeAll body) 0).1
          (w.changed s (normalizeAll body) 0).2).1 with ⟨s5, h5⟩
      obtain rfl := Pass.Takes.timeout_holding h5
      rcases errors_takes w s _ _ with ⟨s6, h6⟩
      obtain rfl := Pass.Takes.errors_holding h6
      rcases delegation_takes w s _ _ with ⟨s7, h7⟩
      unfold Weaver.passesFor Pass.canonical
      exact ⟨s7, runPasses_of_takes h1 (runPasses_of_takes h2 (runPasses_of_takes (entryExit_takes _)
        (runPasses_of_takes h4 (runPasses_of_takes h5 (runPasses_of_takes h6
          (runPasses_of_takes h7 rfl))))))⟩

/-! ## The first failure -/

def failure? {α : Type} : Except Failure α → Option Failure
  | .ok _ => none
  | .error failure => some failure

theorem failure?_eq_some {α : Type} {result : Except Failure α} {failure : Failure} :
    failure? result = some failure ↔ result = .error failure := by
  cases result <;> simp [failure?]

theorem failure?_bind_pure {α β : Type} (result : Except Failure α) (f : α → β) :
    failure? (do return f (← result)) = failure? result := by
  cases result <;> rfl

theorem failure?_mapM {α β : Type} (f : α → Except Failure β) (xs : List α) :
    failure? (xs.mapM f) = xs.findSome? fun x => failure? (f x) := by
  induction xs with
  | nil => rfl
  | cons x xs ih =>
      rw [List.mapM_cons, List.findSome?_cons]
      cases hx : f x with
      | error failure => rfl
      | ok y =>
          show failure? (do return y :: (← xs.mapM f)) = _
          rw [failure?_bind_pure, ih]
          rfl

def methodsOf (u : CompilationUnit) : List (ClassDecl × MethodDecl) :=
  u.classes.flatMap fun c => c.methods.map fun m => (c, m)

theorem failure?_weaveUnit (w : Weaver) (u : CompilationUnit) :
    failure? (w.weaveUnit u) =
      (methodsOf u).findSome? fun cm => failure? (w.weaveMethod (w.session u cm.1 cm.2)) := by
  have hclass : ∀ c, failure? (w.weaveClass u c) = (c.methods.map fun m => (c, m)).findSome?
      fun cm => failure? (w.weaveMethod (w.session u cm.1 cm.2)) := by
    intro c
    unfold Weaver.weaveClass
    rw [failure?_bind_pure, failure?_mapM, List.findSome?_map]
    rfl
  unfold Weaver.weaveUnit methodsOf
  rw [failure?_bind_pure, failure?_mapM]
  induction u.classes with
  | nil => rfl
  | cons c classes ih =>
      rw [List.findSome?_cons, List.flatMap_cons, List.findSome?_append, hclass, ih]
      cases List.findSome? _ (c.methods.map fun m => (c, m)) <;> rfl

/-- The method takes part in tracing: it has a body, nothing excludes it, and it is
included if only marked methods are. -/
structure Weaver.Selects (w : Weaver) (c : ClassDecl) (m : MethodDecl) : Prop where
  hasBody : m.body.isSome = true
  classNotExcluded : (w.classMarkers c).excluded = false
  notExcluded : (w.methodMarkers m).excluded = false
  included : w.settings.markedOnly = true →
    (w.classMarkers c).included = true ∨ (w.methodMarkers m).included = true

theorem decide_eq_weave {w : Weaver} {u : CompilationUnit} {c : ClassDecl} {m : MethodDecl} :
    w.decide (w.session u c m) = .weave ↔ w.Selects c m := by
  have heq : w.decide (w.session u c m) =
      decideSelection w.settings (w.classMarkers c) (w.methodMarkers m) m.body.isSome := rfl
  rw [heq, decideSelection]
  constructor
  · intro h
    cases hbody : m.body.isSome <;> cases hclass : (w.classMarkers c).excluded <;>
      cases hown : (w.methodMarkers m).excluded <;> simp [hbody, hclass, hown] at h
    refine ⟨hbody, hclass, hown, fun hmarked => ?_⟩
    cases hincluded : (w.classMarkers c).included with
    | true => exact .inl rfl
    | false => exact .inr (h hmarked hincluded)
  · rintro ⟨hbody, hclass, hown, hincluded⟩
    rw [hbody, hclass, hown]
    cases hmarked : w.settings.markedOnly with
    | false => rfl
    | true => rcases hincluded hmarked with h | h <;> simp [h]

/-- The method takes part in tracing and cannot be woven: it holds code without a model,
or value changes are traced and it returns a value without having a type for it. -/
def Weaver.Refuses (w : Weaver) (c : ClassDecl) (m : MethodDecl) : Prop :=
  w.Selects c m ∧ ∃ body, m.body = some body ∧
    ((∃ text, Stmt.unmodelled text ∈ Stmt.nodesOfAll body) ∨
      w.settings.traceChanges = true ∧ (m.returnType = none ∨ m.returnType = some "void") ∧
        ∃ value, Stmt.ret (some value) ∈ Stmt.nodesOfAll body)

theorem returnsValue_eq_false {m : MethodDecl} :
    m.returnsValue = false ↔ m.returnType = none ∨ m.returnType = some "void" := by
  unfold MethodDecl.returnsValue
  cases m.returnType <;> simp [isVoid]

theorem defect?_eq_some {w : Weaver} {m : MethodDecl} {body : List Stmt} {pass : Pass}
    {defect : Defect} : w.defect? m body = some (pass, defect) ↔
      (∃ text, FirstUnmodelled body text ∧ pass = .normalize ∧ defect = .unmodelledCode text) ∨
      (∀ text, Stmt.unmodelled text ∉ Stmt.nodesOfAll body) ∧
        (w.settings.traceChanges = true ∧ (m.returnType = none ∨ m.returnType = some "void") ∧
          ∃ value, Stmt.ret (some value) ∈ Stmt.nodesOfAll body) ∧
        pass = .changes ∧ defect = .valueWithoutType m.name := by
  simp only [← unmodelledInAll?_eq_some, ← unmodelledInAll?_eq_none,
    ← returnsSomeValue_normalizeAll, ← returnsValue_eq_false]
  unfold Weaver.defect?
  cases unmodelledInAll? body with
  | some text =>
      simp only [Option.some.injEq, Prod.mk.injEq, reduceCtorEq, false_and, or_false]
      constructor
      · rintro ⟨rfl, rfl⟩
        exact ⟨text, rfl, rfl, rfl⟩
      · rintro ⟨_, rfl, rfl, rfl⟩
        exact ⟨rfl, rfl⟩
  | none =>
      simp only [reduceCtorEq, false_and, exists_false, false_or, true_and]
      split
      · rename_i h
        simp only [Bool.and_eq_true, Bool.not_eq_true'] at h
        constructor
        · intro heq
          obtain ⟨rfl, rfl⟩ := Prod.mk.inj (Option.some.inj heq)
          exact ⟨⟨h.1.1, h.1.2, h.2⟩, rfl, rfl⟩
        · rintro ⟨-, rfl, rfl⟩
          rfl
      · rename_i h
        constructor
        · exact fun heq => absurd heq (by simp)
        · rintro ⟨⟨hchanges, htype, hvalue⟩, -⟩
          exact absurd (by simp [hchanges, htype, hvalue]) h

/-! ## Methods and units -/

theorem failure?_weaveMethod {w : Weaver} {u : CompilationUnit} {c : ClassDecl} {m : MethodDecl}
    {failure : Failure} : failure? (w.weaveMethod (w.session u c m)) = some failure ↔
      w.Selects c m ∧ ∃ body pass defect, m.body = some body ∧
        w.defect? m body = some (pass, defect) ∧
        failure = .defective (u.qualifiedName c) m.name pass defect := by
  rw [← decide_eq_weave (u := u)]
  unfold Weaver.weaveMethod
  cases hdec : w.decide (w.session u c m) with
  | skip reason => simp [failure?]
  | weave =>
      obtain ⟨body, hbody⟩ : ∃ body, m.body = some body := Weaver.body_of_decide hdec
      simp only [failure?_bind_pure, failure?_eq_some, true_and, hbody, Option.some.injEq]
      cases hdefect : w.defect? m body with
      | none =>
          rcases runPasses_of_no_defect (w := w) (s := w.session u c m) hbody rfl hdefect with
            ⟨after, hafter⟩
          rw [hafter]
          constructor
          · exact fun h => absurd h (by simp)
          · rintro ⟨_, pass, defect, rfl, hsome, -⟩
            exact absurd (hdefect.symm.trans hsome) (by simp)
      | some found =>
          rw [runPasses_of_defect (w := w) (s := w.session u c m) hbody rfl hdefect]
          constructor
          · intro h
            exact ⟨body, found.1, found.2, rfl, hdefect, (Except.error.inj h).symm⟩
          · rintro ⟨_, pass, defect, rfl, hsome, rfl⟩
            obtain rfl := Option.some.inj (hdefect.symm.trans hsome)
            rfl

theorem refuses_iff {w : Weaver} {u : CompilationUnit} {c : ClassDecl} {m : MethodDecl} :
    w.Refuses c m ↔ ∃ failure, failure? (w.weaveMethod (w.session u c m)) = some failure := by
  simp only [failure?_weaveMethod, defect?_eq_some]
  constructor
  · rintro ⟨hselects, body, hbody, hdefect⟩
    by_cases hmodelled : ∀ text, Stmt.unmodelled text ∉ Stmt.nodesOfAll body
    · rcases hdefect with ⟨text, htext⟩ | hvalue
      · exact absurd htext (hmodelled text)
      · exact ⟨_, hselects, body, _, _, hbody, .inr ⟨hmodelled, hvalue, rfl, rfl⟩, rfl⟩
    · rcases Option.ne_none_iff_exists'.mp (mt unmodelledInAll?_eq_none.mp hmodelled) with
        ⟨text, htext⟩
      exact ⟨_, hselects, body, _, _, hbody,
        .inl ⟨text, unmodelledInAll?_eq_some.mp htext, rfl, rfl⟩, rfl⟩
  · rintro ⟨failure, hselects, body, pass, defect, hbody, hdefect, -⟩
    refine ⟨hselects, body, hbody, ?_⟩
    rcases hdefect with ⟨text, ⟨earlier, later, hnodes, -⟩, -⟩ | ⟨-, hvalue, -⟩
    · refine .inl ⟨text, ?_⟩
      rw [hnodes]
      exact List.mem_append_right _ List.mem_cons_self
    · exact .inr hvalue

/-- Weaving a unit fails exactly when it holds a method that takes part and cannot be
woven.  The failure is about the first such method in the order of the declarations: it
names the first code without a model in its body, or else the return of a value that has
no type.  There is no woven unit then, and no other failure. -/
theorem weaveUnit_fails_exactly (w : Weaver) (u : CompilationUnit) :
    ((∃ failure, w.weaveUnit u = .error failure) ↔
      ∃ c ∈ u.classes, ∃ m ∈ c.methods, w.Refuses c m) ∧
    ∀ failure, w.weaveUnit u = .error failure →
      ∃ before c m after body,
        methodsOf u = before ++ (c, m) :: after ∧
        (∀ cm ∈ before, ¬ w.Refuses cm.1 cm.2) ∧
        w.Refuses c m ∧ m.body = some body ∧
        ((∃ text, FirstUnmodelled body text ∧
            failure = .defective (u.qualifiedName c) m.name .normalize (.unmodelledCode text)) ∨
          (∀ text, Stmt.unmodelled text ∉ Stmt.nodesOfAll body) ∧
            failure = .defective (u.qualifiedName c) m.name .changes
              (.valueWithoutType m.name)) := by
  have hmem : ∀ c m, (c, m) ∈ methodsOf u ↔ c ∈ u.classes ∧ m ∈ c.methods := by
    intro c m
    simp [methodsOf]
  simp only [← failure?_eq_some, failure?_weaveUnit]
  constructor
  · rw [← Option.isSome_iff_exists, List.findSome?_isSome_iff]
    simp only [Option.isSome_iff_exists]
    constructor
    · rintro ⟨⟨c, m⟩, hcm, hfailure⟩
      exact ⟨c, ((hmem c m).mp hcm).1, m, ((hmem c m).mp hcm).2, refuses_iff.mpr hfailure⟩
    · rintro ⟨c, hc, m, hm, hrefuses⟩
      exact ⟨(c, m), (hmem c m).mpr ⟨hc, hm⟩, refuses_iff.mp hrefuses⟩
  · intro failure h
    rcases List.findSome?_eq_some_iff.mp h with ⟨before, ⟨c, m⟩, after, hmethods, hfailure, hbefore⟩
    have hrefuses : w.Refuses c m := refuses_iff.mpr ⟨failure, hfailure⟩
    rcases failure?_weaveMethod.mp hfailure with ⟨-, body, pass, defect, hbody, hdefect, rfl⟩
    refine ⟨before, c, m, after, body, hmethods, fun cm hcm hr => ?_, hrefuses, hbody, ?_⟩
    · rcases refuses_iff.mp hr with ⟨failure, hsome⟩
      exact absurd ((hbefore cm hcm).symm.trans hsome) (by simp)
    · rcases defect?_eq_some.mp hdefect with ⟨text, hfirst, rfl, rfl⟩ | ⟨hnone, -, rfl, rfl⟩
      · exact .inl ⟨text, hfirst, rfl⟩
      · exact .inr ⟨hnone, rfl⟩

/-- A constructor that returns a value from inside a labelled loop. -/
def oddConstructor : CompilationUnit where
  package := none
  classes :=
    [(ClassDecl.empty "Odd").withMethod ((MethodDecl.emptyConstructor "Odd").withBody
      [.labeled "again" (.whileLoop (.bool true) (.retValue (.int 1)))])]

theorem weaveUnit_fails_oddConstructor :
    (∃ c ∈ oddConstructor.classes, ∃ m ∈ c.methods,
      (Weaver.ofSettings .standard).Refuses c m) ∧
    ∃ failure, (Weaver.ofSettings .standard).weaveUnit oddConstructor = .error failure := by
  have hrefuses : ∃ c ∈ oddConstructor.classes, ∃ m ∈ c.methods,
      (Weaver.ofSettings .standard).Refuses c m := by
    refine ⟨_, List.mem_cons_self, _, List.mem_cons_self, ⟨rfl, rfl, rfl, fun h => ?_⟩,
      _, rfl, .inr ⟨rfl, .inl rfl, .int 1, ?_⟩⟩
    · exact absurd h (by decide)
    · simp [Stmt.nodesOfAll, Stmt.inner, Stmt.retValue]
  exact ⟨hrefuses, (weaveUnit_fails_exactly _ _).1.mpr hrefuses⟩

end Weave
end TraceWeaving
