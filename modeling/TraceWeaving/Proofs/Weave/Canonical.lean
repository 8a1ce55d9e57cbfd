import TraceWeaving.Proofs.Weave.Delegation

/-!
# The form of a woven body

The passes find the wrapper by searching for it, and a constructor call by its place in a
list that other passes have changed.  Whatever the former body looks like, they find the
wrapper that was made for this method and the call that the body itself had first: what comes
out is the entry report and one `try` statement around the rewritten body, with that call in
front of them.
-/

namespace TraceWeaving
namespace Weave

open Code

def Weaver.rewriting (w : Weaver) (s : Session) : List Pass :=
  [.normalize, .changes, .returns].filter fun pass => pass.applies w.settings s

/-! ## The former body by itself -/

/-- A method that returns values has a type for them, so its body is never refused. -/
theorem extractReturns_of_returnsValue {decl : MethodDecl} (h : decl.returnsValue = true)
    (keep : Expr → Bool) (body : List Stmt) :
    extractReturns keep decl body = .ok (extracted keep decl body) := by
  unfold MethodDecl.returnsValue at h
  unfold extractReturns extracted
  cases ht : decl.returnType with
  | none => simp [ht] at h
  | some type =>
      have hv : isVoid type = false := by simpa [ht] using h
      simp [hv]

theorem takes_returns (w : Weaver) (s : Session) (body : List Stmt) (number : Nat) :
    Pass.Takes w s .returns (s.holding body number)
      (s.holding (w.returned s body number).1 (w.returned s body number).2) := by
  unfold Pass.Takes Pass.applies Weaver.returned
  by_cases hr : w.settings.traceReturns = true
  · cases hv : s.decl.returnsValue with
    | true =>
        have hv' : (s.holding body number).decl.returnsValue = true := hv
        simp only [hr, if_true, Pass.run, hv', Bool.and_self]
        change (extractReturns Expr.isTrivial (s.holding body number).decl body >>= _) = _
        rw [extractReturns_of_returnsValue hv']
        rfl
    | false =>
        have hv' : (s.holding body number).decl.returnsValue = false := hv
        simp only [hr, if_true, Pass.run, hv', Bool.and_false]
        rfl
  · simp only [hr, Bool.false_and]
    rfl

theorem runPasses_rewriting {w : Weaver} {s after : Session} {body : List Stmt}
    (hbody : s.decl.body = some body) (hnumber : s.nextName = 0)
    (h : w.runPasses (w.passesFor s) s = .ok after) :
    ∃ rewritten, w.runPasses (w.rewriting s) s = .ok rewritten ∧
      rewritten.decl.body = some (w.reported s body) := by
  have hstart := s.eq_holding hbody hnumber
  unfold Weaver.passesFor Pass.canonical at h
  rcases runPasses_filter_cons h with ⟨s1, h1, h⟩
  rcases runPasses_filter_cons h with ⟨s2, h2, _⟩
  have hnormal := h1
  rw [hstart] at hnormal
  rcases Pass.Takes.normalize_holding hnormal with ⟨_, rfl⟩
  have hchanges := h2
  obtain rfl := Pass.Takes.changes_holding hchanges
  have hreturns := takes_returns w s (w.changed s (normalizeAll body) 0).1
    (w.changed s (normalizeAll body) 0).2
  exact ⟨_, runPasses_of_takes h1 (runPasses_of_takes h2 (runPasses_of_takes hreturns rfl)), rfl⟩

/-! ## The call in front -/

theorem Unfolds.find?_eq {xs ys : List Stmt} (h : Unfolds xs ys) :
    ys.find? Stmt.isDelegation = xs.find? Stmt.isDelegation := by
  rw [← List.head?_filter, h.filter_eq, List.head?_filter]

theorem perm_find?_eraseP {α : Type} (q : α → Bool) (xs : List α) :
    ((xs.find? q).toList ++ xs.eraseP q).Perm xs := by
  induction xs with
  | nil => exact .refl _
  | cons x xs ih =>
      cases hx : q x with
      | true =>
          rw [List.find?_cons_of_pos hx, List.eraseP_cons_of_pos hx]
          exact .refl _
      | false =>
          have hx' : ¬ q x = true := by simp [hx]
          rw [List.find?_cons_of_neg hx', List.eraseP_cons_of_neg hx']
          exact List.perm_middle.trans (ih.cons x)

theorem delegationsIn_deadline (w : Weaver) (s : Session) : delegationsIn (w.deadline s) = [] := by
  unfold Weaver.deadline
  cases s.markers.timeout <;> rfl

theorem rest_eq (w : Weaver) (s : Session) (body : List Stmt) :
    w.rest s body = w.deadline s ++
      if s.decl.isConstructor then (w.reported s body).eraseP Stmt.isDelegation
      else w.reported s body := by
  unfold Weaver.rest
  rw [Weaver.innerBody_eq]
  split
  · exact List.eraseP_append_right _ fun t ht => by simp [undelegated_deadline w s t ht]
  · rfl

theorem front_eq (w : Weaver) (s : Session) (body : List Stmt) :
    (w.front s body).toList.map .expr =
      (if s.decl.isConstructor then body.find? Stmt.isDelegation else none).toList := by
  unfold Weaver.front
  split
  · have hdeadline : (w.deadline s).find? Stmt.isDelegation = none :=
      List.find?_eq_none.mpr fun t ht => by simp [undelegated_deadline w s t ht]
    have hfind : (w.innerBody s body).find? Stmt.isDelegation = body.find? Stmt.isDelegation := by
      rw [Weaver.innerBody_eq, List.find?_append, hdeadline, Option.none_or,
        (unfolds_reported w s body).find?_eq]
    rw [← hfind, find?_isDelegation]
    cases delegation? (w.innerBody s body) <;> rfl
  · rfl

theorem perm_delegations_bodyOf (w : Weaver) (s : Session) (body : List Stmt) :
    (delegationsIn (w.bodyOf s body)).Perm (delegationsIn body) := by
  have hreported := (unfolds_reported w s body).delegationsIn_eq
  have hwrapped : ∀ inner, delegationsIn
      (wrapped w.hooks s.id s.decl.params w.settings.traceErrors inner) = delegationsIn inner := by
    intro inner
    have henter : (w.hooks.entering s.id s.decl.params).delegations = [] := rfl
    have hexit : (w.hooks.exiting s.id).delegations = [] := rfl
    have herror : delegationsIn (w.hooks.onErrorClause s.id).body = [] := rfl
    unfold wrapped
    cases w.settings.traceErrors <;> simp [henter, hexit, herror]
  rw [Weaver.bodyOf_eq, delegationsIn_append, hwrapped, front_eq, rest_eq, delegationsIn_append,
    delegationsIn_deadline, List.nil_append]
  split
  · have hperm := (perm_find?_eraseP Stmt.isDelegation (w.reported s body)).flatMap_right
      Stmt.delegations
    rw [List.flatMap_append, (unfolds_reported w s body).find?_eq] at hperm
    exact hperm.trans (.of_eq hreported)
  · exact .of_eq hreported

/-! ## The form -/

/-- A woven body is the call of another constructor that a constructor makes first, the
report of the entry, and one `try` statement: the deadline and the rewritten body without that
call, the clause that reports errors if they are traced, and the report of the exit. -/
theorem woven_body_canonical (w : Weaver) {className : String} {classMarkers markers : MarkerSet}
    {m d : MethodDecl} {report : MethodReport}
    (h : w.weaveMethod (.start className classMarkers markers m) = .ok (d, report))
    (hwoven : report.isWoven = true) :
    ∃ body rewritten inner,
      m.body = some body ∧
      w.runPasses (w.rewriting (.start className classMarkers markers m))
        (.start className classMarkers markers m) = .ok rewritten ∧
      rewritten.decl.body = some inner ∧ Unfolds body inner ∧
      d = { m with body := some (
        (if m.isConstructor then body.find? Stmt.isDelegation else none).toList ++
        [w.hooks.entering (className ++ "." ++ m.name) m.params,
         .tryCatch
          ((markers.timeout.map fun millis =>
              w.hooks.timeout (className ++ "." ++ m.name) millis).toList ++
            if m.isConstructor then inner.eraseP Stmt.isDelegation else inner)
          (if w.settings.traceErrors then [w.hooks.onErrorClause (className ++ "." ++ m.name)]
            else [])
          (some [w.hooks.exiting (className ++ "." ++ m.name)])]) } ∧
      ∀ body', d.body = some body' → (delegationsIn body').Perm (delegationsIn body) := by
  let s := Session.start className classMarkers markers m
  rcases weaveMethod_woven h hwoven with ⟨-, body, after, hbody, hrun, rfl⟩
  rcases runPasses_rewriting hbody rfl hrun with ⟨rewritten, hrewrite, hinner⟩
  have hform := w.bodyOf_eq s body
  rw [front_eq, rest_eq] at hform
  rw [(runPasses_passesFor hbody rfl hrun).2]
  refine ⟨body, rewritten, w.reported s body, hbody, hrewrite, hinner,
    unfolds_reported w s body, ?_, ?_⟩
  · rw [hform]
    rfl
  · intro body' hbody'
    obtain rfl : w.bodyOf s body = body' := Option.some.inj hbody'
    exact perm_delegations_bodyOf w s body

/-- A constructor whose body was woven before, with a wrapper of its own and two calls of other
constructors behind it. -/
def rewovenConstructor : MethodDecl where
  name := "Pump"
  kind := .constructor
  annotations := []
  isStatic := false
  params := [⟨"rate", "int"⟩]
  returnType := none
  body := some
    [(Hooks.mk "scribe.runtime.Scribe").entering "Pump.Pump" [⟨"rate", "int"⟩],
     .tryCatch [.expr (.set (.field .self "rate") (.name "rate"))] []
       (some [(Hooks.mk "scribe.runtime.Scribe").exiting "Pump.Pump"]),
     .ifElse (.bool true) (.expr (.superCall [])) none,
     .expr (.superCall [.name "rate"]),
     .expr (.selfCall [.set (.name "rate") (.int 1)])]

theorem woven_body_canonical_rewoven :
    ∃ d report,
      (Weaver.ofSettings .standard).weaveMethod
        (.start "Pump" .none { MarkerSet.none with timeout := some 5 } rewovenConstructor) =
          .ok (d, report) ∧
      report.isWoven = true ∧
      ∃ inner kept, Unfolds (rewovenConstructor.body.getD []) inner ∧
        d.body = some [.expr (.superCall [.name "rate"]),
          (Weaver.ofSettings .standard).hooks.entering "Pump.Pump" rewovenConstructor.params,
          .tryCatch ((Weaver.ofSettings .standard).hooks.timeout "Pump.Pump" 5 :: kept)
            [(Weaver.ofSettings .standard).hooks.onErrorClause "Pump.Pump"]
            (some [(Weaver.ofSettings .standard).hooks.exiting "Pump.Pump"])] ∧
        kept = inner.eraseP Stmt.isDelegation := by
  have hwoven : (Weaver.ofSettings .standard).weaveMethod
      (.start "Pump" .none { MarkerSet.none with timeout := some 5 } rewovenConstructor) =
        .ok (_, _) := rfl
  refine ⟨_, _, hwoven, rfl, ?_⟩
  rcases woven_body_canonical (Weaver.ofSettings .standard) hwoven rfl with
    ⟨body, _, inner, hbody, _, _, hunfolds, hd, _⟩
  obtain rfl := Option.some.inj hbody
  exact ⟨inner, _, hunfolds, congrArg MethodDecl.body hd, rfl⟩

end Weave
end TraceWeaving
