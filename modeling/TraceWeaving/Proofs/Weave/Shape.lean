import Mathlib.Data.List.Forall2
import TraceWeaving.Weave.Unit
import TraceWeaving.Proofs.Eval.Closure

/-!
# The shape of woven code

Weaving can fail, and it runs passes that find the work of earlier passes again.  When
it succeeds, the result is given by one expression: a wrapper around the former body,
whose parts are the results of the single passes.
-/

namespace TraceWeaving
namespace Weave

open Code

/-! ## Computations that can fail -/

theorem ok_of_bind_ok {α β ε : Type} {x : Except ε α} {f : α → Except ε β} {b : β}
    (h : x >>= f = .ok b) : ∃ a, x = .ok a ∧ f a = .ok b := by
  cases x with
  | error e => exact nomatch h
  | ok a => exact ⟨a, rfl, h⟩

theorem mapM_eq_ok_iff {α β ε : Type} {f : α → Except ε β} {xs : List α} {ys : List β} :
    xs.mapM f = .ok ys ↔ List.Forall₂ (fun x y => f x = .ok y) xs ys := by
  constructor
  · intro h
    induction xs generalizing ys with
    | nil =>
        obtain rfl := Except.ok.inj h
        exact .nil
    | cons x xs ih =>
        rw [List.mapM_cons] at h
        rcases ok_of_bind_ok h with ⟨y, hx, h⟩
        rcases ok_of_bind_ok h with ⟨rest, hrest, h⟩
        obtain rfl := Except.ok.inj h
        exact .cons hx (ih hrest)
  · intro h
    induction h with
    | nil => rfl
    | cons hx _ ih =>
        rw [List.mapM_cons, hx, ih]
        rfl

theorem mapM_map_ok {α β γ ε : Type} {f : α → Except ε β} {g : α → γ} (out : β → γ)
    {xs : List α} {ys : List β} (hf : ∀ x y, f x = .ok y → out y = g x)
    (h : xs.mapM f = .ok ys) : ys.map out = xs.map g := by
  have hall := mapM_eq_ok_iff.mp h
  clear h
  induction hall with
  | nil => rfl
  | cons hx _ ih => rw [List.map_cons, List.map_cons, hf _ _ hx, ih]

theorem exists_ok_of_mapM {α β ε : Type} {f : α → Except ε β} {xs : List α} {ys : List β}
    (h : xs.mapM f = .ok ys) {x : α} (hx : x ∈ xs) : ∃ y, f x = .ok y := by
  have hall := mapM_eq_ok_iff.mp h
  clear h
  induction hall with
  | nil => exact absurd hx List.not_mem_nil
  | cons hy _ ih =>
      rcases List.mem_cons.mp hx with rfl | hx
      · exact ⟨_, hy⟩
      · exact ih hx

theorem mapM_ok_of_ok {α β γ ε ε' : Type} {f : α → Except ε β} {g : α → Except ε' γ}
    {xs : List α} {ys : List β} (hfg : ∀ x y, f x = .ok y → ∃ z, g x = .ok z)
    (h : xs.mapM f = .ok ys) : ∃ zs, xs.mapM g = .ok zs := by
  have hall := mapM_eq_ok_iff.mp h
  clear h
  induction hall with
  | nil => exact ⟨[], rfl⟩
  | cons hx _ ih =>
      rcases hfg _ _ hx with ⟨z, hz⟩
      rcases ih with ⟨zs, hzs⟩
      exact ⟨z :: zs, mapM_eq_ok_iff.mpr (.cons hz (mapM_eq_ok_iff.mp hzs))⟩

/-! ## The body of a woven method -/

def wrapped (hooks : Hooks) (id : String) (params : List Param) (errors : Bool)
    (inner : List Stmt) : List Stmt :=
  [hooks.entering id params,
   .tryCatch inner (if errors then [hooks.onErrorClause id] else []) (some [hooks.exiting id])]

/-- Moves returned expressions into variables, where there are any to move. -/
def extracted (keep : Expr → Bool) (decl : MethodDecl) (body : List Stmt) :
    Naming (List Stmt) :=
  match decl.returnType with
  | some type =>
      if isVoid type then pure body else transformLists (extractReturnsInList keep type) body
  | none => pure body

namespace Weaver

def changed (w : Weaver) (s : Session) (body : List Stmt) : Naming (List Stmt) :=
  if w.settings.traceChanges then do
    let body ← extracted Expr.isName s.decl body
    reportChanges w.hooks s.id body
  else pure body

def returned (w : Weaver) (s : Session) (body : List Stmt) : Naming (List Stmt) :=
  if w.settings.traceReturns && s.decl.returnsValue then do
    let body ← extracted Expr.isTrivial s.decl body
    return reportReturns w.hooks s.id body
  else pure body

def deadline (w : Weaver) (s : Session) : List Stmt :=
  (s.markers.timeout.map (w.hooks.timeout s.id)).toList

/-- What stands inside the wrapper before constructor calls are moved. -/
def innerBody (w : Weaver) (s : Session) (body : List Stmt) : List Stmt :=
  w.deadline s ++ ((w.changed s (normalizeAll body) >>= w.returned s).run 0).1

def bodyOf (w : Weaver) (s : Session) (body : List Stmt) : List Stmt :=
  let whole := wrapped w.hooks s.id s.decl.params w.settings.traceErrors (w.innerBody s body)
  if s.decl.isConstructor then delegateFirst w.hooks whole else whole

def bodies (w : Weaver) (u : CompilationUnit) : Bodies :=
  fun c m =>
    match w.decide (w.session u c m) with
    | .skip _ => m.body
    | .weave => m.body.map (w.bodyOf (w.session u c m))

end Weaver

/-! ## Finding the wrapper again -/

theorem isExiting_exiting (hooks : Hooks) (id : String) :
    hooks.isExiting (hooks.exiting id) = true := by
  simp [Hooks.isExiting, Hooks.exiting, Hooks.report, Hooks.call, Expr.callOn, Hooks.isCallOf]

theorem endsWithExit_exiting (hooks : Hooks) (id : String) :
    endsWithExit hooks (some [hooks.exiting id]) = true := by
  simp [endsWithExit, isExiting_exiting]

theorem updateWrapper?_wrapper (hooks : Hooks) (update : Guarded → Guarded) (id : String)
    (params : List Param) (inner : List Stmt) (catches : List CatchClause) :
    updateWrapper? hooks update
        [hooks.entering id params, .tryCatch inner catches (some [hooks.exiting id])] =
      some [hooks.entering id params,
        .tryCatch (update ⟨inner, catches⟩).body (update ⟨inner, catches⟩).catches
          (some [hooks.exiting id])] := by
  show (updateWrapper? hooks update
    [.tryCatch inner catches (some [hooks.exiting id])]).map (hooks.entering id params :: ·) = _
  simp [updateWrapper?, endsWithExit_exiting]

theorem wrapperBody?_wrapped (hooks : Hooks) (id : String) (params : List Param)
    (errors : Bool) (inner : List Stmt) :
    wrapperBody? hooks (wrapped hooks id params errors inner) = some inner := by
  simp [wrapped, Hooks.entering, Hooks.report, wrapperBody?, endsWithExit_exiting]

theorem delegateFirst_wrapped (hooks : Hooks) (id : String) (params : List Param)
    (errors : Bool) (inner : List Stmt) :
    delegateFirst hooks (wrapped hooks id params errors inner) =
      (inner.find? Stmt.isDelegation).toList ++
        wrapped hooks id params errors (inner.eraseP Stmt.isDelegation) := by
  have hfind : (wrapped hooks id params errors inner).find? Stmt.isDelegation = none := by
    simp [wrapped, Hooks.entering, Hooks.report, Hooks.call, Expr.callOn, Stmt.isDelegation,
      Expr.isDelegation]
  unfold delegateFirst
  rw [hfind, wrapperBody?_wrapped]
  simp only [Option.bind_some]
  cases hcall : inner.find? Stmt.isDelegation with
  | none =>
      have herase : inner.eraseP Stmt.isDelegation = inner :=
        List.eraseP_of_forall_not (List.find?_eq_none.mp hcall)
      rw [herase]
      rfl
  | some call =>
      simp only [wrapped, updateWrapper?_wrapper]
      rfl

/-! ## The call of another constructor -/

theorem isExpr_of_isDelegation {s : Stmt} (h : s.isDelegation = true) :
    ∃ e, s = .expr e ∧ e.isDelegation = true := by
  cases s with
  | expr e => exact ⟨e, rfl, h⟩
  | block _ | decl _ _ _ | ifElse _ _ _ | whileLoop _ _ | doWhile _ _ | forLoop _ _ _ _
  | forEach _ _ _ _ | labeled _ _ | switch _ _ | breakTo _ | continueTo _ | ret _ | raise _
  | tryCatch _ _ _ | sync _ _ | unmodelled _ => exact absurd h (by simp [Stmt.isDelegation])

def delegation? (stmts : List Stmt) : Option Expr :=
  (stmts.find? Stmt.isDelegation).bind fun
    | .expr e => some e
    | _ => none

theorem find?_isDelegation (stmts : List Stmt) :
    stmts.find? Stmt.isDelegation = (delegation? stmts).map .expr := by
  unfold delegation?
  cases hf : stmts.find? Stmt.isDelegation with
  | none => rfl
  | some t =>
      rcases isExpr_of_isDelegation (List.find?_some hf) with ⟨e, rfl, _⟩
      rfl

theorem mem_delegation? {stmts : List Stmt} {e : Expr} (he : e ∈ delegation? stmts) :
    .expr e ∈ stmts ∧ e.isDelegation = true := by
  have hf : stmts.find? Stmt.isDelegation = some (.expr e) := by
    rw [find?_isDelegation, he]
    rfl
  have hd : (Stmt.expr e).isDelegation = true := List.find?_some hf
  exact ⟨List.mem_of_find?_eq_some hf, hd⟩

namespace Weaver

/-- What moves in front of the wrapper. -/
def front (w : Weaver) (s : Session) (body : List Stmt) : Option Expr :=
  if s.decl.isConstructor then delegation? (w.innerBody s body) else none

def rest (w : Weaver) (s : Session) (body : List Stmt) : List Stmt :=
  if s.decl.isConstructor then (w.innerBody s body).eraseP Stmt.isDelegation
  else w.innerBody s body

theorem bodyOf_eq (w : Weaver) (s : Session) (body : List Stmt) :
    w.bodyOf s body = (w.front s body).toList.map .expr ++
      wrapped w.hooks s.id s.decl.params w.settings.traceErrors (w.rest s body) := by
  unfold bodyOf front rest
  simp only
  split
  · rw [delegateFirst_wrapped, find?_isDelegation]
    cases delegation? (w.innerBody s body) <;> rfl
  · rfl

theorem mem_front {w : Weaver} {s : Session} {body : List Stmt} {e : Expr}
    (he : e ∈ w.front s body) : .expr e ∈ w.innerBody s body ∧ e.isDelegation = true := by
  unfold front at he
  split at he
  · exact mem_delegation? he
  · exact absurd he (by simp)

theorem rest_subset (w : Weaver) (s : Session) (body : List Stmt) :
    w.rest s body ⊆ w.innerBody s body := by
  unfold rest
  split
  · exact List.eraseP_subset
  · exact fun _ h => h

end Weaver

/-! ## Lists inside the wrapper -/

theorem transformLists_wrap {f : List Stmt → Naming (List Stmt)} {hooks : Hooks} {id : String}
    {params : List Param}
    (hf : ∀ inner number,
      f (wrap hooks id params inner) number = (wrap hooks id params inner, number))
    (hexit : ∀ number, f [hooks.exiting id] number = ([hooks.exiting id], number))
    (inner : List Stmt) (number : Nat) :
    transformLists f (wrap hooks id params inner) number =
      ((wrap hooks id params (transformLists f inner number).1),
        (transformLists f inner number).2) := by
  have hcleanup : ∀ number, Stmt.transformCleanup f (some [hooks.exiting id]) number =
      (some [hooks.exiting id], number) := by
    intro number
    show ((fun result : List Stmt × Nat => (some result.1, result.2))
      (f [hooks.exiting id] number)) = _
    rw [hexit]
  show (fun result : List Stmt × Nat => f result.1 result.2)
    (Stmt.transformNestedInAll f (wrap hooks id params inner) number) = _
  have hnested : Stmt.transformNestedInAll f (wrap hooks id params inner) number =
      (wrap hooks id params (transformLists f inner number).1,
        (transformLists f inner number).2) := by
    show (fun result : Option (List Stmt) × Nat =>
      ([hooks.entering id params,
        .tryCatch (transformLists f inner number).1 [] result.1], result.2))
      (Stmt.transformCleanup f (some [hooks.exiting id]) (transformLists f inner number).2) = _
    rw [hcleanup]
    rfl
  rw [hnested]
  exact hf _ _

theorem extractReturnsInList_wrap (keep : Expr → Bool) (type : TypeName) (hooks : Hooks)
    (id : String) (params : List Param) (inner : List Stmt) (number : Nat) :
    extractReturnsInList keep type (wrap hooks id params inner) number =
      (wrap hooks id params inner, number) :=
  rfl

theorem reportReturns_wrap (hooks : Hooks) (id : String) (params : List Param)
    (inner : List Stmt) :
    reportReturns hooks id (wrap hooks id params inner) =
      wrap hooks id params (reportReturns hooks id inner) :=
  rfl

theorem extracted_cases (keep : Expr → Bool) (decl : MethodDecl) :
    (∀ body, extracted keep decl body = pure body) ∨
      ∃ type, ∀ body, extracted keep decl body =
        transformLists (extractReturnsInList keep type) body := by
  unfold extracted
  cases decl.returnType with
  | none => exact .inl fun _ => rfl
  | some type =>
      cases hv : isVoid type with
      | true => exact .inl fun _ => by simp only [hv, if_true]
      | false => exact .inr ⟨type, fun _ => by simp [hv]⟩

theorem extracted_of_not_returnsValue (keep : Expr → Bool) {decl : MethodDecl}
    (h : decl.returnsValue = false) (body : List Stmt) :
    extracted keep decl body = pure body := by
  unfold MethodDecl.returnsValue at h
  unfold extracted
  cases htype : decl.returnType with
  | none => rfl
  | some type =>
      rw [htype] at h
      have hvoid : isVoid type = true := by simpa using h
      simp only [hvoid, if_true]

theorem extracted_wrap (keep : Expr → Bool) (decl : MethodDecl) (hooks : Hooks) (id : String)
    (params : List Param) (inner : List Stmt) (number : Nat) :
    extracted keep decl (wrap hooks id params inner) number =
      (wrap hooks id params (extracted keep decl inner number).1,
        (extracted keep decl inner number).2) := by
  rcases extracted_cases keep decl with h | ⟨type, h⟩
  · rw [h, h]
    rfl
  · rw [h, h]
    exact transformLists_wrap
      (fun inner number => extractReturnsInList_wrap keep type hooks id params inner number)
      (fun _ => rfl) inner number

/-! ## Passes -/

theorem extractReturns_ok {keep : Expr → Bool} {decl : MethodDecl} {body : List Stmt}
    {work : Naming (List Stmt)} (h : extractReturns keep decl body = .ok work) :
    work = extracted keep decl body := by
  have hrefuse : ∀ work, extractReturns.refuseValues decl body = .ok work → work = pure body := by
    intro work hw
    unfold extractReturns.refuseValues at hw
    split at hw
    · exact absurd hw (by simp)
    · exact (Except.ok.inj hw).symm
  unfold extractReturns at h
  unfold extracted
  cases htype : decl.returnType with
  | none =>
      rw [htype] at h
      exact hrefuse work h
  | some type =>
      rw [htype] at h
      by_cases hv : isVoid type = true
      · simp only [hv, if_true] at h ⊢
        exact hrefuse work h
      · simp only [hv] at h ⊢
        exact (Except.ok.inj h).symm

def Session.holding (s : Session) (body : List Stmt) (number : Nat) : Session :=
  { s with decl := s.decl.withBody body, nextName := number }

theorem Session.eq_holding (s : Session) {body : List Stmt} (hbody : s.decl.body = some body)
    (hnumber : s.nextName = 0) : s = s.holding body 0 := by
  cases s with
  | mk className classMarkers markers decl nextName =>
      cases decl
      simp only at hbody hnumber
      subst hbody hnumber
      rfl

/-- The pass takes one session to another if it takes part, and else leaves it alone. -/
def Pass.Takes (w : Weaver) (s : Session) (pass : Pass) (before after : Session) : Prop :=
  if pass.applies w.settings s then pass.run w.hooks before = .ok after else after = before

namespace Pass.Takes

variable {w : Weaver} {s after : Session} {body : List Stmt} {number : Nat}

theorem normalize_holding (h : Pass.Takes w s .normalize (s.holding body number) after) :
    unmodelledInAll? body = none ∧ after = s.holding (normalizeAll body) number := by
  have hrun : Pass.normalize.run w.hooks (s.holding body number) = .ok after := h
  change (normalizeBody body >>= fun body => _) = _ at hrun
  unfold normalizeBody at hrun
  cases hu : unmodelledInAll? body with
  | some text =>
      rw [hu] at hrun
      exact absurd hrun (by simp [Bind.bind, Except.bind])
  | none =>
      rw [hu] at hrun
      exact ⟨rfl, (Except.ok.inj hrun).symm⟩

theorem changes_holding (h : Pass.Takes w s .changes (s.holding body number) after) :
    after = s.holding (w.changed s body number).1 (w.changed s body number).2 := by
  unfold Pass.Takes Pass.applies at h
  unfold Weaver.changed
  by_cases hc : w.settings.traceChanges = true
  · simp only [hc, if_true] at h ⊢
    change (extractReturns Expr.isName (s.holding body number).decl body >>= fun work => _) = _
      at h
    rcases ok_of_bind_ok h with ⟨work, hx, h⟩
    obtain rfl := extractReturns_ok hx
    exact (Except.ok.inj h).symm
  · simp only [hc] at h ⊢
    exact h

theorem entryExit_holding (h : Pass.Takes w s .entryExit (s.holding body number) after) :
    after = s.holding (wrap w.hooks s.id s.decl.params body) number := by
  have hrun : Pass.entryExit.run w.hooks (s.holding body number) = .ok after := h
  exact (Except.ok.inj hrun).symm

theorem returns_holding {params : List Param} {inner : List Stmt}
    (h : Pass.Takes w s .returns (s.holding (wrap w.hooks s.id params inner) number) after) :
    after = s.holding (wrap w.hooks s.id params (w.returned s inner number).1)
      (w.returned s inner number).2 := by
  unfold Pass.Takes Pass.applies at h
  unfold Weaver.returned
  by_cases hr : w.settings.traceReturns = true
  · by_cases hv : s.decl.returnsValue = true
    · have hv' : (s.holding (wrap w.hooks s.id params inner) number).decl.returnsValue = true := hv
      simp only [hr, if_true, Pass.run, hv', hv, Bool.and_self] at h ⊢
      change (extractReturns Expr.isTrivial
        (s.holding (wrap w.hooks s.id params inner) number).decl
        (wrap w.hooks s.id params inner) >>= fun work => _) = _ at h
      rcases ok_of_bind_ok h with ⟨work, hx, h⟩
      obtain rfl := extractReturns_ok hx
      have hafter : after = s.holding
          (reportReturns w.hooks s.id
            (extracted Expr.isTrivial s.decl (wrap w.hooks s.id params inner) number).1)
          (extracted Expr.isTrivial s.decl (wrap w.hooks s.id params inner) number).2 :=
        (Except.ok.inj h).symm
      rw [extracted_wrap, reportReturns_wrap] at hafter
      exact hafter
    · have hv' : (s.holding (wrap w.hooks s.id params inner) number).decl.returnsValue = false :=
        Bool.eq_false_iff.mpr hv
      simp only [hr, if_true, Pass.run, hv', Bool.eq_false_iff.mpr hv, Bool.and_false] at h ⊢
      exact (Except.ok.inj h).symm
  · simp only [hr, Bool.false_and] at h ⊢
    exact h

theorem timeout_holding {params : List Param} {inner : List Stmt}
    (h : Pass.Takes w s .timeout (s.holding (wrap w.hooks s.id params inner) number) after) :
    after = s.holding (wrap w.hooks s.id params (w.deadline s ++ inner)) number := by
  unfold Pass.Takes Pass.applies at h
  unfold Weaver.deadline
  cases ht : s.markers.timeout with
  | none =>
      rw [ht] at h
      exact h
  | some millis =>
      rw [ht] at h
      have ht' : (s.holding (wrap w.hooks s.id params inner) number).markers.timeout =
        some millis := ht
      simp only [Option.isSome_some, if_true, Pass.run, ht'] at h
      change (changeWrapper w.hooks _ (wrap w.hooks s.id params inner) >>= fun body => _) = _ at h
      unfold changeWrapper wrap at h
      rw [updateWrapper?_wrapper] at h
      exact (Except.ok.inj h).symm

theorem errors_holding {params : List Param} {inner : List Stmt}
    (h : Pass.Takes w s .errors (s.holding (wrap w.hooks s.id params inner) number) after) :
    after = s.holding (wrapped w.hooks s.id params w.settings.traceErrors inner) number := by
  unfold Pass.Takes Pass.applies at h
  by_cases he : w.settings.traceErrors = true
  · simp only [he, if_true] at h
    change (changeWrapper w.hooks _ (wrap w.hooks s.id params inner) >>= fun body => _) = _ at h
    unfold changeWrapper wrap at h
    rw [updateWrapper?_wrapper] at h
    rw [he]
    exact (Except.ok.inj h).symm
  · simp only [he] at h
    rw [Bool.eq_false_iff.mpr he]
    exact h

theorem delegation_holding (h : Pass.Takes w s .delegation (s.holding body number) after) :
    after = s.holding (if s.decl.isConstructor then delegateFirst w.hooks body else body)
      number := by
  unfold Pass.Takes Pass.applies at h
  by_cases hc : s.decl.isConstructor = true
  · have hc' : (s.holding body number).decl.isConstructor = true := hc
    simp only [hc, if_true, Pass.run, hc'] at h ⊢
    exact (Except.ok.inj h).symm
  · simp only [hc] at h ⊢
    exact h

end Pass.Takes

/-! ## Methods -/

theorem runPasses_filter_cons {w : Weaver} {s before after : Session} {pass : Pass}
    {rest : List Pass}
    (h : w.runPasses ((pass :: rest).filter fun pass => pass.applies w.settings s) before =
      .ok after) :
    ∃ next, Pass.Takes w s pass before next ∧
      w.runPasses (rest.filter fun pass => pass.applies w.settings s) next = .ok after := by
  unfold Pass.Takes
  by_cases ha : pass.applies w.settings s = true
  · rw [List.filter_cons_of_pos (by simpa using ha)] at h
    unfold Weaver.runPasses at h
    cases hrun : pass.run w.hooks before with
    | error defect =>
        rw [hrun] at h
        exact absurd h (by simp)
    | ok next =>
        rw [hrun] at h
        exact ⟨next, by simp only [ha, if_true], h⟩
  · rw [List.filter_cons_of_neg (by simpa using ha)] at h
    exact ⟨before, by simp [ha], h⟩

theorem runPasses_of_takes {w : Weaver} {s before next after : Session} {pass : Pass}
    {rest : List Pass} (hpass : Pass.Takes w s pass before next)
    (hrest : w.runPasses (rest.filter fun pass => pass.applies w.settings s) next = .ok after) :
    w.runPasses ((pass :: rest).filter fun pass => pass.applies w.settings s) before =
      .ok after := by
  unfold Pass.Takes at hpass
  by_cases ha : pass.applies w.settings s = true
  · rw [if_pos ha] at hpass
    rw [List.filter_cons_of_pos (by simpa using ha)]
    unfold Weaver.runPasses
    rw [hpass]
    exact hrest
  · rw [if_neg ha] at hpass
    rw [List.filter_cons_of_neg (by simpa using ha), ← hpass]
    exact hrest

theorem runPasses_passesFor {w : Weaver} {s after : Session} {body : List Stmt}
    (hbody : s.decl.body = some body) (hnumber : s.nextName = 0)
    (h : w.runPasses (w.passesFor s) s = .ok after) :
    unmodelledInAll? body = none ∧ after.decl = { s.decl with body := some (w.bodyOf s body) } := by
  have hstart := s.eq_holding hbody hnumber
  unfold Weaver.passesFor Pass.canonical at h
  rcases runPasses_filter_cons h with ⟨s1, h1, h⟩
  rcases runPasses_filter_cons h with ⟨s2, h2, h⟩
  rcases runPasses_filter_cons h with ⟨s3, h3, h⟩
  rcases runPasses_filter_cons h with ⟨s4, h4, h⟩
  rcases runPasses_filter_cons h with ⟨s5, h5, h⟩
  rcases runPasses_filter_cons h with ⟨s6, h6, h⟩
  rcases runPasses_filter_cons h with ⟨s7, h7, h⟩
  rw [hstart] at h1
  rcases Pass.Takes.normalize_holding h1 with ⟨hmodelled, rfl⟩
  obtain rfl := Pass.Takes.changes_holding h2
  obtain rfl := Pass.Takes.entryExit_holding h3
  obtain rfl := Pass.Takes.returns_holding h4
  obtain rfl := Pass.Takes.timeout_holding h5
  obtain rfl := Pass.Takes.errors_holding h6
  obtain rfl := Pass.Takes.delegation_holding h7
  obtain rfl := Except.ok.inj h
  exact ⟨hmodelled, rfl⟩

theorem Weaver.body_of_decide {w : Weaver} {s : Session} (h : w.decide s = .weave) :
    ∃ body, s.decl.body = some body := by
  cases hbody : s.decl.body with
  | none => simp [Weaver.decide, hbody, decideSelection] at h
  | some body => exact ⟨body, rfl⟩

/-- A method that goes through weaving is skipped and stays as it is, or it has a body and is
what the passes make of it. -/
theorem weaveMethod_cases {w : Weaver} {s : Session} {d : MethodDecl} {report : MethodReport}
    (h : w.weaveMethod s = .ok (d, report)) :
    (∃ reason, w.decide s = .skip reason ∧ d = s.decl ∧
      report = ⟨s.className, s.decl.name, .skipped reason⟩) ∨
    (w.decide s = .weave ∧ ∃ body after, s.decl.body = some body ∧
      w.runPasses (w.passesFor s) s = .ok after ∧ d = after.decl ∧
      report = ⟨s.className, s.decl.name, .woven (w.passesFor s)⟩) := by
  unfold Weaver.weaveMethod at h
  cases hdec : w.decide s with
  | skip reason =>
      rw [hdec] at h
      obtain ⟨rfl, rfl⟩ := Prod.mk.inj (Except.ok.inj h)
      exact .inl ⟨reason, rfl, rfl, rfl⟩
  | weave =>
      rw [hdec] at h
      rcases ok_of_bind_ok h with ⟨after, hrun, h⟩
      obtain ⟨rfl, rfl⟩ := Prod.mk.inj (Except.ok.inj h)
      rcases Weaver.body_of_decide hdec with ⟨body, hbody⟩
      exact .inr ⟨rfl, body, after, hbody, hrun, rfl, rfl⟩

theorem weaveMethod_woven {w : Weaver} {s : Session} {d : MethodDecl} {report : MethodReport}
    (h : w.weaveMethod s = .ok (d, report)) (hwoven : report.isWoven = true) :
    w.decide s = .weave ∧ ∃ body after, s.decl.body = some body ∧
      w.runPasses (w.passesFor s) s = .ok after ∧ d = after.decl := by
  rcases weaveMethod_cases h with ⟨reason, -, -, rfl⟩ | ⟨hdec, body, after, hbody, hrun, hd, -⟩
  · exact absurd hwoven (by simp [MethodReport.isWoven])
  · exact ⟨hdec, body, after, hbody, hrun, hd⟩

theorem weaveMethod_ok {w : Weaver} {u : CompilationUnit} {c : ClassDecl} {m d : MethodDecl}
    {report : MethodReport} (h : w.weaveMethod (w.session u c m) = .ok (d, report)) :
    d = { m with body := w.bodies u c m } := by
  unfold Weaver.bodies
  rcases weaveMethod_cases h with
    ⟨reason, hdec, rfl, -⟩ | ⟨hdec, body, after, hbody, hrun, rfl, -⟩
  · rw [hdec]
  · have hm : m.body = some body := hbody
    rw [(runPasses_passesFor hbody rfl hrun).2, hdec, hm]
    rfl

/-! ## Units -/

theorem weaveClass_ok {w : Weaver} {u : CompilationUnit} {c : ClassDecl}
    {result : ClassDecl × List MethodReport} (h : w.weaveClass u c = .ok result) :
    result.1 = c.withBodies (w.bodies u c) := by
  rcases ok_of_bind_ok h with ⟨results, hmap, h⟩
  obtain rfl := Except.ok.inj h
  have hmethods := mapM_map_ok (g := fun m => { m with body := w.bodies u c m }) Prod.fst
    (fun m result hm => weaveMethod_ok (d := result.1) hm) hmap
  show { c with methods := results.map Prod.fst } = _
  rw [hmethods]
  rfl

/-- A unit that is woven differs from the former one in the bodies of its methods. -/
theorem weaveUnit_ok {w : Weaver} {u u' : CompilationUnit} {report : UnitReport}
    (h : w.weaveUnit u = .ok (u', report)) (runtimeClass : String) :
    (⟨u', runtimeClass⟩ : Eval.Program) =
      (⟨u, runtimeClass⟩ : Eval.Program).withBodies (w.bodies u) := by
  rcases ok_of_bind_ok h with ⟨results, hmap, h⟩
  have hu : { u with classes := results.map Prod.fst } = u' :=
    congrArg Prod.fst (Except.ok.inj h)
  have hclasses := mapM_map_ok (g := fun c => c.withBodies (w.bodies u c)) Prod.fst
    (fun _ _ hc => weaveClass_ok hc) hmap
  rw [← hu, hclasses]
  rfl

theorem exists_woven {w : Weaver} {u : CompilationUnit} {result : CompilationUnit × UnitReport}
    (h : w.weaveUnit u = .ok result) {c : ClassDecl} (hc : c ∈ u.classes) {m : MethodDecl}
    (hm : m ∈ c.methods) (hdec : w.decide (w.session u c m) = .weave) :
    ∃ c' reports m' report, w.weaveClass u c = .ok (c', reports) ∧
      w.weaveMethod (w.session u c m) = .ok (m', report) ∧ report.isWoven = true := by
  rcases ok_of_bind_ok h with ⟨classes, hclasses, -⟩
  rcases exists_ok_of_mapM hclasses hc with ⟨⟨c', reports⟩, hc'⟩
  rcases ok_of_bind_ok hc' with ⟨methods, hmethods, -⟩
  rcases exists_ok_of_mapM hmethods hm with ⟨⟨m', report⟩, hm'⟩
  refine ⟨c', reports, m', report, hc', hm', ?_⟩
  rcases weaveMethod_cases hm' with ⟨reason, hskip, -, -⟩ | ⟨-, _, _, -, -, -, rfl⟩
  · exact nomatch hdec.symm.trans hskip
  · rfl

end Weave
end TraceWeaving
