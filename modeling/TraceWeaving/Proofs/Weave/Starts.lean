import TraceWeaving.Proofs.Weave.Conditions

/-!
# The start of a woven body

A constructor may start with the call of another one, which moves in front of the wrapper.
The statement is the only one of its kind, so what moves is known beforehand, and what
stays inside the wrapper are its reports and the rest of the body.
-/

namespace TraceWeaving
namespace Weave

open Code

/-! ## Expressions at the start of a list -/

theorem transformLists_expr {f : List Stmt → Naming (List Stmt)} {e : Expr} {front : List Stmt}
    (hf : ∀ stmts n, f (.expr e :: stmts) n = (front ++ (f stmts n).1, (f stmts n).2))
    (rest : List Stmt) (n : Nat) :
    transformLists f (.expr e :: rest) n =
      (front ++ (transformLists f rest n).1, (transformLists f rest n).2) :=
  hf _ _

theorem extractReturnsInList_expr (keep : Expr → Bool) (type : TypeName) (e : Expr)
    (stmts : List Stmt) (n : Nat) :
    extractReturnsInList keep type (.expr e :: stmts) n =
      ([.expr e] ++ (extractReturnsInList keep type stmts n).1,
        (extractReturnsInList keep type stmts n).2) := by
  unfold extractReturnsInList
  rw [List.mapM_cons]
  rfl

theorem placeInList_expr (hooks : Hooks) (id : String) (e : Expr) (stmts : List Stmt) (n : Nat) :
    placeInList hooks id (.expr e :: stmts) n =
      (.expr e :: reports hooks id (writesIn e) ++ (placeInList hooks id stmts n).1,
        (placeInList hooks id stmts n).2) := by
  unfold placeInList
  rw [List.mapM_cons]
  rfl

theorem extracted_expr (keep : Expr → Bool) (decl : MethodDecl) (e : Expr) (rest : List Stmt)
    (n : Nat) :
    extracted keep decl (.expr e :: rest) n =
      (.expr e :: (extracted keep decl rest n).1, (extracted keep decl rest n).2) := by
  rcases extracted_cases keep decl with h | ⟨type, h⟩
  · rw [h, h]
    rfl
  · rw [h, h]
    exact transformLists_expr (extractReturnsInList_expr keep type e) rest n

theorem reportReturns_expr (hooks : Hooks) (id : String) (e : Expr) (rest : List Stmt) :
    reportReturns hooks id (.expr e :: rest) = .expr e :: reportReturns hooks id rest :=
  rfl

theorem returned_traced {w : Weaver} {s : Session}
    (h : (w.settings.traceReturns && s.decl.returnsValue) = true) (body : List Stmt) (n : Nat) :
    (w.returned s body n).1 =
      reportReturns w.hooks s.id (extracted Expr.isTrivial s.decl body n).1 := by
  unfold Weaver.returned
  rw [if_pos h]
  rfl

theorem returned_untraced {w : Weaver} {s : Session}
    (h : ¬ (w.settings.traceReturns && s.decl.returnsValue) = true) (body : List Stmt) (n : Nat) :
    (w.returned s body n).1 = body := by
  unfold Weaver.returned
  rw [if_neg h]
  rfl

theorem returned_exprs (w : Weaver) (s : Session) (es : List Expr) (rest : List Stmt) (n : Nat) :
    (w.returned s (es.map .expr ++ rest) n).1 = es.map .expr ++ (w.returned s rest n).1 := by
  by_cases hr : (w.settings.traceReturns && s.decl.returnsValue) = true
  · rw [returned_traced hr, returned_traced hr]
    induction es with
    | nil => rfl
    | cons e es ih =>
        rw [List.map_cons, List.cons_append, extracted_expr, reportReturns_expr, ih]
        rfl
  · rw [returned_untraced hr, returned_untraced hr]

namespace Weaver

def reported (w : Weaver) (s : Session) (body : List Stmt) : List Stmt :=
  ((w.changed s (normalizeAll body) >>= w.returned s).run 0).1

/-- What holds of a normal body, and what every rewriting between its statements keeps, holds
of the body with its reports. -/
theorem reported_induction {w : Weaver} {s : Session} {body : List Stmt}
    {P : List Stmt → Nat → Prop} (hnormal : P (normalizeAll body) 0)
    (hextracted : ∀ keep stmts n, P stmts n →
      P (extracted keep s.decl stmts n).1 (extracted keep s.decl stmts n).2)
    (hchanges : ∀ stmts n, P stmts n →
      P (reportChanges w.hooks s.id stmts n).1 (reportChanges w.hooks s.id stmts n).2)
    (hreturns : ∀ stmts n, P stmts n → P (reportReturns w.hooks s.id stmts) n) :
    ∃ n, P (w.reported s body) n := by
  have hchanged : P (w.changed s (normalizeAll body) 0).1
      (w.changed s (normalizeAll body) 0).2 := by
    unfold changed
    split
    · exact hchanges _ _ (hextracted _ _ _ hnormal)
    · exact hnormal
  show ∃ n, P (w.returned s _ _).1 n
  unfold returned
  split
  · exact ⟨_, hreturns _ _ (hextracted _ _ _ hchanged)⟩
  · exact ⟨_, hchanged⟩

theorem innerBody_eq (w : Weaver) (s : Session) (body : List Stmt) :
    w.innerBody s body = w.deadline s ++ w.reported s body :=
  rfl

def startCalls (w : Weaver) (s : Session) (e : Expr) : List Expr :=
  if w.settings.traceChanges then reportCalls w.hooks s.id (writesIn e) else []

theorem changed_expr (w : Weaver) (s : Session) (e : Expr) (rest : List Stmt) (n : Nat) :
    w.changed s (.expr e :: rest) n =
      ((e :: w.startCalls s e).map .expr ++ (w.changed s rest n).1, (w.changed s rest n).2) := by
  unfold changed startCalls
  by_cases hc : w.settings.traceChanges = true
  · simp only [hc, if_true]
    have hcalls : (reportCalls w.hooks s.id (writesIn e)).map .expr =
        reports w.hooks s.id (writesIn e) := by
      unfold reportCalls reports
      rw [List.map_map]
      rfl
    show (fun result : List Stmt × Nat => reportChanges w.hooks s.id result.1 result.2)
      (extracted Expr.isName s.decl (.expr e :: rest) n) = _
    rw [extracted_expr, List.map_cons, hcalls]
    exact transformLists_expr (placeInList_expr w.hooks s.id e) _ _
  · simp only [hc]
    rfl

theorem reported_expr (w : Weaver) (s : Session) (e : Expr) (rest : List Stmt) :
    w.reported s (.expr e :: rest) =
      .expr e :: ((w.startCalls s e).map .expr ++ w.reported s rest) := by
  show (w.returned s (w.changed s (.expr e :: normalizeAll rest) 0).1
    (w.changed s (.expr e :: normalizeAll rest) 0).2).1 = _
  rw [changed_expr, returned_exprs]
  rfl

end Weaver

/-! ## Calls of other constructors -/

def Undelegated (stmts : List Stmt) : Prop :=
  ∀ s ∈ stmts, s.isDelegation = false

theorem isDelegation_head (s : Stmt) : s.head.isDelegation = s.isDelegation := by
  cases s <;> rfl

theorem undelegated_reports (hooks : Hooks) (id : String) (writes : List Write) :
    Undelegated (reports hooks id writes) := by
  intro s hs
  rcases List.mem_map.mp hs with ⟨write, _, rfl⟩
  rfl

theorem undelegated_normalizeAll {stmts : List Stmt} (h : Undelegated stmts) :
    Undelegated (normalizeAll stmts) := by
  rw [normalizeAll_eq]
  intro t ht
  rcases List.mem_map.mp ht with ⟨s, hs, rfl⟩
  rw [← isDelegation_head, head_normalize, isDelegation_head]
  exact h s hs

theorem undelegated_transformLists {f : List Stmt → Naming (List Stmt)}
    (hf : ∀ stmts n, Undelegated stmts → Undelegated (f stmts n).1) {stmts : List Stmt}
    (h : Undelegated stmts) (n : Nat) : Undelegated (transformLists f stmts n).1 := by
  have hnested : ∀ (stmts : List Stmt) (n : Nat), Undelegated stmts →
      Undelegated (Stmt.transformNestedInAll f stmts n).1 := by
    intro stmts
    induction stmts with
    | nil => exact fun _ _ _ ht => absurd ht List.not_mem_nil
    | cons s rest ih =>
        intro n h t ht
        rcases List.mem_cons.mp ht with rfl | ht
        · rw [← isDelegation_head, head_transformNested, isDelegation_head]
          exact h s List.mem_cons_self
        · exact ih _ (fun t ht => h t (List.mem_cons_of_mem s ht)) t ht
  exact hf _ _ (hnested stmts n h)

theorem undelegated_after_place (hooks : Hooks) (id : String) (s : Stmt) (n : Nat) :
    Undelegated (place hooks id s n).1.after := by
  induction s using Stmt.childInduction generalizing n with
  | step s ih =>
      cases s with
      | expr e => exact undelegated_reports hooks id _
      | decl type ident init =>
          cases init with
          | none => exact fun _ ht => absurd ht List.not_mem_nil
          | some init => exact undelegated_reports hooks id _
      | forEach _ _ _ _ | switch _ _ => exact undelegated_reports hooks id _
      | forLoop init cond update body =>
          show Undelegated (placeFor hooks id init cond update body).after
          rw [placeFor_eq]
          cases init <;> exact fun _ ht => absurd ht List.not_mem_nil
      | labeled label body =>
          by_cases hdo : ∃ inner cond, body = .doWhile inner cond
          · rcases hdo with ⟨inner, cond, rfl⟩
            exact fun _ ht => absurd ht List.not_mem_nil
          · rw [place_labeled fun inner cond hb => hdo ⟨inner, cond, hb⟩]
            exact ih body (List.mem_singleton_self body) n
      | block _ | ifElse _ _ _ | whileLoop _ _ | doWhile _ _ | breakTo _ | continueTo _ | ret _
      | raise _ | tryCatch _ _ _ | sync _ _ | unmodelled _ =>
          exact fun _ ht => absurd ht List.not_mem_nil

theorem isDelegation_of_not_simple {s : Stmt} (h : s.isSimple = false) :
    s.isDelegation = false := by
  cases s <;> first | rfl | cases h

theorem isDelegation_place (hooks : Hooks) (id : String) (s : Stmt) (n : Nat) :
    (place hooks id s n).1.stmt.isDelegation = s.isDelegation := by
  rcases place_simple_or_not s n with hsame | ⟨hs, hplaced⟩
  · rw [hsame]
  · rw [isDelegation_of_not_simple hplaced, isDelegation_of_not_simple hs]

theorem undelegated_placeInList (hooks : Hooks) (id : String) (stmts : List Stmt) (n : Nat)
    (h : Undelegated stmts) : Undelegated (placeInList hooks id stmts n).1 := by
  intro t ht
  rcases List.mem_flatMap.mp ht with ⟨placed, hplaced, ht⟩
  rcases (mapM_naming stmts n fun s _ k => le_place s k).2 placed hplaced with ⟨s, hs, k, _, rfl⟩
  unfold Placed.stmts at ht
  split at ht
  · rcases List.mem_cons.mp ht with rfl | ht
    · rw [isDelegation_place]
      exact h s hs
    · exact undelegated_after_place hooks id s k t ht
  · obtain rfl := List.mem_singleton.mp ht
    rfl

theorem undelegated_extractReturnsInList (keep : Expr → Bool) (type : TypeName)
    (stmts : List Stmt) (n : Nat) (h : Undelegated stmts) :
    Undelegated (extractReturnsInList keep type stmts n).1 := by
  intro t ht
  rcases List.mem_flatten.mp ht with ⟨list, hlist, ht⟩
  rcases (mapM_naming stmts n fun s _ k => le_extractReturn keep type s k).2 list hlist with
    ⟨s, hs, k, _, rfl⟩
  unfold extractReturn at ht
  split at ht
  · split at ht
    · obtain rfl := List.mem_singleton.mp ht
      rfl
    · rcases List.mem_cons.mp ht with rfl | ht
      · rfl
      · obtain rfl := List.mem_singleton.mp ht
        rfl
  · obtain rfl := List.mem_singleton.mp ht
    exact h t hs

theorem undelegated_extracted (keep : Expr → Bool) (decl : MethodDecl) {stmts : List Stmt}
    (h : Undelegated stmts) (n : Nat) : Undelegated (extracted keep decl stmts n).1 := by
  rcases extracted_cases keep decl with hpure | ⟨type, hmoved⟩
  · rw [hpure]
    exact h
  · rw [hmoved]
    exact undelegated_transformLists (undelegated_extractReturnsInList keep type) h n

theorem undelegated_reportReturns (hooks : Hooks) (id : String) {stmts : List Stmt}
    (h : Undelegated stmts) : Undelegated (reportReturns hooks id stmts) := by
  have hlists := undelegated_transformLists
    (f := fun stmts => (pure (stmts.flatMap (reportReturn hooks id)) : Naming (List Stmt)))
    (fun stmts _ h t ht => by
      rcases List.mem_flatMap.mp ht with ⟨s, hs, ht⟩
      unfold reportReturn at ht
      split at ht
      · rcases List.mem_cons.mp ht with rfl | ht
        · rfl
        · obtain rfl := List.mem_singleton.mp ht
          rfl
      · obtain rfl := List.mem_singleton.mp ht
        exact h t hs) h 0
  rw [transformLists_pure] at hlists
  exact hlists

theorem undelegated_reported (w : Weaver) (s : Session) {body : List Stmt}
    (h : Undelegated body) : Undelegated (w.reported s body) := by
  rcases Weaver.reported_induction (w := w) (s := s) (P := fun stmts _ => Undelegated stmts)
    (undelegated_normalizeAll h)
    (fun _ _ n h => undelegated_extracted _ s.decl h n)
    (fun _ n h => undelegated_transformLists (undelegated_placeInList w.hooks s.id) h n)
    (fun _ _ h => undelegated_reportReturns w.hooks s.id h) with ⟨-, hreported⟩
  exact hreported

theorem undelegated_deadline (w : Weaver) (s : Session) : Undelegated (w.deadline s) := by
  intro t ht
  unfold Weaver.deadline at ht
  cases hm : s.markers.timeout with
  | none =>
      rw [hm] at ht
      exact absurd ht List.not_mem_nil
  | some millis =>
      rw [hm] at ht
      obtain rfl := List.mem_singleton.mp ht
      rfl

/-- A constructor calls another one in its first statement, if at all. -/
def DelegatesFirst (decl : MethodDecl) (body : List Stmt) : Prop :=
  decl.isConstructor = true → Undelegated body.tail

instance (decl : MethodDecl) (body : List Stmt) : Decidable (DelegatesFirst decl body) :=
  inferInstanceAs (Decidable (decl.isConstructor = true →
    ∀ s ∈ body.tail, s.isDelegation = false))

/-- The call of another constructor that a constructor starts with, and what follows it. -/
def splitStart (decl : MethodDecl) : List Stmt → Option Expr × List Stmt
  | .expr e :: rest =>
      if decl.isConstructor && e.isDelegation then (some e, rest) else (none, .expr e :: rest)
  | body => (none, body)

theorem splitStart_append (decl : MethodDecl) (body : List Stmt) :
    (splitStart decl body).1.toList.map .expr ++ (splitStart decl body).2 = body := by
  unfold splitStart
  split
  · split <;> rfl
  · rfl

theorem splitStart_every {q : Stmt → Prop} (decl : MethodDecl) {body : List Stmt}
    (h : Stmt.EveryIn q body) :
    (∀ e ∈ (splitStart decl body).1, q (.expr e)) ∧ Stmt.EveryIn q (splitStart decl body).2 := by
  rw [← splitStart_append decl body] at h
  rcases Stmt.everyIn_append.mp h with ⟨hstart, hrest⟩
  refine ⟨fun e he => ?_, hrest⟩
  exact (hstart (.expr e) (List.mem_map.mpr ⟨e, Option.mem_toList.mpr he, rfl⟩)).here

/-- A body is its start followed by the rest; there is no call of another constructor in
the rest of a constructor. -/
theorem splitStart_spec {decl : MethodDecl} {body : List Stmt} (h : DelegatesFirst decl body) :
    (∃ e rest, body = .expr e :: rest ∧ decl.isConstructor = true ∧ e.isDelegation = true ∧
        splitStart decl body = (some e, rest)) ∨
      splitStart decl body = (none, body) ∧ (decl.isConstructor = true → Undelegated body) := by
  cases body with
  | nil => exact .inr ⟨rfl, fun _ _ ht => absurd ht List.not_mem_nil⟩
  | cons s rest =>
      have hrest : s.isDelegation = false → decl.isConstructor = true → Undelegated (s :: rest) :=
        fun hs hc => List.forall_mem_cons.mpr ⟨hs, h hc⟩
      cases s with
      | expr e =>
          by_cases hd : (decl.isConstructor && e.isDelegation) = true
          · have hboth := Bool.and_eq_true_iff.mp hd
            exact .inl ⟨e, rest, rfl, hboth.1, hboth.2, if_pos hd⟩
          · refine .inr ⟨if_neg hd, fun hc => hrest ?_ hc⟩
            have he : e.isDelegation ≠ true := fun he => hd (by rw [hc, he]; rfl)
            exact Bool.eq_false_iff.mpr he
      | block _ | decl _ _ _ | ifElse _ _ _ | whileLoop _ _ | doWhile _ _ | forLoop _ _ _ _
      | forEach _ _ _ _ | labeled _ _ | switch _ _ | breakTo _ | continueTo _ | ret _ | raise _
      | tryCatch _ _ _ | sync _ _ | unmodelled _ => exact .inr ⟨rfl, hrest rfl⟩

/-- What moves in front of a wrapper, and what stays inside it. -/
theorem bodyOf_split (w : Weaver) (s : Session) {body : List Stmt}
    (h : DelegatesFirst s.decl body) :
    w.front s body = (splitStart s.decl body).1 ∧
      w.rest s body = w.deadline s ++ (((splitStart s.decl body).1.toList.flatMap
        (w.startCalls s)).map .expr ++ w.reported s (splitStart s.decl body).2) := by
  have hdeadline := undelegated_deadline w s
  unfold Weaver.front Weaver.rest
  rw [Weaver.innerBody_eq]
  rcases splitStart_spec h with ⟨e, rest, rfl, hc, he, hsplit⟩ | ⟨hsplit, hnone⟩
  · have hstart : (Stmt.expr e).isDelegation = true := he
    have hfind : (w.deadline s).find? Stmt.isDelegation = none :=
      List.find?_eq_none.mpr fun t ht => by simp [hdeadline t ht]
    have herase : ∀ t ∈ w.deadline s, ¬ t.isDelegation = true :=
      fun t ht => by simp [hdeadline t ht]
    rw [hsplit, hc, Weaver.reported_expr]
    simp only [if_true]
    constructor
    · unfold delegation?
      rw [List.find?_append, hfind, List.find?_cons_of_pos hstart]
      rfl
    · rw [List.eraseP_append_right _ herase, List.eraseP_cons_of_pos hstart]
      simp only [Option.toList_some, List.flatMap_cons, List.flatMap_nil, List.append_nil]
  · rw [hsplit]
    simp only [Option.toList_none, List.flatMap_nil, List.map_nil, List.nil_append]
    by_cases hc : s.decl.isConstructor = true
    · have hall : ∀ t ∈ w.deadline s ++ w.reported s body, ¬ t.isDelegation = true := by
        intro t ht
        rcases List.mem_append.mp ht with ht | ht
        · simp [hdeadline t ht]
        · simp [undelegated_reported w s (hnone hc) t ht]
      simp only [hc, if_true]
      constructor
      · unfold delegation?
        rw [List.find?_eq_none.mpr hall]
        rfl
      · exact List.eraseP_of_forall_not hall
    · simp only [hc]
      exact ⟨rfl, rfl⟩

end Weave
end TraceWeaving
