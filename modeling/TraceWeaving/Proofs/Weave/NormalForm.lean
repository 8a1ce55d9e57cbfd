import TraceWeaving.Proofs.Weave.Blocks
import TraceWeaving.Proofs.Weave.WovenRuns
import TraceWeaving.Proofs.Weave.Refusal

/-!
# Normal form

Normalizing code that has a model reaches the normal form and preserves what the code
does.  Code in normal form is its own normal form, and the later passes keep it, although
they move tests, hoist declarations and insert statements next to others.
-/

namespace TraceWeaving
namespace Weave

open Code
open Code.Stmt (ScopesHere)
open Eval (isBlock_forTest isBlock_retarget isLoop_placeLoop placeLoop place_labeled_loop
  place_of_isLoop)
open Eval (Program)

/-- Every controlled statement is a block, at any depth and except in chains. -/
def InNormalForm (body : List Stmt) : Prop :=
  Stmt.EveryIn NormalHere body

def Modelled (body : List Stmt) : Prop :=
  ∀ text, Stmt.unmodelled text ∉ Stmt.nodesOfAll body

def ModelledHere (s : Stmt) : Prop :=
  unmodelledText? s = none

instance : DecidablePred ModelledHere :=
  fun s => inferInstanceAs (Decidable (unmodelledText? s = none))

theorem modelled_iff {body : List Stmt} : Modelled body ↔ Stmt.EveryIn ModelledHere body := by
  unfold Modelled
  rw [← unmodelledInAll?_eq_none, unmodelledInAll?_eq, List.findSome?_eq_none_iff,
    Stmt.nodesOfAll_eq]
  constructor
  · exact fun h s hs t ht => h t (List.mem_flatMap.mpr ⟨s, hs, ht⟩)
  · intro h t ht
    rcases List.mem_flatMap.mp ht with ⟨s, hs, ht⟩
    exact h s hs t ht

theorem normalizeBody_eq_ok {body normal : List Stmt} :
    normalizeBody body = .ok normal ↔ Modelled body ∧ normal = normalizeAll body := by
  unfold Modelled normalizeBody
  rw [← unmodelledInAll?_eq_none]
  cases unmodelledInAll? body with
  | some text => simp
  | none => simp [eq_comm]

/-! ## Reaching the normal form -/

theorem inNormalForm_normalizeAll (body : List Stmt) : InNormalForm (normalizeAll body) := by
  have hany : Stmt.EveryIn (fun _ => True) body := fun _ _ _ _ => trivial
  exact normalizeAll_every (fun _ => trivial) (fun s _ => normalHere_normalize s) hany

theorem modelledHere_of_head {s t : Stmt} (hhead : t.head = s.head) (h : ModelledHere s) :
    ModelledHere t := by
  have hsame : ∀ s : Stmt, unmodelledText? s.head = unmodelledText? s := by
    intro s
    cases s <;> rfl
  unfold ModelledHere at h ⊢
  rw [← hsame, hhead, hsame, h]

theorem modelled_normalizeAll {body : List Stmt} (h : Modelled body) :
    Modelled (normalizeAll body) := by
  rw [modelled_iff] at h ⊢
  exact normalizeAll_every (fun _ => rfl)
    (fun s hs => modelledHere_of_head (head_normalize s) hs) h

/-! ## Staying in normal form -/

theorem asBlock_of_isBlock {s : Stmt} (hs : s.isBlock = true) : asBlock s = s := by
  unfold asBlock
  rw [if_pos hs]

theorem normalizeAll_of_forall {stmts : List Stmt} (h : ∀ s ∈ stmts, normalize s = s) :
    normalizeAll stmts = stmts := by
  rw [normalizeAll_eq]
  exact (List.map_congr_left h).trans (List.map_id stmts)

theorem normalize_of_normal {s : Stmt} (h : s.Every NormalHere) : normalize s = s := by
  induction s using Stmt.childInduction with
  | step s ih =>
      have hchild : ∀ t ∈ s.children, normalize t = t := fun t ht => ih t ht (h.child ht)
      have hlist : ∀ {stmts : List Stmt}, stmts ⊆ s.children → normalizeAll stmts = stmts :=
        fun hstmts => normalizeAll_of_forall fun t ht => hchild t (hstmts ht)
      have hhere := h.here
      cases s with
      | block stmts => exact congrArg Stmt.block (hlist fun t ht => ht)
      | sync lock body => exact congrArg (Stmt.sync lock) (hlist fun t ht => ht)
      | whileLoop _ body | doWhile body _ | forLoop _ _ _ body | forEach _ _ _ body =>
          simp only [normalize, hchild body (List.mem_singleton_self body), asBlock_of_isBlock hhere]
      | ifElse cond ifTrue ifFalse =>
          have helse : normalizeElse ifFalse = ifFalse := by
            cases ifFalse with
            | none => rfl
            | some t =>
                have ht : t ∈ (Stmt.ifElse cond ifTrue (some t)).children :=
                  List.mem_cons_of_mem _ (List.mem_singleton_self t)
                simp only [normalizeElse, hchild t ht]
                split
                · rfl
                · rename_i hchain
                  rw [asBlock_of_isBlock ((hhere.2 t rfl).resolve_left hchain)]
          simp only [normalize, hchild ifTrue List.mem_cons_self, asBlock_of_isBlock hhere.1, helse]
      | labeled label body =>
          simp only [normalize, hchild body (List.mem_singleton_self body)]
          split
          · rfl
          · rename_i hkeeps
            rw [asBlock_of_isBlock (hhere.resolve_left hkeeps)]
      | switch selector cases =>
          have hcases : ∀ c ∈ cases, SwitchCase.mk c.labels (normalizeAll c.body) = c := by
            intro c hc
            rw [hlist fun t ht => List.mem_flatMap.mpr ⟨c, hc, ht⟩]
            cases c
            rfl
          simp only [normalize, normalizeCases_eq]
          rw [List.map_congr_left hcases, List.map_id']
      | tryCatch body catches cleanup =>
          have hbody : normalizeAll body = body :=
            hlist fun t ht => List.mem_append_left _ (List.mem_append_left _ ht)
          have hcatches : ∀ c ∈ catches,
              CatchClause.mk c.type c.ident (normalizeAll c.body) = c := by
            intro c hc
            rw [hlist fun t ht => List.mem_append_left _ (List.mem_append_right _
              (List.mem_flatMap.mpr ⟨c, hc, ht⟩))]
            cases c
            rfl
          have hcleanup : normalizeCleanup cleanup = cleanup := by
            cases cleanup with
            | none => rfl
            | some stmts =>
                exact congrArg some (hlist fun t ht => List.mem_append_right _ ht)
          simp only [normalize, normalizeCatches_eq, hbody, hcleanup]
          rw [List.map_congr_left hcatches, List.map_id']
      | decl _ _ _ | expr _ | breakTo _ | continueTo _ | ret _ | raise _ | unmodelled _ => rfl

theorem normalizeAll_of_inNormalForm {body : List Stmt} (h : InNormalForm body) :
    normalizeAll body = body :=
  normalizeAll_of_forall fun s hs => normalize_of_normal (h s hs)

/-! ## Reports of value changes -/

section

variable (hooks : Hooks) (id : String)

theorem isBlock_prepend {stmts : List Stmt} {body : Stmt} (hb : body.isBlock = true) :
    (prepend stmts body).isBlock = true := by
  by_cases hs : stmts = []
  · rw [hs]
    exact hb
  · rcases prepend_eq stmts body hs with ⟨inner, heq, _⟩
    rw [heq]
    rfl

theorem every_prepend_normal {stmts : List Stmt} {body : Stmt} (hs : InNormalForm stmts)
    (hb : body.Every NormalHere) : (prepend stmts body).Every NormalHere :=
  every_prepend (fun _ => trivial) hs hb

theorem reports_normal (writes : List Write) : InNormalForm (reports hooks id writes) := by
  intro s hs
  rcases List.mem_map.mp hs with ⟨write, _, rfl⟩
  exact (Stmt.every_leaf rfl).mpr trivial

theorem testInBody_normal (cond : Expr) (writes : List Write) :
    InNormalForm (testInBody hooks id cond writes) := by
  have hreports := reports_normal hooks id writes
  refine Stmt.everyIn_cons.mpr
    ⟨Stmt.every_ifElse.mpr ⟨⟨rfl, fun _ h => nomatch h⟩, ?_, fun _ h => nomatch h⟩,
    hreports⟩
  refine Stmt.every_block.mpr ⟨trivial, Stmt.everyIn_append.mpr ⟨hreports, ?_⟩⟩
  exact Stmt.everyIn_singleton.mpr ((Stmt.every_leaf rfl).mpr trivial)

theorem placeIf_normal {cond : Expr} {ifTrue : Stmt} {ifFalse : Option Stmt}
    (h : (Stmt.ifElse cond ifTrue ifFalse).Every NormalHere) :
    (placeIf hooks id cond ifTrue ifFalse).Every NormalHere := by
  have hreports := reports_normal hooks id (writesIn cond)
  unfold placeIf
  simp only
  split
  · exact h
  · rename_i hfront
    rw [Stmt.every_ifElse] at h
    have helse : (ifFalse.getD (.block [])).Every NormalHere := by
      cases ifFalse with
      | none => exact Stmt.every_block.mpr ⟨trivial, Stmt.everyIn_nil⟩
      | some s => exact h.2.2 s rfl
    -- whatever stood behind `else`, with reports in front it is a block
    have hblock : (prepend (reports hooks id (writesIn cond))
        (ifFalse.getD (.block []))).isBlock = true := by
      rcases prepend_eq _ (ifFalse.getD (.block [])) (mt List.isEmpty_iff.mpr hfront) with
        ⟨inner, heq, _⟩
      rw [heq]
      rfl
    refine Stmt.every_ifElse.mpr ⟨⟨isBlock_prepend h.1.1, fun s hs => ?_⟩,
      every_prepend_normal hreports h.2.1, fun s hs => ?_⟩
    · obtain rfl := Option.some.inj hs
      exact .inr hblock
    · obtain rfl := Option.some.inj hs
      exact every_prepend_normal hreports helse

theorem placeWhile_normal {cond : Expr} {body : Stmt}
    (h : (Stmt.whileLoop cond body).Every NormalHere) :
    (placeWhile hooks id cond body).Every NormalHere := by
  unfold placeWhile
  simp only
  split
  · exact h
  · have hloop := Stmt.every_whileLoop.mp h
    exact Stmt.every_whileLoop.mpr ⟨isBlock_prepend hloop.1,
      every_prepend_normal (testInBody_normal hooks id cond _) hloop.2⟩

end

section

variable (label : Option String) (target : String)

theorem chainsElse_retarget (b : Bool) {s : Stmt} (h : chainsElse s = true) :
    chainsElse (retarget label target b s) = true := by
  cases s with
  | ifElse _ _ _ => rfl
  | block _ | decl _ _ _ | expr _ | whileLoop _ _ | doWhile _ _ | forLoop _ _ _ _
  | forEach _ _ _ _ | labeled _ _ | switch _ _ | breakTo _ | continueTo _ | ret _ | raise _
  | tryCatch _ _ _ | sync _ _ | unmodelled _ => exact nomatch h

theorem keepsLabel_retarget (b : Bool) {s : Stmt} (h : keepsLabel s = true) :
    keepsLabel (retarget label target b s) = true := by
  cases s with
  | whileLoop _ _ | doWhile _ _ | forLoop _ _ _ _ | forEach _ _ _ _ | labeled _ _ => rfl
  | block _ | decl _ _ _ | expr _ | ifElse _ _ _ | switch _ _ | breakTo _ | continueTo _
  | ret _ | raise _ | tryCatch _ _ _ | sync _ _ | unmodelled _ => exact nomatch h

theorem normalHere_retarget (b : Bool) {s : Stmt} (h : NormalHere s) :
    NormalHere (retarget label target b s) := by
  cases s with
  | ifElse cond ifTrue ifFalse =>
      constructor
      · exact isBlock_retarget label target b h.1
      · intro t ht
        cases ifFalse with
        | none => exact nomatch ht
        | some s =>
            obtain rfl := Option.some.inj ht
            exact (h.2 s rfl).imp (chainsElse_retarget label target b)
              (isBlock_retarget label target b)
  | whileLoop _ _ | doWhile _ _ | forLoop _ _ _ _ | forEach _ _ _ _ =>
      exact isBlock_retarget label target true h
  | labeled _ body =>
      exact Or.imp (keepsLabel_retarget label target b) (isBlock_retarget label target b) h
  | continueTo l =>
      cases l with
      | none => cases b <;> trivial
      | some l =>
          unfold retarget
          split <;> trivial
  | block _ | decl _ _ _ | expr _ | switch _ _ | breakTo _ | ret _ | raise _
  | tryCatch _ _ _ | sync _ _ | unmodelled _ => trivial

end

section

variable (hooks : Hooks) (id : String)

theorem placeDoWhile_normal {body : Stmt} {cond : Expr} (label : Option String)
    (h : (Stmt.doWhile body cond).Every NormalHere) (n : Nat) :
    (placeDoWhile hooks id body cond label n).1.Every NormalHere := by
  cases hw : (writesIn cond).isEmpty with
  | true =>
      rw [placeDoWhile_of_isEmpty hw]
      exact h
  | false =>
      rw [placeDoWhile_of_writes hw]
      have hbody := retarget_every label (reservedName "iteration" n)
        (fun b _ hs => normalHere_retarget label _ b hs) false
        (asBlock_every (fun _ => trivial) (Stmt.every_doWhile.mp h).2)
      refine Stmt.every_whileLoop.mpr ⟨rfl, Stmt.every_block.mpr ⟨trivial, ?_⟩⟩
      refine Stmt.everyIn_cons.mpr ⟨?_, testInBody_normal hooks id cond _⟩
      exact Stmt.every_labeled.mpr ⟨.inr (isBlock_retarget label _ false (isBlock_asBlock body)),
        hbody⟩

theorem forTest_normal (cond : Option Expr) {body : Stmt} (hb : body.Every NormalHere) :
    (forTest hooks id cond body).2.Every NormalHere := by
  cases cond with
  | none => exact hb
  | some test =>
      simp only [forTest]
      split
      · exact hb
      · exact every_prepend_normal (testInBody_normal hooks id test _) hb

theorem placeFor_normal {init : ForInit} {cond : Option Expr} {update : List Expr} {body : Stmt}
    (h : (Stmt.forLoop init cond update body).Every NormalHere) :
    (placeFor hooks id init cond update body).Every NormalHere := by
  have hloop := Stmt.every_forLoop.mp h
  have hbody := forTest_normal hooks id cond hloop.2
  have hblock : (forTest hooks id cond body).2.isBlock = true :=
    isBlock_forTest hloop.1 cond
  rw [placeFor_eq]
  cases init with
  | exprs es => exact .alone (Stmt.every_forLoop.mpr ⟨hblock, hbody⟩)
  | decl type ident init =>
      constructor
      · exact Stmt.everyIn_cons.mpr ⟨(Stmt.every_leaf rfl).mpr trivial, reports_normal hooks id _⟩
      · exact Stmt.every_forLoop.mpr ⟨hblock, hbody⟩
      · exact Stmt.everyIn_nil

theorem placeLoop_normal (label : Option String) {s : Stmt} (hs : s.isLoop = true)
    (h : s.Every NormalHere) (n : Nat) : (placeLoop hooks id label s n).1.Every NormalHere := by
  cases s with
  | whileLoop cond body => exact .alone (placeWhile_normal hooks id h)
  | doWhile body cond => exact .alone (placeDoWhile_normal hooks id label h n)
  | forLoop init cond update body => exact placeFor_normal hooks id h
  | forEach type ident items body =>
      have hloop := Stmt.every_forEach.mp h
      constructor
      · exact Stmt.everyIn_nil
      · exact Stmt.every_forEach.mpr ⟨isBlock_prepend hloop.1,
          every_prepend_normal (reports_normal hooks id _) hloop.2⟩
      · exact reports_normal hooks id _
  | block _ | decl _ _ _ | expr _ | ifElse _ _ _ | labeled _ _ | switch _ _ | breakTo _
  | continueTo _ | ret _ | raise _ | tryCatch _ _ _ | sync _ _ | unmodelled _ => exact nomatch hs

theorem placeIf_chains (cond : Expr) (ifTrue : Stmt) (ifFalse : Option Stmt) :
    chainsElse (placeIf hooks id cond ifTrue ifFalse) = true := by
  unfold placeIf
  simp only
  split <;> rfl

theorem chainsElse_place {s : Stmt} (hs : chainsElse s = true) (n : Nat) :
    chainsElse (place hooks id s n).1.stmt = true := by
  cases s with
  | ifElse cond ifTrue ifFalse => exact placeIf_chains hooks id cond ifTrue _
  | block _ | decl _ _ _ | expr _ | whileLoop _ _ | doWhile _ _ | forLoop _ _ _ _
  | forEach _ _ _ _ | labeled _ _ | switch _ _ | breakTo _ | continueTo _ | ret _ | raise _
  | tryCatch _ _ _ | sync _ _ | unmodelled _ => exact nomatch hs

theorem keepsLabel_of_isLoop {s : Stmt} (hs : s.isLoop = true) : keepsLabel s = true := by
  cases s with
  | whileLoop _ _ | doWhile _ _ | forLoop _ _ _ _ | forEach _ _ _ _ => rfl
  | block _ | decl _ _ _ | expr _ | ifElse _ _ _ | labeled _ _ | switch _ _ | breakTo _
  | continueTo _ | ret _ | raise _ | tryCatch _ _ _ | sync _ _ | unmodelled _ => exact nomatch hs

theorem place_labeled_normal {label : String} {body : Stmt}
    (h : (Stmt.labeled label body).Every NormalHere) (n : Nat)
    (hbody : (place hooks id body n).1.Every NormalHere) :
    (place hooks id (.labeled label body) n).1.Every NormalHere := by
  have hlabel := Stmt.every_labeled.mp h
  by_cases hloop : body.isLoop = true
  · rw [place_labeled_loop hooks id label hloop]
    have hplaced := placeLoop_normal hooks id (some label) hloop hlabel.2 n
    have hkeeps := keepsLabel_of_isLoop (isLoop_placeLoop hooks id (some label) hloop n)
    exact ⟨hplaced.before, Stmt.every_labeled.mpr ⟨.inl hkeeps, hplaced.stmt⟩, hplaced.after⟩
  · rw [place_labeled (by rintro _ _ rfl; exact hloop rfl)]
    refine ⟨hbody.before, Stmt.every_labeled.mpr ⟨?_, hbody.stmt⟩, hbody.after⟩
    -- no loop: the body is a block or has a label itself
    cases body with
    | block stmts => exact .inr rfl
    | labeled _ inner =>
        left
        by_cases hdo : inner.isLoop = true
        · rw [place_labeled_loop hooks id _ hdo]
          rfl
        · rw [place_labeled (by rintro _ _ rfl; exact hdo rfl)]
          rfl
    | whileLoop _ _ | doWhile _ _ | forLoop _ _ _ _ | forEach _ _ _ _ => exact absurd rfl hloop
    | decl _ _ _ | expr _ | ifElse _ _ _ | switch _ _ | breakTo _ | continueTo _ | ret _
    | raise _ | tryCatch _ _ _ | sync _ _ | unmodelled _ =>
        exact hlabel.1.elim (fun h => nomatch h) fun h => nomatch h

theorem place_normal {s : Stmt} (h : s.Every NormalHere) (n : Nat) :
    (place hooks id s n).1.Every NormalHere := by
  induction s using Stmt.childInduction generalizing n with
  | step s ih =>
      cases s with
      | ifElse cond ifTrue ifFalse =>
          have hif := Stmt.every_ifElse.mp h
          cases ifFalse with
          | none => exact .alone (placeIf_normal hooks id h)
          | some s =>
              have hs := hif.2.2 s rfl
              show Placed.Every NormalHere (.alone (placeIf hooks id cond ifTrue
                (placeElse hooks id (some s) n).1))
              rw [placeElse_some]
              by_cases hchain : chainsElse s = true
              · rw [if_pos hchain]
                have hplaced := ih s (by simp [Stmt.children]) hs n
                refine .alone (placeIf_normal hooks id (Stmt.every_ifElse.mpr
                  ⟨⟨hif.1.1, fun t ht => ?_⟩, hif.2.1, fun t ht => ?_⟩))
                · obtain rfl := Option.some.inj ht
                  exact .inl (chainsElse_place hooks id hchain n)
                · obtain rfl := Option.some.inj ht
                  exact hplaced.stmt
              · rw [if_neg hchain]
                exact .alone (placeIf_normal hooks id h)
      | whileLoop _ _ | doWhile _ _ | forLoop _ _ _ _ | forEach _ _ _ _ =>
          rw [place_of_isLoop hooks id rfl]
          exact placeLoop_normal hooks id none rfl h n
      | labeled label body =>
          have hmem := List.mem_singleton_self body
          exact place_labeled_normal hooks id h n (ih body hmem (h.child hmem) n)
      | sync lock body =>
          refine .alone (Stmt.every_sync.mpr ⟨trivial, Stmt.everyIn_append.mpr ⟨?_, ?_⟩⟩)
          · exact reports_normal hooks id _
          · exact (Stmt.every_sync.mp h).2
      | expr e => exact ⟨Stmt.everyIn_nil, h, reports_normal hooks id _⟩
      | switch selector cases => exact ⟨Stmt.everyIn_nil, h, reports_normal hooks id _⟩
      | decl type ident init =>
          cases init with
          | none => exact .alone h
          | some init => exact ⟨Stmt.everyIn_nil, h, reports_normal hooks id _⟩
      | block _ | breakTo _ | continueTo _ | ret _ | raise _ | tryCatch _ _ _ | unmodelled _ =>
          exact .alone h

theorem placeInList_normal {stmts : List Stmt} (h : InNormalForm stmts) (n : Nat) :
    InNormalForm (placeInList hooks id stmts n).1 := by
  intro s hs
  rcases List.mem_flatMap.mp hs with ⟨placed, hplaced, hs⟩
  rcases (mapM_naming stmts n fun s _ k => le_place s k).2 placed hplaced with ⟨t, ht, k, _, rfl⟩
  exact (place_normal hooks id (h t ht) k).everyIn (fun _ => trivial) s hs

theorem reportChanges_normal {body : List Stmt} (h : InNormalForm body) (n : Nat) :
    InNormalForm (reportChanges hooks id body n).1 :=
  transformLists_every le_placeInList (normalHere_transformNested _)
    (fun _ k _ hstmts => placeInList_normal hooks id hstmts k) h n (Nat.le_refl _)

end

/-! ## Conditions that every pass keeps -/

/-- A condition that holds of what passes add, and that reporting value changes keeps. -/
structure Lasting (hooks : Hooks) (q : Stmt → Prop) : Prop where
  normalize : ∀ {s : Stmt}, q s → q (normalize s)
  nested : ∀ (f : List Stmt → Naming (List Stmt)) (s : Stmt) (n : Nat), q s →
    q (Stmt.transformNested f s n).1
  changes : ∀ (id : String) {body : List Stmt} (n : Nat), Stmt.EveryIn q body →
    Stmt.EveryIn q (reportChanges hooks id body n).1
  block : ∀ stmts, q (.block stmts)
  expr : ∀ e, q (.expr e)
  declare : ∀ type ident value, q (.declare type ident value)
  ret : ∀ value, q (.retValue value)
  raise : ∀ e, q (.raise e)
  tryCatch : ∀ body catches cleanup, q (.tryCatch body catches cleanup)

theorem lasting_normalHere (hooks : Hooks) : Lasting hooks NormalHere where
  normalize _ := normalHere_normalize _
  nested := normalHere_transformNested
  changes id _ n h := reportChanges_normal hooks id h n
  block _ := trivial
  expr _ := trivial
  declare _ _ _ := trivial
  ret _ := trivial
  raise _ := trivial
  tryCatch _ _ _ := trivial

theorem placeable_modelledHere (hooks : Hooks) (id : String) (bound : Nat) :
    Placeable hooks id bound ModelledHere where
  alike hhead _ h := modelledHere_of_head hhead h
  block _ := rfl
  changed _ _ _ := rfl
  test _ _ _ := rfl
  forever _ := rfl
  leave := rfl
  iteration _ _ _ := rfl
  next _ _ := rfl
  start _ := rfl
  forLoop _ _ _ := rfl

theorem lasting_modelledHere (hooks : Hooks) : Lasting hooks ModelledHere where
  normalize h := modelledHere_of_head (head_normalize _) h
  nested _ s n h := modelledHere_of_head (head_transformNested s n) h
  changes id _ n h := reportChanges_every (placeable_modelledHere hooks id _) h n (Nat.le_refl _)
  block _ := rfl
  expr _ := rfl
  declare _ _ _ := rfl
  ret _ := rfl
  raise _ := rfl
  tryCatch _ _ _ := rfl

/-- What a pass makes of a body; some passes leave it alone where the method does not ask for
them. -/
inductive Pass.Rewrites (hooks : Hooks) (s : Session) (body : List Stmt) :
    Pass → List Stmt → Prop
  | idle {pass : Pass} :
      pass ∈ [.returns, .timeout, .delegation] → Rewrites hooks s body pass body
  | normalize {body' : List Stmt} :
      normalizeBody body = .ok body' → Rewrites hooks s body .normalize body'
  | changes (n : Nat) : Rewrites hooks s body .changes
      (reportChanges hooks s.id (extracted Expr.isName s.decl body s.nextName).1 n).1
  | entryExit : Rewrites hooks s body .entryExit (wrap hooks s.id s.decl.params body)
  | returns : Rewrites hooks s body .returns
      (reportReturns hooks s.id (extracted Expr.isTrivial s.decl body s.nextName).1)
  | timeout {millis : UInt64} {body' : List Stmt} :
      setDeadline hooks s.id millis body = .ok body' → Rewrites hooks s body .timeout body'
  | errors {body' : List Stmt} :
      reportErrors hooks s.id body = .ok body' → Rewrites hooks s body .errors body'
  | delegation : Rewrites hooks s body .delegation (delegateFirst hooks body)

theorem Pass.rewrites_of_run {pass : Pass} {hooks : Hooks} {s s' : Session} {body : List Stmt}
    (hbody : s.decl.body = some body) (h : pass.run hooks s = .ok s') :
    ∃ body', s'.decl.body = some body' ∧ Pass.Rewrites hooks s body pass body' := by
  have hget : ∀ {α : Type} (f : List Stmt → Except Defect α), s.body >>= f = f body := by
    intro α f
    unfold Session.body
    rw [hbody]
    rfl
  cases pass with
  | normalize =>
      simp only [Pass.run, hget] at h
      rcases ok_of_bind_ok h with ⟨normal, hnormal, hs'⟩
      obtain rfl := Except.ok.inj hs'
      exact ⟨normal, rfl, .normalize hnormal⟩
  | changes =>
      simp only [Pass.run, hget] at h
      rcases ok_of_bind_ok h with ⟨work, hwork, hs'⟩
      obtain rfl := extractReturns_ok hwork
      obtain rfl := Except.ok.inj hs'
      exact ⟨_, rfl, .changes _⟩
  | entryExit =>
      simp only [Pass.run, hget] at h
      obtain rfl := Except.ok.inj h
      exact ⟨_, rfl, .entryExit⟩
  | returns =>
      simp only [Pass.run, hget] at h
      split at h
      · rcases ok_of_bind_ok h with ⟨work, hwork, hs'⟩
        obtain rfl := extractReturns_ok hwork
        obtain rfl := Except.ok.inj hs'
        exact ⟨_, rfl, .returns⟩
      · obtain rfl := Except.ok.inj h
        exact ⟨body, hbody, .idle (by simp)⟩
  | timeout =>
      simp only [Pass.run, hget] at h
      split at h
      · rcases ok_of_bind_ok h with ⟨body', hbody', hs'⟩
        obtain rfl := Except.ok.inj hs'
        exact ⟨body', rfl, .timeout hbody'⟩
      · obtain rfl := Except.ok.inj h
        exact ⟨body, hbody, .idle (by simp)⟩
  | errors =>
      simp only [Pass.run, hget] at h
      rcases ok_of_bind_ok h with ⟨body', hbody', hs'⟩
      obtain rfl := Except.ok.inj hs'
      exact ⟨body', rfl, .errors hbody'⟩
  | delegation =>
      simp only [Pass.run, hget] at h
      split at h
      · obtain rfl := Except.ok.inj h
        exact ⟨_, rfl, .delegation⟩
      · obtain rfl := Except.ok.inj h
        exact ⟨body, hbody, .idle (by simp)⟩

structure Guarded.Every (q : Stmt → Prop) (g : Guarded) : Prop where
  body : Stmt.EveryIn q g.body
  catches : ∀ c ∈ g.catches, Stmt.EveryIn q c.body

namespace Lasting

variable {hooks : Hooks} {q : Stmt → Prop} (hq : Lasting hooks q)

include hq

theorem extractable (keep : Expr → Bool) : Extractable keep q where
  nested _ s n h := hq.nested _ s n h
  declare _ _ _ := hq.declare _ _ _
  name _ := hq.ret _

theorem report (hook : String) (args : List Expr) : (hooks.report hook args).Every q :=
  (Stmt.every_leaf rfl).mpr (hq.expr _)

theorem reportReturns {body : List Stmt} (id : String) (h : Stmt.EveryIn q body) :
    Stmt.EveryIn q (reportReturns hooks id body) := by
  refine every_reportReturns hq.nested (fun s hs => ?_) h
  unfold reportReturn
  split
  · exact Stmt.everyIn_cons.mpr ⟨hq.report "returning" _, Stmt.everyIn_singleton.mpr hs⟩
  · exact Stmt.everyIn_singleton.mpr hs

theorem wrap {body : List Stmt} (id : String) (params : List Param) (h : Stmt.EveryIn q body) :
    Stmt.EveryIn q (wrap hooks id params body) := by
  have hexit : Stmt.EveryIn q [hooks.exiting id] :=
    Stmt.everyIn_singleton.mpr (hq.report "exiting" _)
  refine Stmt.everyIn_cons.mpr ⟨hq.report "entering" _, Stmt.everyIn_singleton.mpr ?_⟩
  refine Stmt.every_tryCatch.mpr ⟨hq.tryCatch _ _ _, h, fun c hc => ?_, fun stmts hstmts => ?_⟩
  · exact absurd hc List.not_mem_nil
  · obtain rfl := Option.some.inj hstmts
    exact hexit

theorem updateWrapper? {update : Guarded → Guarded} {body body' : List Stmt}
    (hupdate : ∀ g : Guarded, g.Every q → (update g).Every q) (hbody : Stmt.EveryIn q body)
    (h : updateWrapper? hooks update body = some body') : Stmt.EveryIn q body' := by
  fun_induction Weave.updateWrapper? hooks update body generalizing body' with
  | case1 => exact nomatch h
  | case2 body catches cleanup rest _ =>
      obtain rfl := Option.some.inj h
      rcases Stmt.everyIn_cons.mp hbody with ⟨htry, hrest⟩
      rw [Stmt.every_tryCatch] at htry
      have hinner := hupdate ⟨body, catches⟩ ⟨htry.2.1, htry.2.2.1⟩
      refine Stmt.everyIn_cons.mpr ⟨Stmt.every_tryCatch.mpr ?_, hrest⟩
      exact ⟨hq.tryCatch _ _ _, hinner.body, hinner.catches, htry.2.2.2⟩
  | case3 body catches cleanup rest _ ih | case4 s rest _ ih =>
      rcases Option.map_eq_some_iff.mp h with ⟨rest', hrest', rfl⟩
      rcases Stmt.everyIn_cons.mp hbody with ⟨hfirst, hrest⟩
      exact Stmt.everyIn_cons.mpr ⟨hfirst, ih hrest hrest'⟩

theorem changeWrapper {update : Guarded → Guarded} {body body' : List Stmt}
    (hupdate : ∀ g : Guarded, g.Every q → (update g).Every q) (hbody : Stmt.EveryIn q body)
    (h : changeWrapper hooks update body = .ok body') : Stmt.EveryIn q body' := by
  unfold Weave.changeWrapper at h
  split at h
  · rename_i heq
    obtain rfl := Except.ok.inj h
    exact hq.updateWrapper? hupdate hbody heq
  · exact absurd h (by simp)

omit hq in
theorem wrapperBody? {body inner : List Stmt} (hbody : Stmt.EveryIn q body)
    (h : wrapperBody? hooks body = some inner) : Stmt.EveryIn q inner := by
  fun_induction Weave.wrapperBody? hooks body with
  | case1 => exact nomatch h
  | case2 body catches cleanup rest _ =>
      obtain rfl := Option.some.inj h
      exact (Stmt.every_tryCatch.mp (Stmt.everyIn_cons.mp hbody).1).2.1
  | case3 body catches cleanup rest _ ih | case4 s rest _ ih =>
      exact ih (Stmt.everyIn_cons.mp hbody).2 h

omit hq in
theorem eraseP {stmts : List Stmt} (p : Stmt → Bool) (h : Stmt.EveryIn q stmts) :
    Stmt.EveryIn q (stmts.eraseP p) :=
  fun s hs => h s (List.eraseP_subset hs)

theorem delegateFirst {body : List Stmt} (h : Stmt.EveryIn q body) :
    Stmt.EveryIn q (delegateFirst hooks body) := by
  unfold Weave.delegateFirst
  split
  · rename_i call hcall
    exact Stmt.everyIn_cons.mpr ⟨h call (List.mem_of_find?_eq_some hcall), eraseP _ h⟩
  · split
    · rename_i call hcall
      rcases Option.bind_eq_some_iff.mp hcall with ⟨inner, hinner, hcall⟩
      refine Stmt.everyIn_cons.mpr ⟨?_, ?_⟩
      · exact wrapperBody? h hinner call (List.mem_of_find?_eq_some hcall)
      · have herase : ∀ g : Guarded, g.Every q →
            Guarded.Every q { g with body := g.body.eraseP Stmt.isDelegation } :=
          fun g hg => ⟨eraseP _ hg.body, hg.catches⟩
        cases hupdate : Weave.updateWrapper? hooks
            (fun g => { g with body := g.body.eraseP Stmt.isDelegation }) body with
        | none => exact h
        | some rest => exact hq.updateWrapper? herase h hupdate
    · exact h

theorem rewrites {pass : Pass} {s : Session} {body body' : List Stmt}
    (h : Pass.Rewrites hooks s body pass body') (hbody : Stmt.EveryIn q body) :
    Stmt.EveryIn q body' := by
  cases h with
  | idle => exact hbody
  | normalize h =>
      rw [(normalizeBody_eq_ok.mp h).2]
      exact normalizeAll_every hq.block (fun _ hs => hq.normalize hs) hbody
  | changes n => exact hq.changes s.id n (extracted_every (hq.extractable _) hbody _)
  | entryExit => exact hq.wrap s.id s.decl.params hbody
  | returns => exact hq.reportReturns s.id (extracted_every (hq.extractable _) hbody _)
  | @timeout millis _ h =>
      have hset : ∀ g : Guarded, g.Every q →
          Guarded.Every q { g with body := hooks.timeout s.id millis :: g.body } :=
        fun g hg => ⟨Stmt.everyIn_cons.mpr ⟨hq.report "timeout" _, hg.body⟩, hg.catches⟩
      exact hq.changeWrapper hset hbody h
  | errors h =>
      have hcatch : ∀ g : Guarded, g.Every q →
          Guarded.Every q { g with catches := g.catches ++ [hooks.onErrorClause s.id] } := by
        refine fun g hg => ⟨hg.body, fun c hc => ?_⟩
        rcases List.mem_append.mp hc with hc | hc
        · exact hg.catches c hc
        · obtain rfl := List.mem_singleton.mp hc
          refine Stmt.everyIn_cons.mpr ⟨hq.report "onError" _, Stmt.everyIn_singleton.mpr ?_⟩
          exact (Stmt.every_leaf rfl).mpr (hq.raise _)
      exact hq.changeWrapper hcatch hbody h
  | delegation => exact hq.delegateFirst hbody

end Lasting

/-! ## Woven code -/

theorem Pass.run_keeps {pass : Pass} {hooks : Hooks} {s s' : Session} {body : List Stmt}
    (hbody : s.decl.body = some body) (h : pass.run hooks s = .ok s') :
    ∃ body', s'.decl.body = some body' ∧ (InNormalForm body → InNormalForm body') ∧
      (Modelled body → Modelled body') := by
  rcases Pass.rewrites_of_run hbody h with ⟨body', hbody', hrewrites⟩
  refine ⟨body', hbody', (lasting_normalHere hooks).rewrites hrewrites, ?_⟩
  rw [modelled_iff, modelled_iff]
  exact (lasting_modelledHere hooks).rewrites hrewrites

theorem runPasses_keep {w : Weaver} {passes : List Pass} {s s' : Session} {body : List Stmt}
    (hbody : s.decl.body = some body) (h : w.runPasses passes s = .ok s') :
    ∃ body', s'.decl.body = some body' ∧ (InNormalForm body → InNormalForm body') ∧
      (Modelled body → Modelled body') := by
  induction passes generalizing s body with
  | nil =>
      obtain rfl := Except.ok.inj h
      exact ⟨body, hbody, fun h => h, fun h => h⟩
  | cons pass rest ih =>
      unfold Weaver.runPasses at h
      split at h
      · rename_i next hrun
        rcases Pass.run_keeps hbody hrun with ⟨body₁, hbody₁, hnormal₁, hmodelled₁⟩
        rcases ih hbody₁ h with ⟨body', hbody', hnormal, hmodelled⟩
        exact ⟨body', hbody', fun h => hnormal (hnormal₁ h), fun h => hmodelled (hmodelled₁ h)⟩
      · exact nomatch h

theorem weaveMethod_normal {w : Weaver} {u : CompilationUnit} {c : ClassDecl} {m d : MethodDecl}
    {report : MethodReport} (hselects : w.Selects c m)
    (h : w.weaveMethod (w.session u c m) = .ok (d, report)) :
    ∃ body, d.body = some body ∧ normalizeBody body = .ok body := by
  have hdec : w.decide (w.session u c m) = .weave := decide_eq_weave.mpr hselects
  rcases weaveMethod_cases h with ⟨reason, hskip, -, -⟩ | ⟨-, body, after, hbody, hafter, rfl, -⟩
  · exact nomatch hdec.symm.trans hskip
  -- the first pass reaches the normal form, the others keep it
  have hpasses : w.passesFor (w.session u c m) = .normalize ::
      (Pass.canonical.tail.filter fun pass => pass.applies w.settings (w.session u c m)) := rfl
  rw [hpasses] at hafter
  unfold Weaver.runPasses at hafter
  split at hafter
  · rename_i next hrun
    rcases Pass.rewrites_of_run (s := w.session u c m) hbody hrun with ⟨normal, hnext, hrewrites⟩
    have hnormal : normalizeBody body = .ok normal := by
      cases hrewrites with
      | idle hpass => exact absurd hpass (by decide)
      | normalize h => exact h
    rcases normalizeBody_eq_ok.mp hnormal with ⟨hmodelled, rfl⟩
    rcases runPasses_keep hnext hafter with ⟨woven, hwoven, hkeeps, hmodels⟩
    refine ⟨woven, hwoven, normalizeBody_eq_ok.mpr ⟨?_, Eq.symm ?_⟩⟩
    · exact hmodels (modelled_normalizeAll hmodelled)
    · exact normalizeAll_of_inNormalForm (hkeeps (inNormalForm_normalizeAll body))
  · exact nomatch hafter

theorem weaveClass_normal {w : Weaver} {u : CompilationUnit} {c : ClassDecl}
    {result : ClassDecl × List MethodReport} (h : w.weaveClass u c = .ok result) :
    List.Forall₂ (fun m m' => w.Selects c m →
      ∃ body, m'.body = some body ∧ normalizeBody body = .ok body) c.methods result.1.methods := by
  rcases ok_of_bind_ok h with ⟨results, hresults, hc⟩
  obtain rfl := Except.ok.inj hc
  show List.Forall₂ _ c.methods (results.map Prod.fst)
  rw [List.forall₂_map_right_iff]
  exact (mapM_eq_ok_iff.mp hresults).imp fun _ _ hm hselects => weaveMethod_normal hselects hm

/-- Normal form is reached, stable and kept.  Normalizing takes all code that has a model to
normal form, and leaves code in normal form as it is.  A pass that succeeds keeps the normal
form of a body, so that a woven method is its own normal form. -/
theorem normal_form_lasts :
    (∀ body, Modelled body → ∃ normal, normalizeBody body = .ok normal ∧
      InNormalForm normal ∧ normalizeBody normal = .ok normal) ∧
    (∀ body, Modelled body → InNormalForm body → normalizeBody body = .ok body) ∧
    (∀ (pass : Pass) (hooks : Hooks) (s s' : Session) (body : List Stmt),
      s.decl.body = some body → pass.run hooks s = .ok s' →
      ∃ body', s'.decl.body = some body' ∧ (InNormalForm body → InNormalForm body') ∧
        (Modelled body → Modelled body')) ∧
    ∀ (w : Weaver) (u u' : CompilationUnit) (report : UnitReport),
      w.weaveUnit u = .ok (u', report) →
      List.Forall₂ (fun c c' => List.Forall₂ (fun m m' => w.Selects c m →
        ∃ body, m'.body = some body ∧ normalizeBody body = .ok body) c.methods c'.methods)
        u.classes u'.classes := by
  have hstable : ∀ body, Modelled body → InNormalForm body → normalizeBody body = .ok body :=
    fun body hmodelled hnormal =>
      normalizeBody_eq_ok.mpr ⟨hmodelled, (normalizeAll_of_inNormalForm hnormal).symm⟩
  refine ⟨fun body hmodelled => ?_, hstable, ?_, ?_⟩
  · have hnormal := inNormalForm_normalizeAll body
    exact ⟨normalizeAll body, normalizeBody_eq_ok.mpr ⟨hmodelled, rfl⟩, hnormal,
      hstable _ (modelled_normalizeAll hmodelled) hnormal⟩
  · intro pass hooks s s' body hbody hrun
    exact Pass.run_keeps hbody hrun
  · intro w u u' report h
    rcases ok_of_bind_ok h with ⟨results, hresults, hu⟩
    have hu : { u with classes := results.map Prod.fst } = u' :=
      congrArg Prod.fst (Except.ok.inj hu)
    rw [← hu, List.forall₂_map_right_iff]
    exact (mapM_eq_ok_iff.mp hresults).imp fun _ _ hc => weaveClass_normal hc

/-- A body whose reports move: a condition that writes, in a loop without a block around its
body. -/
theorem normal_form_lasts_drain :
    ∃ body normal u' report, drainMethod.body = some body ∧ Modelled body ∧
      normalizeBody body = .ok normal ∧ InNormalForm normal ∧
      (Weaver.ofSettings .standard).weaveUnit drainUnit = .ok (u', report) ∧
      List.Forall₂ (fun c c' => List.Forall₂ (fun m m' =>
        (Weaver.ofSettings .standard).Selects c m →
          ∃ body, m'.body = some body ∧ normalizeBody body = .ok body) c.methods c'.methods)
        drainUnit.classes u'.classes := by
  have hbody : ∃ body, drainMethod.body = some body ∧ Modelled body :=
    ⟨_, rfl, modelled_iff.mpr (by decide)⟩
  have hw : ∃ result, (Weaver.ofSettings .standard).weaveUnit drainUnit = .ok result := ⟨_, rfl⟩
  rcases hbody with ⟨body, hbody, hmodelled⟩
  rcases hw with ⟨⟨u', report⟩, hw⟩
  rcases normal_form_lasts.1 body hmodelled with ⟨normal, hnormal, hform, _⟩
  exact ⟨body, normal, u', report, hbody, hmodelled, hnormal, hform, hw,
    normal_form_lasts.2.2.2 _ _ u' report hw⟩

/-! ## What normal code does -/

/-- Normalizing preserves meaning.  In code that has a model let no declaration be the body of
a branch, a loop or a label.  Then its normal form, run from any state, ends with the same
jump, throwable or fault, and leaves the same state with the same events, as soon as the
bound on the steps is large enough. -/
theorem normalizing_preserves_meaning (p : Program) {stmts : List Stmt}
    (hmodelled : Modelled stmts) (hscopes : Stmt.EveryIn ScopesHere stmts) :
    ∃ normal, normalizeBody stmts = .ok normal ∧
      ∀ s, ∃ bound, ∀ steps ≥ bound,
        (p.evaluator steps).execAll normal s = (p.evaluator steps).execAll stmts s := by
  refine ⟨normalizeAll stmts, normalizeBody_eq_ok.mpr ⟨hmodelled, rfl⟩, fun s => ?_⟩
  have hruns := Eval.runs_meaning p
  have hsame : p.meaning.execAll (normalizeAll stmts) = p.meaning.execAll stmts := by
    rw [← hruns.plain]
    exact Eval.execAll_plain_normalize hruns.passes hruns.passes hscopes
  rcases Eval.closed_tends.execAll_of_has p.has_tends stmts s with ⟨N, hN⟩
  rcases Eval.closed_tends.execAll_of_has p.has_tends (normalizeAll stmts) s with ⟨N', hN'⟩
  refine ⟨max N N', fun steps hsteps => ?_⟩
  calc
    (p.evaluator steps).execAll (normalizeAll stmts) s = p.meaning.execAll (normalizeAll stmts) s :=
      hN' steps (by omega)
    _ = p.meaning.execAll stmts s := by rw [hsame]
    _ = (p.evaluator steps).execAll stmts s := (hN steps (by omega)).symm

/-- Jumps to the label of a loop, to a label of a label, and to the label of a statement that
is no loop, out of branches without blocks. -/
def jumps : List Stmt :=
  [.labeled "outer" (.labeled "again"
      (.whileLoop (.binary .gt (.unary .postDec (.name "left")) (.int 0))
        (.ifElse (.binary .eq (.name "left") (.int 3)) (.continueTo (some "again"))
          (some (.ifElse (.binary .eq (.name "left") (.int 1)) (.breakTo (some "outer")) none))))),
   .labeled "skip"
      (.ifElse (.binary .eq (.name "left") (.int 1)) (.breakTo (some "skip")) none)]

theorem normalizing_preserves_meaning_jumps :
    Modelled jumps ∧ Stmt.EveryIn ScopesHere jumps ∧
    ∃ normal, normalizeBody jumps = .ok normal ∧
      ∀ s, ∃ bound, ∀ steps ≥ bound,
        ((⟨drainUnit, Settings.standard.runtimeClass⟩ : Program).evaluator steps).execAll normal s =
          ((⟨drainUnit, Settings.standard.runtimeClass⟩ : Program).evaluator steps).execAll
            jumps s := by
  have hmodelled : Modelled jumps := modelled_iff.mpr (by decide)
  have hscopes : Stmt.EveryIn ScopesHere jumps := by decide
  exact ⟨hmodelled, hscopes, normalizing_preserves_meaning _ hmodelled hscopes⟩

end Weave
end TraceWeaving
