import TraceWeaving.Proofs.Weave.Continues
import TraceWeaving.Proofs.Weave.Reserved
import TraceWeaving.Proofs.Weave.Starts

/-!
# Woven code settles its variables

The passes declare a reserved variable right in front of the `return` that uses it, and what
they move or copy later on uses none: reports of what a statement writes are copied into its
branches, but a statement with branches uses no reserved variable itself.  So every list goes on
to settle the reserved variables, whatever the passes do to the code around it.
-/

namespace TraceWeaving
namespace Weave

open Code

/-! ## Going through the lists of a body -/

section

variable {cls ident : String} {f : List Stmt → Naming (List Stmt)}

theorem bodies_transformNested {s t : Stmt} {n : Nat}
    (ht : t ∈ (Stmt.transformNested f s n).1.bodies) :
    ∃ c ∈ s.bodies, ∃ k, t = (Stmt.transformNested f c k).1 := by
  cases s with
  | whileLoop _ body | doWhile body _ | forLoop _ _ _ body | forEach _ _ _ body
  | labeled _ body => exact ⟨body, List.mem_singleton.mpr rfl, n, List.mem_singleton.mp ht⟩
  | ifElse cond ifTrue ifFalse =>
      rcases List.mem_cons.mp ht with rfl | ht
      · exact ⟨ifTrue, List.mem_cons_self, n, rfl⟩
      · cases ifFalse with
        | none => exact absurd ht List.not_mem_nil
        | some s => exact ⟨s, by simp [Stmt.bodies], _, List.mem_singleton.mp ht⟩
  | block _ | switch _ _ | tryCatch _ _ _ | sync _ _ | decl _ _ _ | expr _ | breakTo _
  | continueTo _ | ret _ | raise _ | unmodelled _ => exact absurd ht List.not_mem_nil

theorem ident_transformCatches (catches : List CatchClause) (n : Nat) :
    (Stmt.transformCatches f catches n).1.map CatchClause.ident =
      catches.map CatchClause.ident := by
  induction catches generalizing n with
  | nil => rfl
  | cons c rest ih =>
      cases c with
      | mk type ident body => exact congrArg (ident :: ·) (ih (transformLists f body n).2)

theorem clauses_transformNested (s : Stmt) (n : Nat) :
    (Stmt.transformNested f s n).1.clauses.map CatchClause.ident =
      s.clauses.map CatchClause.ident := by
  cases s with
  | tryCatch body catches cleanup => exact ident_transformCatches catches _
  | block _ | decl _ _ _ | expr _ | ifElse _ _ _ | whileLoop _ _ | doWhile _ _ | forLoop _ _ _ _
  | forEach _ _ _ _ | labeled _ _ | switch _ _ | breakTo _ | continueTo _ | ret _ | raise _
  | sync _ _ | unmodelled _ => rfl

theorem settled_transformNestedInAll {stmts : List Stmt} (h : Settled cls ident stmts) (n : Nat) :
    Settled cls ident (Stmt.transformNestedInAll f stmts n).1 := by
  induction stmts generalizing n with
  | nil => trivial
  | cons s rest ih =>
      have hhead := head_transformNested (f := f) s n
      refine ⟨(Stmt.uses_of_head hhead).trans h.1, ?_⟩
      rcases h.2 with hdeclares | hrest
      · exact .inl ((Stmt.declares_of_head hhead).trans hdeclares)
      · exact .inr (ih hrest _)

variable (hmono : ∀ stmts n, n ≤ (f stmts n).2)

include hmono

theorem lists_transformNested {s : Stmt} {list : List Stmt} {n : Nat}
    (hl : list ∈ (Stmt.transformNested f s n).1.lists) :
    ∃ inner ∈ s.lists, ∃ k, list = (transformLists f inner k).1 := by
  have hle : ∀ (t : Stmt) (n : Nat), n ≤ (Stmt.transformNested f t n).2 :=
    fun t n => (transformNested_source hmono t n).1
  cases s with
  | block stmts | sync _ stmts =>
      exact ⟨stmts, List.mem_singleton.mpr rfl, n, List.mem_singleton.mp hl⟩
  | switch selector cases =>
      rcases List.mem_map.mp hl with ⟨c', hc', rfl⟩
      rcases (mem_transformCases hmono cases (fun _ _ t _ => hle t) n).2 c' hc' with
        ⟨c, hc, k, _, hbody⟩
      exact ⟨c.body, List.mem_map_of_mem hc, k, hbody⟩
  | tryCatch body catches cleanup =>
      rcases List.mem_append.mp hl with hl | hl
      · rcases List.mem_cons.mp hl with rfl | hl
        · exact ⟨body, List.mem_append_left _ List.mem_cons_self, n, rfl⟩
        · rcases List.mem_map.mp hl with ⟨c', hc', rfl⟩
          rcases (mem_transformCatches hmono catches (fun _ _ t _ => hle t)
            (transformLists f body n).2).2 c' hc' with ⟨c, hc, k, _, hbody⟩
          exact ⟨c.body, List.mem_append_left _ (List.mem_cons_of_mem body
            (List.mem_map_of_mem hc)), k, hbody⟩
      · cases cleanup with
        | none => exact absurd hl List.not_mem_nil
        | some stmts =>
            exact ⟨stmts, List.mem_append_right _ (List.mem_singleton.mpr rfl), _,
              List.mem_singleton.mp hl⟩
  | ifElse _ _ _ | whileLoop _ _ | doWhile _ _ | forLoop _ _ _ _ | forEach _ _ _ _ | labeled _ _
  | decl _ _ _ | expr _ | breakTo _ | continueTo _ | ret _ | raise _ | unmodelled _ =>
      exact absurd hl List.not_mem_nil

variable (hf : ∀ stmts n, NeatIn cls ident stmts → NeatIn cls ident (f stmts n).1)

include hf

theorem neatIn_transformListsOf {stmts : List Stmt}
    (hs : ∀ s ∈ stmts, ∀ n, (Stmt.transformNested f s n).1.Every (NeatHere cls ident))
    (h : Settled cls ident stmts) (n : Nat) :
    NeatIn cls ident (transformLists f stmts n).1 := by
  refine hf _ _ ⟨fun t ht => ?_, settled_transformNestedInAll h n⟩
  rcases (mem_transformNestedInAll stmts (fun s _ n => (transformNested_source hmono s n).1) n).2
    t ht with ⟨s, hmem, k, _, rfl⟩
  exact hs s hmem k

theorem neat_transformNested {s : Stmt} (h : s.Every (NeatHere cls ident)) (n : Nat) :
    (Stmt.transformNested f s n).1.Every (NeatHere cls ident) := by
  induction s using Stmt.childInduction generalizing n with
  | step s ih =>
      have hlist : ∀ list ∈ (Stmt.transformNested f s n).1.lists, NeatIn cls ident list := by
        intro list hl
        rcases lists_transformNested hmono hl with ⟨inner, hinner, k, rfl⟩
        have hsub := Stmt.list_subset_children hinner
        exact neatIn_transformListsOf hmono hf (fun t ht => ih t (hsub ht) (h.child (hsub ht)))
          (h.here.lists inner hinner) k
      have hbody : ∀ t ∈ (Stmt.transformNested f s n).1.bodies,
          t.isSimple = false ∧ t.Every (NeatHere cls ident) := by
        intro t ht
        rcases bodies_transformNested ht with ⟨c, hc, k, rfl⟩
        have hchild := s.bodies_subset hc
        exact ⟨(Stmt.isSimple_of_head (head_transformNested c k)).trans (h.here.bodies c hc),
          ih c hchild (h.child hchild) k⟩
      refine Stmt.every_iff_lists.mpr ⟨?_, fun t ht => (hbody t ht).2, fun list hl =>
        (hlist list hl).every⟩
      refine h.here.withParts (head_transformNested s n) (fun t ht => (hbody t ht).1)
        (fun list hl => (hlist list hl).settled) ?_ ?_
      · intro label inner heq hr
        cases s <;> cases heq
        rw [← isBlock_head, head_transformNested, isBlock_head]
        exact (h.here.label _ _ rfl hr).1
      · intro c hc
        have hident := List.mem_map_of_mem (f := CatchClause.ident) hc
        rw [clauses_transformNested] at hident
        rcases List.mem_map.mp hident with ⟨c', hc', hsame⟩
        exact ⟨c', hc', hsame.symm⟩

theorem neatIn_transformLists {stmts : List Stmt} (h : NeatIn cls ident stmts) (n : Nat) :
    NeatIn cls ident (transformLists f stmts n).1 :=
  neatIn_transformListsOf hmono hf (fun s hs => neat_transformNested hmono hf (h.every s hs))
    h.settled n

end

/-! ## Returned values -/

section

variable {cls ident : String}

structure NeatPart (cls ident : String) (s : Stmt) (part : List Stmt) : Prop where
  every : Stmt.EveryIn (NeatHere cls ident) part
  settled : s.uses cls ident = false → Settled cls ident part
  declares : s.declares ident = true → ∃ d ∈ part, d.declares ident = true

theorem NeatPart.refl {s : Stmt} (h : s.Every (NeatHere cls ident)) : NeatPart cls ident s [s] where
  every := Stmt.everyIn_singleton.mpr h
  settled hs := ⟨hs, .inr trivial⟩
  declares hd := ⟨s, List.mem_singleton.mpr rfl, hd⟩

theorem neatIn_mapM {β : Type} {g : Stmt → Naming β} {out : β → List Stmt} {stmts : List Stmt}
    (hg : ∀ s ∈ stmts, ∀ n, NeatPart cls ident s (out (g s n).1)) (h : Settled cls ident stmts)
    (n : Nat) : NeatIn cls ident ((stmts.mapM g n).1.flatMap out) := by
  have hevery : ∀ stmts : List Stmt, (∀ s ∈ stmts, ∀ n, NeatPart cls ident s (out (g s n).1)) →
      ∀ n, Stmt.EveryIn (NeatHere cls ident) ((stmts.mapM g n).1.flatMap out) := by
    intro stmts
    induction stmts with
    | nil => exact fun _ _ => Stmt.everyIn_nil
    | cons s rest ih =>
        intro hg n
        have hrest := ih (fun t ht => hg t (List.mem_cons_of_mem s ht)) (g s n).2
        rw [List.mapM_cons]
        exact Stmt.everyIn_append.mpr ⟨(hg s List.mem_cons_self n).every, hrest⟩
  refine ⟨hevery stmts hg n, ?_⟩
  induction stmts generalizing n with
  | nil => trivial
  | cons s rest ih =>
      have hs := hg s List.mem_cons_self n
      rw [List.mapM_cons]
      refine (hs.settled h.1).append ?_
      rcases h.2 with hdeclares | hrest
      · exact .inr (hs.declares hdeclares)
      · exact .inl (ih (fun t ht => hg t (List.mem_cons_of_mem s ht)) hrest (g s n).2)

theorem every_neat_ret (value : Expr) : (Stmt.retValue value).Every (NeatHere cls ident) :=
  (Stmt.every_leaf rfl).mpr
    (neatHere_leaf rfl (.inl rfl) (fun _ h => absurd h List.not_mem_nil) ⟨rfl, rfl⟩)

theorem every_neat_result (type : TypeName) (n : Nat) (value : Expr) :
    (Stmt.declare type (reservedName "return" n) value).Every (NeatHere cls ident) :=
  (Stmt.every_leaf rfl).mpr
    (neatHere_leaf rfl (.inl rfl) (fun _ _ _ => ⟨n, type, value, rfl⟩) ⟨rfl, rfl⟩)

theorem neatPart_extractReturn (keep : Expr → Bool) (type : TypeName) {s : Stmt}
    (h : s.Every (NeatHere cls ident)) (n : Nat) :
    NeatPart cls ident s (extractReturn keep type s n).1 := by
  unfold extractReturn
  split
  · rename_i value
    split
    · exact .refl h
    · constructor
      · exact Stmt.everyIn_cons.mpr ⟨every_neat_result type n value,
          Stmt.everyIn_singleton.mpr (every_neat_ret _)⟩
      · intro hs
        refine ⟨hs, ?_⟩
        by_cases hname : reservedName "return" n = ident
        · exact .inl (decide_eq_true hname)
        · have hother : (Expr.name (reservedName "return" n)).uses cls ident = false :=
            (Expr.uses_name _).trans (decide_eq_false hname)
          exact .inr ⟨by simp [Stmt.uses, Stmt.ownExprs, Stmt.retValue, hother], .inr trivial⟩
      · exact fun hd => absurd hd Bool.false_ne_true
  · exact .refl h

theorem neatIn_extracted (keep : Expr → Bool) (decl : MethodDecl) {stmts : List Stmt}
    (h : NeatIn cls ident stmts) (n : Nat) :
    NeatIn cls ident (extracted keep decl stmts n).1 := by
  have hlist : ∀ type stmts n, NeatIn cls ident stmts →
      NeatIn cls ident (extractReturnsInList keep type stmts n).1 := by
    intro type stmts n h
    have hmap : NeatIn cls ident ((stmts.mapM (extractReturn keep type) n).1.flatMap id) :=
      neatIn_mapM (fun s hs k => neatPart_extractReturn keep type (h.every s hs) k) h.settled n
    rwa [List.flatMap_id] at hmap
  rcases extracted_cases keep decl with hpure | ⟨type, hmoved⟩
  · rw [hpure]
    exact h
  · rw [hmoved]
    exact neatIn_transformLists (le_extractReturnsInList keep type) (hlist type) h n

theorem neatPart_reportReturn (hooks : Hooks) (id : String) {s : Stmt}
    (h : s.Every (NeatHere hooks.runtimeClass ident)) :
    NeatPart hooks.runtimeClass ident s (reportReturn hooks id s) := by
  unfold reportReturn
  split
  · rename_i value
    constructor
    · exact Stmt.everyIn_cons.mpr ⟨every_neat_expr _, Stmt.everyIn_singleton.mpr h⟩
    · intro hs
      have hreport : (hooks.returning id value).uses hooks.runtimeClass ident = false := by
        refine (uses_report hooks "returning" [.text id, value]).trans ?_
        simpa [uses_text, Stmt.uses, Stmt.ownExprs] using hs
      exact ⟨hreport, .inr ⟨hs, .inr trivial⟩⟩
    · exact fun hd => absurd hd Bool.false_ne_true
  · exact .refl h

theorem neatIn_reportReturns (hooks : Hooks) (id : String) {stmts : List Stmt}
    (h : NeatIn hooks.runtimeClass ident stmts) :
    NeatIn hooks.runtimeClass ident (reportReturns hooks id stmts) := by
  have hlist : ∀ (stmts : List Stmt) (n : Nat), NeatIn hooks.runtimeClass ident stmts →
      NeatIn hooks.runtimeClass ident (stmts.flatMap (reportReturn hooks id)) := by
    intro stmts n h
    have hmap := neatIn_mapM (g := fun s => (pure s : Naming Stmt))
      (fun s hs _ => neatPart_reportReturn hooks id (h.every s hs)) h.settled n
    rw [List.mapM_pure, List.map_id'] at hmap
    exact hmap
  have hreported := neatIn_transformLists
    (f := fun stmts => (pure (stmts.flatMap (reportReturn hooks id)) : Naming (List Stmt)))
    (fun _ n => Nat.le_refl n) hlist h 0
  rwa [transformLists_pure] at hreported

end

/-! ## Leaving the body of a loop -/

section

variable {cls ident : String} (loopLabel : Option String) (target : String)

/-- What depends on the kind of a statement only, and tells no jump from another, stays the
same. -/
theorem alike_retarget {α : Type} {g : Stmt → α} (hhead : ∀ s : Stmt, g s.head = g s)
    (hjump : ∀ label label', g (.breakTo label) = g (.continueTo label')) (b : Bool) (s : Stmt) :
    g (retarget loopLabel target b s) = g s := by
  by_cases hs : ∃ label, s = .continueTo label
  · rcases hs with ⟨label, rfl⟩
    rw [retarget_continueTo]
    split
    · exact hjump _ _
    · rfl
  · have hsame : (retarget loopLabel target b s).head = s.head := by
      cases s with
      | continueTo label => exact absurd ⟨label, rfl⟩ hs
      | block _ | decl _ _ _ | expr _ | ifElse _ _ _ | whileLoop _ _ | doWhile _ _
      | forLoop _ _ _ _ | forEach _ _ _ _ | labeled _ _ | switch _ _ | breakTo _ | ret _
      | raise _ | tryCatch _ _ _ | sync _ _ | unmodelled _ => rfl
    rw [← hhead (retarget loopLabel target b s), hsame, hhead]

theorem uses_retarget (b : Bool) (s : Stmt) :
    (retarget loopLabel target b s).uses cls ident = s.uses cls ident :=
  alike_retarget loopLabel target (g := Stmt.uses cls ident)
    (fun s => by rw [Stmt.uses, Stmt.ownExprs_head, ← Stmt.uses]) (fun _ _ => rfl) b s

theorem isSimple_retarget (b : Bool) (s : Stmt) :
    (retarget loopLabel target b s).isSimple = s.isSimple :=
  alike_retarget loopLabel target Stmt.isSimple_head (fun _ _ => rfl) b s

theorem declares_retarget (b : Bool) (s : Stmt) :
    (retarget loopLabel target b s).declares ident = s.declares ident :=
  alike_retarget loopLabel target Stmt.declares_head (fun _ _ => rfl) b s

theorem bodies_retarget (b : Bool) (s : Stmt) :
    (retarget loopLabel target b s).bodies =
      s.bodies.map (retarget loopLabel target (b || s.isLoop)) := by
  cases s with
  | continueTo label =>
      rw [retarget_continueTo]
      split <;> rfl
  | ifElse cond ifTrue ifFalse =>
      cases ifFalse <;> simp [retarget, retargetElse, Stmt.bodies, Stmt.isLoop]
  | whileLoop _ _ | doWhile _ _ | forLoop _ _ _ _ | forEach _ _ _ _ | labeled _ _ =>
      simp [retarget, Stmt.bodies, Stmt.isLoop]
  | block _ | decl _ _ _ | expr _ | switch _ _ | breakTo _ | ret _ | raise _ | tryCatch _ _ _
  | sync _ _ | unmodelled _ => rfl

theorem lists_retarget (b : Bool) (s : Stmt) :
    (retarget loopLabel target b s).lists =
      s.lists.map (List.map (retarget loopLabel target b)) := by
  cases s with
  | continueTo label =>
      rw [retarget_continueTo]
      split <;> rfl
  | block stmts | sync _ stmts => exact congrArg (fun list => [list]) (retargetAll_eq b stmts)
  | switch selector cases =>
      simp only [retarget, Stmt.lists, retargetCases_eq, retargetAll_eq, List.map_map]
      rfl
  | tryCatch body catches cleanup =>
      have hcleanup : (retargetCleanup loopLabel target b cleanup).toList =
          cleanup.toList.map (List.map (retarget loopLabel target b)) := by
        cases cleanup with
        | none => rfl
        | some stmts => exact congrArg (fun list => [list]) (retargetAll_eq b stmts)
      simp only [retarget, Stmt.lists, retargetCatches_eq, retargetAll_eq, List.map_map,
        List.map_append, List.map_cons, hcleanup]
      rfl
  | decl _ _ _ | expr _ | ifElse _ _ _ | whileLoop _ _ | doWhile _ _ | forLoop _ _ _ _
  | forEach _ _ _ _ | labeled _ _ | breakTo _ | ret _ | raise _ | unmodelled _ => rfl

theorem clauses_retarget (b : Bool) (s : Stmt) :
    (retarget loopLabel target b s).clauses.map CatchClause.ident =
      s.clauses.map CatchClause.ident := by
  cases s with
  | continueTo label =>
      rw [retarget_continueTo]
      split <;> rfl
  | tryCatch body catches cleanup =>
      simp only [retarget, Stmt.clauses, retargetCatches_eq, List.map_map]
      rfl
  | block _ | decl _ _ _ | expr _ | ifElse _ _ _ | whileLoop _ _ | doWhile _ _ | forLoop _ _ _ _
  | forEach _ _ _ _ | labeled _ _ | switch _ _ | breakTo _ | ret _ | raise _ | sync _ _
  | unmodelled _ => rfl

theorem settled_retarget (b : Bool) {stmts : List Stmt} (h : Settled cls ident stmts) :
    Settled cls ident (stmts.map (retarget loopLabel target b)) := by
  induction stmts with
  | nil => trivial
  | cons s rest ih =>
      constructor
      · rw [uses_retarget]
        exact h.1
      · rw [declares_retarget]
        exact h.2.imp_right ih

theorem neatHere_jump (label : Option String) :
    NeatHere cls ident (.breakTo label) ∧ NeatHere cls ident (.continueTo label) :=
  ⟨neatHere_leaf rfl (.inr rfl) (fun _ h => absurd h List.not_mem_nil) ⟨rfl, rfl⟩,
    neatHere_leaf rfl (.inr rfl) (fun _ h => absurd h List.not_mem_nil) ⟨rfl, rfl⟩⟩

theorem neatHere_retarget (b : Bool) {s : Stmt} (h : NeatHere cls ident s) :
    NeatHere cls ident (retarget loopLabel target b s) := by
  have hkind : (retarget loopLabel target b s).head = s.head ∨ _ := head_retarget b s
  rcases hkind with hhead | hbreak
  · refine h.withParts hhead (fun u hu => ?_) (fun list hl => ?_) (fun label inner heq hr => ?_)
      (fun c hc => ?_)
    · rw [bodies_retarget] at hu
      rcases List.mem_map.mp hu with ⟨t, ht, rfl⟩
      exact (isSimple_retarget loopLabel target _ t).trans (h.bodies t ht)
    · rw [lists_retarget] at hl
      rcases List.mem_map.mp hl with ⟨inner, hinner, rfl⟩
      exact settled_retarget loopLabel target b (h.lists inner hinner)
    · cases s with
      | labeled l body =>
          obtain ⟨rfl, rfl⟩ := Stmt.labeled.inj heq
          exact Eval.isBlock_retarget loopLabel target b (h.label l body rfl hr).1
      | continueTo l =>
          rw [retarget_continueTo] at heq
          split at heq <;> cases heq
      | block _ | decl _ _ _ | expr _ | ifElse _ _ _ | whileLoop _ _ | doWhile _ _
      | forLoop _ _ _ _ | forEach _ _ _ _ | switch _ _ | breakTo _ | ret _ | raise _
      | tryCatch _ _ _ | sync _ _ | unmodelled _ => cases heq
    · have hident := List.mem_map_of_mem (f := CatchClause.ident) hc
      rw [clauses_retarget] at hident
      rcases List.mem_map.mp hident with ⟨c', hc', hsame⟩
      exact ⟨c', hc', hsame.symm⟩
  · rw [hbreak]
    exact (neatHere_jump _).1

theorem neat_retarget (b : Bool) {s : Stmt} (h : s.Every (NeatHere cls ident)) :
    (retarget loopLabel target b s).Every (NeatHere cls ident) :=
  retarget_every loopLabel target (fun b _ h => neatHere_retarget loopLabel target b h) b h

end

/-! ## Reports of changes -/

section

variable {hooks : Hooks} {id ident : String}

theorem everyIn_neat_reports (cls : String) (writes : List Write) :
    Stmt.EveryIn (NeatHere cls ident) (reports hooks id writes) := by
  intro s hs
  rcases List.mem_map.mp hs with ⟨write, _, rfl⟩
  exact every_neat_expr _

theorem NeatIn.behind {cls : String} {front stmts : List Stmt} (h : NeatIn cls ident stmts)
    (hfront : Stmt.EveryIn (NeatHere cls ident) front)
    (hunused : ∀ t ∈ front, t.uses cls ident = false) : NeatIn cls ident (front ++ stmts) where
  every := Stmt.everyIn_append.mpr ⟨hfront, h.every⟩
  settled := (settled_of_forall hunused).append (.inl h.settled)

theorem neatIn_unused {cls : String} {stmts : List Stmt}
    (h : Stmt.EveryIn (NeatHere cls ident) stmts)
    (hunused : ∀ t ∈ stmts, t.uses cls ident = false) : NeatIn cls ident stmts :=
  ⟨h, settled_of_forall hunused⟩

theorem neatIn_prepend {cls : String} {front : List Stmt} {body : Stmt}
    (hfront : NeatIn cls ident front) (hunused : ∀ t ∈ front, t.uses cls ident = false)
    (hb : body.Every (NeatHere cls ident)) (hsimple : body.isSimple = false) :
    (prepend front body).Every (NeatHere cls ident) ∧ (prepend front body).isSimple = false := by
  by_cases hne : front = []
  · rw [hne]
    exact ⟨hb, hsimple⟩
  · rcases prepend_eq front body hne with ⟨inner, heq, hinner⟩
    rw [heq]
    refine ⟨every_neat_block.mpr ?_, rfl⟩
    rcases hinner with rfl | rfl
    · exact (every_neat_block.mp hb).behind hfront.every hunused
    · have hbody : NeatIn cls ident [body] :=
        ⟨Stmt.everyIn_singleton.mpr hb, hb.here.own hsimple, .inr trivial⟩
      exact hbody.behind hfront.every hunused

theorem neatHere_branch {cls : String} {s : Stmt} (huses : s.uses cls ident = false)
    (hbodies : ∀ t ∈ s.bodies, t.isSimple = false) (hdeclared : s.declared = [])
    (hkind : s.clauses = [] ∧ s.lists = []) (hlabel : labelOf? s = none) :
    NeatHere cls ident s where
  own _ := huses
  bodies := hbodies
  lists list hl := by
    rw [hkind.2] at hl
    exact absurd hl List.not_mem_nil
  declared x hx := by
    rw [hdeclared] at hx
    exact absurd hx List.not_mem_nil
  label label inner hs := by
    subst hs
    cases hlabel
  clauses c hc := by
    rw [hkind.1] at hc
    exact absurd hc List.not_mem_nil

theorem neatIn_testInBody {cond : Expr} (h : cond.uses hooks.runtimeClass ident = false) :
    NeatIn hooks.runtimeClass ident (testInBody hooks id cond (writesIn cond)) := by
  have hreports : Stmt.EveryIn (NeatHere hooks.runtimeClass ident)
      (reports hooks id (writesIn cond)) := everyIn_neat_reports _ _
  refine neatIn_unused ?_ (testInBody_unused hooks id h)
  have hleave : NeatIn hooks.runtimeClass ident [.breakTo none] :=
    ⟨Stmt.everyIn_singleton.mpr ((Stmt.every_leaf rfl).mpr (neatHere_jump none).1), rfl,
      .inr trivial⟩
  have hinner := hleave.behind hreports (reportsOf_unused hooks id h)
  refine Stmt.everyIn_cons.mpr
    ⟨Stmt.every_ifElse.mpr ⟨?_, every_neat_block.mpr hinner, ?_⟩, hreports⟩
  · refine neatHere_branch ?_ ?_ rfl ⟨rfl, rfl⟩ rfl
    · simp [Stmt.uses, Stmt.ownExprs, uses_not, h]
    · intro t ht
      obtain rfl := List.mem_singleton.mp ht
      rfl
  · exact fun _ ht => absurd ht (by simp)

/-! ### Placing -/

theorem uses_of_mem_ownExprs {cls : String} {s : Stmt} (h : s.uses cls ident = false) {e : Expr}
    (he : e ∈ s.ownExprs) : e.uses cls ident = false := by
  have hall := List.any_eq_false.mp h e he
  simpa using hall

theorem every_neat_placeIf {cond : Expr} {ifTrue : Stmt} {ifFalse : Option Stmt}
    (h : (Stmt.ifElse cond ifTrue ifFalse).Every (NeatHere hooks.runtimeClass ident)) :
    (placeIf hooks id cond ifTrue ifFalse).Every (NeatHere hooks.runtimeClass ident) := by
  have hcond := uses_of_mem_ownExprs (h.here.own rfl) (List.mem_singleton.mpr rfl : cond ∈ _)
  have hreports := reportsOf_unused hooks id hcond
  have hfront := neatIn_unused (everyIn_neat_reports _ _) hreports
  unfold placeIf
  simp only
  split
  · exact h
  · have hparts := Stmt.every_ifElse.mp h
    have hthen := neatIn_prepend hfront hreports hparts.2.1
      (h.here.bodies ifTrue List.mem_cons_self)
    have helse : (ifFalse.getD (.block [])).Every (NeatHere hooks.runtimeClass ident) ∧
        (ifFalse.getD (.block [])).isSimple = false := by
      cases ifFalse with
      | none => exact ⟨every_neat_block.mpr ⟨Stmt.everyIn_nil, trivial⟩, rfl⟩
      | some s => exact ⟨hparts.2.2 s rfl, h.here.bodies s (by simp [Stmt.bodies])⟩
    have hsecond := neatIn_prepend hfront hreports helse.1 helse.2
    refine Stmt.every_ifElse.mpr ⟨?_, hthen.1, fun t ht => ?_⟩
    · refine h.here.withBodies rfl (fun u hu => ?_) ⟨rfl, rfl⟩ rfl
      rcases List.mem_cons.mp hu with rfl | hu
      · exact hthen.2
      · obtain rfl := List.mem_singleton.mp hu
        exact hsecond.2
    · obtain rfl := Option.some.inj ht
      exact hsecond.1

theorem neatHere_forever {cls : String} {body : Stmt} (hb : body.isSimple = false) :
    NeatHere cls ident (.whileLoop (.bool true) body) := by
  refine neatHere_branch rfl (fun t ht => ?_) rfl ⟨rfl, rfl⟩ rfl
  obtain rfl := List.mem_singleton.mp ht
  exact hb

theorem every_neat_placeWhile {cond : Expr} {body : Stmt}
    (h : (Stmt.whileLoop cond body).Every (NeatHere hooks.runtimeClass ident)) :
    (placeWhile hooks id cond body).Every (NeatHere hooks.runtimeClass ident) := by
  have hcond := uses_of_mem_ownExprs (h.here.own rfl) (List.mem_singleton.mpr rfl : cond ∈ _)
  unfold placeWhile
  simp only
  split
  · exact h
  · have htest : NeatIn hooks.runtimeClass ident (testInBody hooks id cond (writesIn cond)) :=
      neatIn_testInBody hcond
    have hbody := neatIn_prepend htest (testInBody_unused hooks id hcond)
      (Stmt.every_whileLoop.mp h).2 (h.here.bodies body (List.mem_singleton.mpr rfl))
    exact Stmt.every_whileLoop.mpr ⟨neatHere_forever hbody.2, hbody.1⟩

theorem neatHere_iteration {cls : String} (n : Nat) {body : Stmt} (hb : body.isBlock = true) :
    NeatHere cls ident (.labeled (reservedName "iteration" n) body) where
  own _ := rfl
  bodies t ht := by
    obtain rfl := List.mem_singleton.mp ht
    cases t <;> first | rfl | cases hb
  lists _ hl := absurd hl List.not_mem_nil
  declared _ hx := absurd hx List.not_mem_nil
  label label inner hs _ := by
    obtain ⟨rfl, rfl⟩ := Stmt.labeled.inj hs
    exact ⟨hb, n, rfl⟩
  clauses _ hc := absurd hc List.not_mem_nil

theorem every_neat_asBlock {cls : String} {s : Stmt} (h : s.Every (NeatHere cls ident))
    (hs : s.isSimple = false) : (asBlock s).Every (NeatHere cls ident) := by
  unfold asBlock
  split
  · exact h
  · exact every_neat_block.mpr ⟨Stmt.everyIn_singleton.mpr h, h.here.own hs, .inr trivial⟩

theorem every_neat_placeDoWhile {cond : Expr} {body : Stmt} (label : Option String)
    (h : (Stmt.doWhile body cond).Every (NeatHere hooks.runtimeClass ident)) (n : Nat) :
    (placeDoWhile hooks id body cond label n).1.Every (NeatHere hooks.runtimeClass ident) := by
  have hcond := uses_of_mem_ownExprs (h.here.own rfl) (List.mem_singleton.mpr rfl : cond ∈ _)
  cases hw : (writesIn cond).isEmpty with
  | true =>
      rw [placeDoWhile_of_isEmpty hw]
      exact h
  | false =>
      rw [placeDoWhile_of_writes hw]
      have hblock := every_neat_asBlock (Stmt.every_doWhile.mp h).2
        (h.here.bodies body (List.mem_singleton.mpr rfl))
      have hbody := neat_retarget label (reservedName "iteration" n) false hblock
      have hiteration : NeatHere hooks.runtimeClass ident (.labeled (reservedName "iteration" n)
          (retarget label (reservedName "iteration" n) false (asBlock body))) :=
        neatHere_iteration n (Eval.isBlock_retarget label _ false (isBlock_asBlock body))
      have htest : NeatIn hooks.runtimeClass ident (testInBody hooks id cond (writesIn cond)) :=
        neatIn_testInBody hcond
      refine Stmt.every_whileLoop.mpr ⟨neatHere_forever rfl, every_neat_block.mpr ⟨?_, rfl, ?_⟩⟩
      · exact Stmt.everyIn_cons.mpr ⟨Stmt.every_labeled.mpr ⟨hiteration, hbody⟩, htest.every⟩
      · exact .inr htest.settled

theorem neat_forTest {cond : Option Expr} {body : Stmt}
    (hcond : ∀ e ∈ cond, e.uses hooks.runtimeClass ident = false)
    (hb : body.Every (NeatHere hooks.runtimeClass ident)) (hs : body.isSimple = false) :
    (forTest hooks id cond body).2.Every (NeatHere hooks.runtimeClass ident) ∧
      (forTest hooks id cond body).2.isSimple = false := by
  unfold forTest
  split
  · rename_i test
    split
    · exact ⟨hb, hs⟩
    · exact neatIn_prepend (neatIn_testInBody (hcond test rfl))
        (testInBody_unused hooks id (hcond test rfl)) hb hs
  · exact ⟨hb, hs⟩

theorem neatIn_declared {type : TypeName} {x : String} {init : Expr}
    (hx : (Stmt.declare type x init).Every (NeatHere hooks.runtimeClass ident))
    (hinit : init.uses hooks.runtimeClass ident = false) :
    NeatIn hooks.runtimeClass ident
      (.declare type x init :: reports hooks id (writesIn init ++ [Write.ofVariable x])) := by
  refine ⟨Stmt.everyIn_cons.mpr ⟨hx, everyIn_neat_reports _ _⟩, ?_, ?_⟩
  · simp [Stmt.uses, Stmt.ownExprs, Stmt.declare, hinit]
  · by_cases hname : x = ident
    · exact .inl (decide_eq_true hname)
    · right
      have hreports : reports hooks id (writesIn init ++ [Write.ofVariable x]) =
          reports hooks id (writesIn init) ++ reports hooks id [Write.ofVariable x] :=
        List.map_append
      rw [hreports]
      exact (settled_of_forall (reportsOf_unused hooks id hinit)).append
        (.inl (settled_of_forall (variable_report_unused hooks id hname)))

structure Placed.Neat (cls ident : String) (placed : Placed) : Prop where
  before : NeatIn cls ident placed.before
  stmt : placed.stmt.Every (NeatHere cls ident)
  simple : placed.stmt.isSimple = false
  after : Stmt.EveryIn (NeatHere cls ident) placed.after
  unused : ∀ t ∈ placed.after, t.uses cls ident = false

theorem Placed.Neat.alone {cls : String} {s : Stmt} (h : s.Every (NeatHere cls ident))
    (hs : s.isSimple = false) : Placed.Neat cls ident (.alone s) :=
  ⟨⟨Stmt.everyIn_nil, trivial⟩, h, hs, Stmt.everyIn_nil, fun _ ht => absurd ht List.not_mem_nil⟩

theorem Placed.Neat.followedBy {s : Stmt} (h : s.Every (NeatHere hooks.runtimeClass ident))
    (hs : s.isSimple = false) {e : Expr} (he : e.uses hooks.runtimeClass ident = false) :
    Placed.Neat hooks.runtimeClass ident (.followedBy s (reports hooks id (writesIn e))) :=
  ⟨⟨Stmt.everyIn_nil, trivial⟩, h, hs, everyIn_neat_reports _ _, reportsOf_unused hooks id he⟩

theorem Placed.Neat.neatIn {cls : String} {placed : Placed} (h : placed.Neat cls ident) :
    NeatIn cls ident placed.stmts := by
  have hstmt : NeatIn cls ident (placed.stmt :: placed.after) :=
    ⟨Stmt.everyIn_cons.mpr ⟨h.stmt, h.after⟩, h.stmt.here.own h.simple,
      .inr (settled_of_forall h.unused)⟩
  unfold Placed.stmts
  split
  · exact hstmt
  · have hwhole : NeatIn cls ident (placed.before ++ placed.stmt :: placed.after) :=
      ⟨Stmt.everyIn_append.mpr ⟨h.before.every, hstmt.every⟩,
        h.before.settled.append (.inl hstmt.settled)⟩
    exact ⟨Stmt.everyIn_singleton.mpr (every_neat_block.mpr hwhole), rfl, .inr trivial⟩

theorem reportCalls_unused {es : List Expr}
    (h : ∀ e ∈ es, e.uses hooks.runtimeClass ident = false) :
    ∀ e ∈ es ++ reportCalls hooks id (es.flatMap writesIn),
      e.uses hooks.runtimeClass ident = false := by
  intro e he
  rcases List.mem_append.mp he with he | he
  · exact h e he
  · rcases List.mem_map.mp he with ⟨write, hwrite, rfl⟩
    rcases List.mem_flatMap.mp hwrite with ⟨e', he', hwrite⟩
    have htarget : write.target.uses hooks.runtimeClass ident = false := by
      rw [Bool.eq_false_iff]
      exact fun huses => absurd (uses_of_mem_writesIn e' hwrite huses) (by simp [h e' he'])
    refine (uses_call hooks).trans ?_
    simp [uses_text, htarget]

theorem neat_placeFor {init : ForInit} {cond : Option Expr} {update : List Expr} {body : Stmt}
    (h : (Stmt.forLoop init cond update body).Every (NeatHere hooks.runtimeClass ident)) :
    Placed.Neat hooks.runtimeClass ident (placeFor hooks id init cond update body) := by
  have hown := fun e he => uses_of_mem_ownExprs (e := e) (h.here.own rfl) he
  have hcond : ∀ e ∈ cond, e.uses hooks.runtimeClass ident = false := fun e he => by
    refine hown e ?_
    simp only [Stmt.ownExprs, List.mem_append, Option.mem_toList]
    exact .inl (.inr he)
  have hupdate : ∀ e ∈ update ++ reportCalls hooks id (update.flatMap writesIn),
      e.uses hooks.runtimeClass ident = false :=
    reportCalls_unused fun e he => hown e (List.mem_append_right _ he)
  have hbody : (forTest hooks id cond body).2.Every (NeatHere hooks.runtimeClass ident) ∧ _ :=
    neat_forTest hcond (Stmt.every_forLoop.mp h).2
      (h.here.bodies body (List.mem_singleton.mpr rfl))
  -- the loop itself, with whatever expressions it starts
  have hloop : ∀ es : List Expr, (∀ e ∈ es, e.uses hooks.runtimeClass ident = false) →
      (Stmt.forLoop (.exprs es) (forTest hooks id cond body).1
        (update ++ reportCalls hooks id (update.flatMap writesIn))
        (forTest hooks id cond body).2).Every (NeatHere hooks.runtimeClass ident) := by
    intro es hes
    refine Stmt.every_forLoop.mpr ⟨neatHere_branch ?_ (fun t ht => ?_) rfl ⟨rfl, rfl⟩ rfl, hbody.1⟩
    · refine List.any_eq_false.mpr fun e he => ?_
      simp only [Stmt.ownExprs, ForInit.operands, List.mem_append, Option.mem_toList] at he
      rw [Bool.not_eq_true]
      rcases he with (he | he) | he
      · exact hes e he
      · exact hcond e (mem_forTest he)
      · exact hupdate e (List.mem_append.mpr he)
    · obtain rfl := List.mem_singleton.mp ht
      exact hbody.2
  rw [placeFor_eq]
  cases init with
  | exprs es =>
      refine .alone (hloop _ (reportCalls_unused fun e he => hown e ?_)) rfl
      exact List.mem_append_left _ (List.mem_append_left _ he)
  | decl type x init =>
      have hinit : init.uses hooks.runtimeClass ident = false := hown init List.mem_cons_self
      have hstart : (Stmt.declare type x init).Every (NeatHere hooks.runtimeClass ident) := by
        refine (Stmt.every_leaf rfl).mpr
          (neatHere_leaf rfl (.inl rfl) (fun y hy hr => ?_) ⟨rfl, rfl⟩)
        rcases h.here.declared y hy hr with ⟨n, type', value, heq⟩
        cases heq
      exact ⟨neatIn_declared hstart hinit, hloop [] (fun _ he => absurd he List.not_mem_nil), rfl,
        Stmt.everyIn_nil, fun _ ht => absurd ht List.not_mem_nil⟩

theorem neat_placeForEach {type : TypeName} {x : String} {items : Expr} {body : Stmt}
    (hx : x ≠ ident)
    (h : (Stmt.forEach type x items body).Every (NeatHere hooks.runtimeClass ident)) :
    (Stmt.forEach type x items
      (prepend (reports hooks id [Write.ofVariable x]) body)).Every
        (NeatHere hooks.runtimeClass ident) := by
  have hreports := variable_report_unused hooks id hx
  have hbody := neatIn_prepend (neatIn_unused (everyIn_neat_reports _ _) hreports) hreports
    (Stmt.every_forEach.mp h).2 (h.here.bodies body (List.mem_singleton.mpr rfl))
  refine Stmt.every_forEach.mpr ⟨h.here.withBodies rfl (fun u hu => ?_) ⟨rfl, rfl⟩ rfl, hbody.1⟩
  obtain rfl := List.mem_singleton.mp hu
  exact hbody.2

theorem neat_placeSync {lock : Expr} {body : List Stmt}
    (h : (Stmt.sync lock body).Every (NeatHere hooks.runtimeClass ident)) :
    (Stmt.sync lock (reports hooks id (writesIn lock) ++ body)).Every
      (NeatHere hooks.runtimeClass ident) := by
  have hlock := uses_of_mem_ownExprs (h.here.own rfl) (List.mem_singleton.mpr rfl : lock ∈ _)
  have hinner : NeatIn hooks.runtimeClass ident body :=
    ⟨(Stmt.every_sync.mp h).2, h.here.lists body (List.mem_singleton.mpr rfl)⟩
  have hlist := hinner.behind (everyIn_neat_reports _ _) (reportsOf_unused hooks id hlock)
  refine Stmt.every_sync.mpr ⟨?_, hlist.every⟩
  refine h.here.withParts rfl (fun _ hu => absurd hu List.not_mem_nil) (fun list hl => ?_)
    (fun _ _ heq => by cases heq) (fun _ hc => absurd hc List.not_mem_nil)
  obtain rfl := List.mem_singleton.mp hl
  exact hlist.settled

theorem neat_relabeled {cls label : String} {body body' : Stmt}
    (h : (Stmt.labeled label body).Every (NeatHere cls ident))
    (hbody : body'.Every (NeatHere cls ident)) (hsimple : body'.isSimple = false)
    (hblock : body.isBlock = true → body'.isBlock = true) :
    (Stmt.labeled label body').Every (NeatHere cls ident) := by
  refine Stmt.every_labeled.mpr ⟨?_, hbody⟩
  refine h.here.withParts rfl (fun u hu => ?_) (fun _ hl => absurd hl List.not_mem_nil)
    (fun l inner heq hl => ?_) (fun _ hc => absurd hc List.not_mem_nil)
  · obtain rfl := List.mem_singleton.mp hu
    exact hsimple
  · obtain ⟨rfl, rfl⟩ := Stmt.labeled.inj heq
    exact hblock (h.here.label _ _ rfl hl).1

theorem neat_place (hr : isReserved ident = true) {s : Stmt} (hs : s.isSimple = false)
    (h : s.Every (NeatHere hooks.runtimeClass ident)) (n : Nat) :
    Placed.Neat hooks.runtimeClass ident (place hooks id s n).1 := by
  induction s using Stmt.childInduction generalizing n with
  | step s ih =>
      have hown := fun e he => uses_of_mem_ownExprs (e := e) (h.here.own hs) he
      have hplain : (place hooks id s n).1.stmt.isSimple = false := isSimple_place hs n
      cases s with
      | decl _ _ _ | expr _ | ret _ | raise _ => cases hs
      | ifElse cond ifTrue ifFalse =>
          have hparts := Stmt.every_ifElse.mp h
          have helse : ∀ t ∈ (placeElse hooks id ifFalse n).1,
              t.Every (NeatHere hooks.runtimeClass ident) ∧ t.isSimple = false := by
            intro t ht
            cases ifFalse with
            | none => cases ht
            | some s =>
                have hmem : s ∈ (Stmt.ifElse cond ifTrue (some s)).bodies := by simp [Stmt.bodies]
                have hsimple := h.here.bodies s hmem
                rw [placeElse_some] at ht
                split at ht <;> obtain rfl := Option.some.inj ht
                · have hplaced := ih s (by simp [Stmt.children]) hsimple (hparts.2.2 s rfl) n
                  exact ⟨hplaced.stmt, hplaced.simple⟩
                · exact ⟨hparts.2.2 s rfl, hsimple⟩
          have hnew : (Stmt.ifElse cond ifTrue (placeElse hooks id ifFalse n).1).Every
              (NeatHere hooks.runtimeClass ident) := by
            refine Stmt.every_ifElse.mpr ⟨?_, hparts.2.1, fun t ht => (helse t ht).1⟩
            refine h.here.withBodies rfl (fun u hu => ?_) ⟨rfl, rfl⟩ rfl
            rcases List.mem_cons.mp hu with rfl | hu
            · exact h.here.bodies u List.mem_cons_self
            · exact (helse u (Option.mem_toList.mp hu)).2
          exact .alone (every_neat_placeIf hnew) hplain
      | whileLoop cond body => exact .alone (every_neat_placeWhile h) hplain
      | doWhile body cond => exact .alone (every_neat_placeDoWhile none h n) hplain
      | forLoop init cond update body => exact neat_placeFor h
      | forEach type x items body =>
          have hx : x ≠ ident := by
            rintro rfl
            rcases h.here.declared x List.mem_cons_self hr with ⟨_, _, _, heq⟩
            cases heq
          exact .followedBy (neat_placeForEach hx h) rfl (hown items (List.mem_singleton.mpr rfl))
      | labeled label body =>
          have hbody := (Stmt.every_labeled.mp h).2
          have hsimple := h.here.bodies body (List.mem_singleton.mpr rfl)
          by_cases hdo : ∃ inner cond, body = .doWhile inner cond
          · rcases hdo with ⟨inner, cond, rfl⟩
            rw [place_labeled_doWhile]
            exact .alone (neat_relabeled h (every_neat_placeDoWhile (some label) hbody n)
              (isSimple_placeDoWhile inner cond (some label) n) fun hb => by cases hb) rfl
          · rw [place_labeled fun inner cond hb => hdo ⟨inner, cond, hb⟩]
            have hplaced := ih body (List.mem_singleton_self body) hsimple hbody n
            have hblock : body.isBlock = true → (place hooks id body n).1.stmt.isBlock = true := by
              intro hb
              cases body <;> first | rfl | cases hb
            exact ⟨hplaced.before, neat_relabeled h hplaced.stmt hplaced.simple hblock, rfl,
              hplaced.after, hplaced.unused⟩
      | switch selector cases =>
          exact .followedBy h rfl (hown selector (List.mem_singleton.mpr rfl))
      | sync lock body => exact .alone (neat_placeSync h) rfl
      | block _ | breakTo _ | continueTo _ | tryCatch _ _ _ | unmodelled _ => exact .alone h rfl

theorem neatPart_place (hr : isReserved ident = true) {s : Stmt}
    (h : s.Every (NeatHere hooks.runtimeClass ident)) (n : Nat) :
    NeatPart hooks.runtimeClass ident s (place hooks id s n).1.stmts := by
  cases hs : s.isSimple with
  | false =>
      have hplaced : NeatIn hooks.runtimeClass ident (place hooks id s n).1.stmts :=
        (neat_place hr hs h n).neatIn
      refine ⟨hplaced.every, fun _ => hplaced.settled, fun hd => ?_⟩
      exact absurd (Stmt.isSimple_of_declares hd) (by simp [hs])
  | true =>
      cases s with
      | expr e =>
          refine ⟨Stmt.everyIn_cons.mpr ⟨h, everyIn_neat_reports _ _⟩, fun hunused => ?_,
            fun hd => absurd hd Bool.false_ne_true⟩
          have he := uses_of_mem_ownExprs hunused (List.mem_singleton.mpr rfl : e ∈ _)
          exact ⟨hunused, .inr (settled_of_forall (reportsOf_unused hooks id he))⟩
      | decl type x init =>
          cases init with
          | none => exact .refl h
          | some init =>
              refine ⟨Stmt.everyIn_cons.mpr ⟨h, everyIn_neat_reports _ _⟩, fun hunused => ?_,
                fun hd => ⟨_, List.mem_cons_self, hd⟩⟩
              have hinit := uses_of_mem_ownExprs hunused (List.mem_singleton.mpr rfl : init ∈ _)
              exact (neatIn_declared h hinit).settled
      | ret _ | raise _ => exact .refl h
      | block _ | ifElse _ _ _ | whileLoop _ _ | doWhile _ _ | forLoop _ _ _ _ | forEach _ _ _ _
      | labeled _ _ | switch _ _ | breakTo _ | continueTo _ | tryCatch _ _ _ | sync _ _
      | unmodelled _ => cases hs

theorem neatIn_reportChanges (hr : isReserved ident = true) {stmts : List Stmt}
    (h : NeatIn hooks.runtimeClass ident stmts) (n : Nat) :
    NeatIn hooks.runtimeClass ident (reportChanges hooks id stmts n).1 :=
  neatIn_transformLists le_placeInList
    (fun _ n h => neatIn_mapM (fun s hs k => neatPart_place hr (h.every s hs) k) h.settled n) h n

end

/-! ## Bodies -/

section

variable {cls ident : String} (hr : isReserved ident = true)

include hr

theorem neat_of_unreserved {s : Stmt} (hnormal : s.Every NormalHere)
    (h : s.Every UnreservedHere) : s.Every (NeatHere cls ident) := by
  intro t ht
  have hthere := h t ht
  refine ⟨⟨fun _ => hthere.unused hr, fun u hu => ?_, fun list hl => ?_⟩, fun x hx hreserved => ?_,
    fun label inner heq hreserved => ?_, hthere.clauses⟩
  · have hcontrolled := hnormal t ht
    cases t with
    | ifElse cond ifTrue ifFalse =>
        rcases List.mem_cons.mp hu with rfl | hu
        · have hblock := hcontrolled.1
          cases u <;> first | rfl | cases hblock
        · rcases hcontrolled.2 u (Option.mem_toList.mp hu) with hchain | hblock
          · cases u <;> first | rfl | cases hchain
          · cases u <;> first | rfl | cases hblock
    | whileLoop _ body | doWhile body _ | forLoop _ _ _ body | forEach _ _ _ body =>
        obtain rfl := List.mem_singleton.mp hu
        cases u <;> first | rfl | cases hcontrolled
    | labeled label body =>
        obtain rfl := List.mem_singleton.mp hu
        rcases hcontrolled with hkeeps | hblock
        · cases u <;> first | rfl | cases hkeeps
        · cases u <;> first | rfl | cases hblock
    | block _ | decl _ _ _ | expr _ | switch _ _ | breakTo _ | continueTo _ | ret _ | raise _
    | tryCatch _ _ _ | sync _ _ | unmodelled _ => exact absurd hu List.not_mem_nil
  · exact settled_of_forall fun u hu =>
      ((h.inside ht).child (Stmt.list_subset_children hl hu)).here.unused hr
  · exact absurd hreserved (by simp [hthere.declared x hx])
  · subst heq
    exact absurd hreserved (by simp [hthere.label label rfl])

/-- Whatever the passes do to a body without reserved names, the result settles every reserved
variable. -/
theorem neatIn_reported (w : Weaver) (s : Session) {body : List Stmt}
    (h : Stmt.EveryIn UnreservedHere body) :
    NeatIn w.hooks.runtimeClass ident (w.reported s body) := by
  have hunreserved : Stmt.EveryIn UnreservedHere (normalizeAll body) :=
    normalizeAll_every unreservedHere_block (fun _ hs => unreservedHere_normalize hs) h
  have hnormal : Stmt.EveryIn NormalHere (normalizeAll body) :=
    normalizeAll_every (fun _ => trivial) (fun s _ => normalHere_normalize s) h
  have hstart : NeatIn w.hooks.runtimeClass ident (normalizeAll body) := by
    constructor
    · exact fun t ht => neat_of_unreserved hr (hnormal t ht) (hunreserved t ht)
    · exact settled_of_forall fun t ht => (hunreserved t ht).here.unused hr
  rcases Weaver.reported_induction (P := fun stmts _ => NeatIn w.hooks.runtimeClass ident stmts)
    hstart
    (fun _ _ n h => neatIn_extracted _ s.decl h n)
    (fun _ n h => neatIn_reportChanges hr h n)
    (fun _ _ h => neatIn_reportReturns w.hooks s.id h) with ⟨-, hreported⟩
  exact hreported

end

end Weave
end TraceWeaving
