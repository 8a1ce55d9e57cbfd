import TraceWeaving.Code.Lists
import TraceWeaving.Proofs.Code.Nodes

/-!
# Variables and their uses

Which variables a statement declares, and which statements use a variable.  A list settles a
variable when its statements use the variable only behind its declaration.  If code uses a
variable in settled lists only and declares it once, then all uses stand in one list, behind
the declaration.
-/

namespace TraceWeaving
namespace Code

/-! ## Expressions -/

namespace Expr

def isVariable (ident : String) : Expr → Bool
  | name other => other = ident
  | _ => false

/-- The expressions right inside an expression that have values.  The class that a call is made
on has none, though it is written like a variable. -/
def valueChildren (cls : String) : Expr → List Expr
  | call (some (name receiver)) _ args =>
      if receiver = cls then args else name receiver :: args
  | e => e.children

def uses (cls ident : String) (e : Expr) : Bool :=
  e.isVariable ident || e.nodes.any fun e' => (e'.valueChildren cls).any (isVariable ident)

variable {cls ident : String}

theorem valueChildren_subset (e : Expr) : e.valueChildren cls ⊆ e.children := by
  unfold valueChildren
  split
  · split
    · exact List.subset_cons_self _ _
    · exact fun _ h => h
  · exact fun _ h => h

/-- A child without value is the name of the class. -/
theorem mem_valueChildren_or {e c : Expr} (hc : c ∈ e.children) :
    c ∈ e.valueChildren cls ∨ c = name cls := by
  unfold valueChildren
  split
  · rename_i receiver _ args
    rcases List.mem_cons.mp hc with rfl | hc
    · split
      · rename_i heq
        exact .inr (congrArg name heq)
      · exact .inl List.mem_cons_self
    · split
      · exact .inl hc
      · exact .inl (List.mem_cons_of_mem _ hc)
  · exact .inl hc

theorem uses_iff {e : Expr} :
    e.uses cls ident = true ↔
      e.isVariable ident = true ∨ ∃ c ∈ e.valueChildren cls, c.uses cls ident = true := by
  have hnodes : e.nodes = e :: e.children.flatMap nodes := by rw [nodes, inner_eq]
  simp only [uses, Bool.or_eq_true, List.any_eq_true]
  constructor
  · rintro (h | ⟨e', he', c, hc, h⟩)
    · exact .inl h
    · rw [hnodes] at he'
      rcases List.mem_cons.mp he' with rfl | he'
      · exact .inr ⟨c, hc, .inl h⟩
      · rcases List.mem_flatMap.mp he' with ⟨child, hchild, he'⟩
        have hor : child ∈ e.valueChildren cls ∨ _ := mem_valueChildren_or hchild
        rcases hor with hop | rfl
        · exact .inr ⟨child, hop, .inr ⟨e', he', c, hc, h⟩⟩
        · obtain rfl := List.mem_singleton.mp he'
          exact absurd hc List.not_mem_nil
  · rintro (h | ⟨c, hc, h | ⟨e', he', c', hc', h⟩⟩)
    · exact .inl h
    · exact .inr ⟨e, mem_nodes_self e, c, hc, h⟩
    · exact .inr ⟨e', nodes_subset_of_mem_children (valueChildren_subset e hc) he', c', hc', h⟩

theorem uses_name (other : String) : (name other).uses cls ident = decide (other = ident) :=
  Bool.or_false _

theorem uses_of_mem_valueChildren {e c : Expr} (hc : c ∈ e.valueChildren cls)
    (h : c.uses cls ident = true) : e.uses cls ident = true :=
  uses_iff.mpr (.inr ⟨c, hc, h⟩)

end Expr

/-! ## Statements -/

namespace Stmt

def declared : Stmt → List String
  | decl _ ident _ | forLoop (.decl _ ident _) _ _ _ | forEach _ ident _ _ => [ident]
  | _ => []

def declares (ident : String) : Stmt → Bool
  | decl _ other _ => other = ident
  | _ => false

def clauses : Stmt → List CatchClause
  | tryCatch _ catches _ => catches
  | _ => []

def uses (cls ident : String) (s : Stmt) : Bool :=
  s.ownExprs.any (Expr.uses cls ident)

/-- Whether a statement is carried out as a whole, with no statement inside it. -/
def isSimple : Stmt → Bool
  | decl _ _ _ | expr _ | ret _ | raise _ => true
  | _ => false

def lists : Stmt → List (List Stmt)
  | block stmts => [stmts]
  | switch _ cases => cases.map SwitchCase.body
  | tryCatch body catches cleanup => body :: catches.map CatchClause.body ++ cleanup.toList
  | sync _ body => [body]
  | _ => []

theorem children_eq (s : Stmt) : s.children = s.bodies ++ s.lists.flatten := by
  cases s with
  | tryCatch body catches cleanup =>
      cases cleanup <;> simp [children, bodies, lists, List.flatMap_def]
  | switch _ cases => simp [children, bodies, lists, List.flatMap_def]
  | block _ | sync _ _ | ifElse _ _ _ | whileLoop _ _ | doWhile _ _ | forLoop _ _ _ _
  | forEach _ _ _ _ | labeled _ _ | decl _ _ _ | expr _ | breakTo _ | continueTo _ | ret _
  | raise _ | unmodelled _ => simp [children, bodies, lists]

theorem list_subset_children {s : Stmt} {list : List Stmt} (h : list ∈ s.lists) :
    list ⊆ s.children := by
  intro t ht
  rw [children_eq]
  exact List.mem_append_right _ (List.mem_flatten.mpr ⟨list, h, ht⟩)

theorem nodes_eq_lists (s : Stmt) :
    s.nodes = s :: (s.bodies.flatMap nodes ++
      s.lists.flatMap fun list => list.flatMap nodes) := by
  rw [nodes, inner_eq, children_eq, List.flatMap_append, List.flatten_eq_flatMap,
    List.flatMap_assoc]
  rfl

theorem every_iff_lists {q : Stmt → Prop} {s : Stmt} :
    s.Every q ↔ q s ∧ (∀ t ∈ s.bodies, t.Every q) ∧ ∀ list ∈ s.lists, EveryIn q list := by
  rw [every_iff, children_eq]
  simp only [List.mem_append, List.mem_flatten, EveryIn]
  grind

theorem Every.inside {q : Stmt → Prop} {s t : Stmt} (h : s.Every q) (ht : t ∈ s.nodes) :
    t.Every q := by
  induction s using childInduction with
  | step s ih =>
      rw [nodes, inner_eq] at ht
      rcases List.mem_cons.mp ht with rfl | ht
      · exact h
      · rcases List.mem_flatMap.mp ht with ⟨c, hc, ht⟩
        exact ih c hc (h.child hc) ht

section

variable {cls ident : String}

theorem uses_of_head {s t : Stmt} (h : t.head = s.head) :
    t.uses cls ident = s.uses cls ident := by
  unfold uses
  rw [ownExprs_of_head h]

theorem isSimple_head (s : Stmt) : s.head.isSimple = s.isSimple := by
  cases s <;> rfl

theorem isSimple_of_head {s t : Stmt} (h : t.head = s.head) : t.isSimple = s.isSimple := by
  rw [← isSimple_head t, h, isSimple_head s]

theorem declares_head (s : Stmt) : s.head.declares ident = s.declares ident := by
  cases s <;> rfl

theorem declares_of_head {s t : Stmt} (h : t.head = s.head) :
    t.declares ident = s.declares ident := by
  rw [← declares_head t, h, declares_head s]

theorem declared_head (s : Stmt) : s.head.declared = s.declared := by
  cases s with
  | forLoop init _ _ _ => cases init <;> rfl
  | block _ | decl _ _ _ | expr _ | ifElse _ _ _ | whileLoop _ _ | doWhile _ _ | forEach _ _ _ _
  | labeled _ _ | switch _ _ | breakTo _ | continueTo _ | ret _ | raise _ | tryCatch _ _ _
  | sync _ _ | unmodelled _ => rfl

theorem declared_of_head {s t : Stmt} (h : t.head = s.head) : t.declared = s.declared := by
  rw [← declared_head t, h, declared_head s]

theorem nodes_of_isSimple {s : Stmt} (h : s.isSimple = true) : s.nodes = [s] := by
  cases s <;> first | rfl | exact absurd h (by simp [isSimple])

theorem isSimple_of_declares {s : Stmt} (h : s.declares ident = true) : s.isSimple = true := by
  cases s <;> first | rfl | exact absurd h (by simp [declares])

end

/-! ### Lists in a statement -/

theorem nestedLists_subset_all {s : Stmt} {stmts : List Stmt} (h : s ∈ stmts) :
    s.nestedLists ⊆ nestedListsOfAll stmts := by
  induction stmts with
  | nil => exact absurd h List.not_mem_nil
  | cons t rest ih =>
      unfold nestedListsOfAll
      rcases List.mem_cons.mp h with rfl | h
      · exact List.subset_append_left _ _
      · exact fun _ hx => List.mem_append_right _ (ih h hx)

theorem nestedLists_of_body {s t : Stmt} (h : t ∈ s.bodies) : t.nestedLists ⊆ s.nestedLists := by
  cases s with
  | ifElse cond ifTrue ifFalse =>
      rcases List.mem_cons.mp h with rfl | h
      · exact List.subset_append_left t.nestedLists (nestedListsOfElse ifFalse)
      · cases ifFalse with
        | none => exact absurd h List.not_mem_nil
        | some s =>
            obtain rfl := List.mem_singleton.mp h
            exact List.subset_append_right ifTrue.nestedLists t.nestedLists
  | whileLoop _ _ | doWhile _ _ | forLoop _ _ _ _ | forEach _ _ _ _ | labeled _ _ =>
      obtain rfl := List.mem_singleton.mp h
      exact fun _ hx => hx
  | block _ | decl _ _ _ | expr _ | switch _ _ | breakTo _ | continueTo _ | ret _ | raise _
  | tryCatch _ _ _ | sync _ _ | unmodelled _ => exact absurd h List.not_mem_nil

theorem nestedListsOfCases_eq (cases : List SwitchCase) :
    nestedListsOfCases cases =
      cases.flatMap fun c => (.switchCase, c.body) :: nestedListsOfAll c.body := by
  induction cases with
  | nil => rfl
  | cons c rest ih =>
      cases c with
      | mk labels body =>
          unfold nestedListsOfCases
          rw [ih, List.flatMap_cons]
          rfl

theorem nestedListsOfCatches_eq (catches : List CatchClause) :
    nestedListsOfCatches catches =
      catches.flatMap fun c => (.block, c.body) :: nestedListsOfAll c.body := by
  induction catches with
  | nil => rfl
  | cons c rest ih =>
      cases c with
      | mk type ident body =>
          unfold nestedListsOfCatches
          rw [ih, List.flatMap_cons]
          rfl

theorem nestedLists_of_list {s : Stmt} {list : List Stmt} (h : list ∈ s.lists) :
    ∃ role, (role, list) :: nestedListsOfAll list ⊆ s.nestedLists := by
  cases s with
  | block _ | sync _ _ =>
      obtain rfl := List.mem_singleton.mp h
      exact ⟨.block, fun _ hx => hx⟩
  | switch selector cases =>
      rcases List.mem_map.mp h with ⟨c, hc, rfl⟩
      refine ⟨.switchCase, fun _ hx => ?_⟩
      unfold nestedLists
      rw [nestedListsOfCases_eq]
      exact List.mem_flatMap.mpr ⟨c, hc, hx⟩
  | tryCatch body catches cleanup =>
      refine ⟨.block, fun _ hx => ?_⟩
      unfold nestedLists
      rw [nestedListsOfCatches_eq]
      rcases List.mem_append.mp h with h | h
      · rcases List.mem_cons.mp h with rfl | h
        · exact List.mem_append_left _ (List.mem_append_left _ hx)
        · rcases List.mem_map.mp h with ⟨c, hc, rfl⟩
          exact List.mem_append_left _
            (List.mem_append_right _ (List.mem_flatMap.mpr ⟨c, hc, hx⟩))
      · obtain rfl := Option.mem_toList.mp h
        exact List.mem_append_right _ hx
  | ifElse _ _ _ | whileLoop _ _ | doWhile _ _ | forLoop _ _ _ _ | forEach _ _ _ _ | labeled _ _
  | decl _ _ _ | expr _ | breakTo _ | continueTo _ | ret _ | raise _ | unmodelled _ =>
      exact absurd h List.not_mem_nil

end Stmt

/-! ## Settled lists -/

/-- The statements of the list use the variable only behind its declaration. -/
def Settled (cls ident : String) : List Stmt → Prop
  | [] => True
  | s :: rest =>
      s.uses cls ident = false ∧ (s.declares ident = true ∨ Settled cls ident rest)

def usesIn (cls ident : String) (stmts : List Stmt) : Nat :=
  (stmts.flatMap Stmt.nodes).countP (Stmt.uses cls ident)

section

variable {cls ident : String} {xs ys : List Stmt}

@[simp]
theorem usesIn_append :
    usesIn cls ident (xs ++ ys) = usesIn cls ident xs + usesIn cls ident ys := by
  unfold usesIn
  rw [List.flatMap_append, List.countP_append]

theorem usesIn_eq_zero : usesIn cls ident xs = 0 ↔
    Stmt.EveryIn (fun t => t.uses cls ident = false) xs := by
  unfold usesIn
  rw [List.countP_eq_zero]
  simp only [List.mem_flatMap, Stmt.EveryIn, Stmt.Every, Bool.not_eq_true]
  grind

theorem settled_of_forall (h : ∀ s ∈ xs, s.uses cls ident = false) : Settled cls ident xs := by
  induction xs with
  | nil => trivial
  | cons s rest ih =>
      exact ⟨h s List.mem_cons_self, .inr (ih fun t ht => h t (List.mem_cons_of_mem s ht))⟩

theorem Settled.append (h : Settled cls ident xs)
    (h' : Settled cls ident ys ∨ ∃ d ∈ xs, d.declares ident = true) :
    Settled cls ident (xs ++ ys) := by
  induction xs with
  | nil => exact h'.elim (fun hys => hys) fun ⟨_, hd, _⟩ => absurd hd List.not_mem_nil
  | cons s rest ih =>
      refine ⟨h.1, ?_⟩
      cases hs : s.declares ident with
      | true => exact .inl rfl
      | false =>
          have hrest : Settled cls ident rest := h.2.resolve_left (by simp [hs])
          refine .inr (ih hrest (h'.imp_right ?_))
          rintro ⟨d, hd, hdeclares⟩
          rcases List.mem_cons.mp hd with rfl | hd
          · exact absurd hdeclares (by simp [hs])
          · exact ⟨d, hd, hdeclares⟩

theorem Settled.split {s : Stmt} (h : Settled cls ident (xs ++ s :: ys))
    (hxs : ∀ d ∈ xs, d.declares ident = false) :
    (∀ t ∈ xs, t.uses cls ident = false) ∧ s.uses cls ident = false ∧
      (s.declares ident = true ∨ Settled cls ident ys) := by
  induction xs with
  | nil => exact ⟨fun _ h => absurd h List.not_mem_nil, h⟩
  | cons t rest ih =>
      have ht := hxs t List.mem_cons_self
      have hrest := ih (h.2.resolve_left (by simp [ht]))
        fun d hd => hxs d (List.mem_cons_of_mem t hd)
      refine ⟨fun u hu => ?_, hrest.2⟩
      rcases List.mem_cons.mp hu with rfl | hu
      · exact h.1
      · exact hrest.1 u hu

theorem Settled.unused (h : Settled cls ident xs) (hxs : ∀ d ∈ xs, d.declares ident = false) :
    ∀ t ∈ xs, t.uses cls ident = false := by
  induction xs with
  | nil => exact fun _ h => absurd h List.not_mem_nil
  | cons s rest ih =>
      have hs := hxs s List.mem_cons_self
      have hrest := ih (h.2.resolve_left (by simp [hs]))
        fun d hd => hxs d (List.mem_cons_of_mem s hd)
      intro t ht
      rcases List.mem_cons.mp ht with rfl | ht
      · exact h.1
      · exact hrest t ht

end

/-! ## All uses behind one declaration -/

structure Stmt.SettlesHere (cls ident : String) (s : Stmt) : Prop where
  own : s.isSimple = false → s.uses cls ident = false
  bodies : ∀ t ∈ s.bodies, t.isSimple = false
  lists : ∀ list ∈ s.lists, Settled cls ident list

/-- A statement of the list declares the variable, and behind it stand the given number of
statements that use it. -/
def UsedBehind (cls ident : String) (count : Nat) (stmts : List Stmt) : Prop :=
  ∃ front s rest, stmts = front ++ s :: rest ∧ s.declares ident = true ∧
    rest.countP (Stmt.uses cls ident) = count

section

variable {cls ident : String}

theorem Stmt.unused_of_undeclared {s : Stmt} (h : s.Every (SettlesHere cls ident))
    (hs : s.uses cls ident = false) (hnone : s.Every fun t => t.declares ident = false) :
    s.Every fun t => t.uses cls ident = false := by
  induction s using Stmt.childInduction with
  | step s ih =>
      refine every_iff_lists.mpr ⟨hs, fun t ht => ?_, fun list hlist t ht => ?_⟩
      · have hchild := s.bodies_subset ht
        have hunused := (h.child hchild).here.own (h.here.bodies t ht)
        exact ih t hchild (h.child hchild) hunused (hnone.child hchild)
      · have hchild := list_subset_children hlist
        have hunused := (h.here.lists list hlist).unused
          (fun d hd => (hnone.child (hchild hd)).here) t ht
        exact ih t (hchild ht) (h.child (hchild ht)) hunused (hnone.child (hchild ht))

theorem usesIn_of_undeclared {stmts : List Stmt}
    (h : Stmt.EveryIn (Stmt.SettlesHere cls ident) stmts)
    (hs : ∀ s ∈ stmts, s.uses cls ident = false)
    (hnone : Stmt.EveryIn (fun t => t.declares ident = false) stmts) :
    usesIn cls ident stmts = 0 :=
  usesIn_eq_zero.mpr fun s hmem => Stmt.unused_of_undeclared (h s hmem) (hs s hmem) (hnone s hmem)

theorem usesIn_of_settles {stmts : List Stmt}
    (h : Stmt.EveryIn (Stmt.SettlesHere cls ident) stmts)
    (hnone : Stmt.EveryIn (fun t => t.declares ident = false) stmts) :
    usesIn cls ident stmts = stmts.countP (Stmt.uses cls ident) := by
  induction stmts with
  | nil => rfl
  | cons s rest ih =>
      rw [Stmt.everyIn_cons] at h hnone
      have hself : s.nodes.countP (Stmt.uses cls ident) = [s].countP (Stmt.uses cls ident) := by
        cases hsimple : s.isSimple with
        | true => rw [Stmt.nodes_of_isSimple hsimple]
        | false =>
            have hown := h.1.here.own hsimple
            have hinside := Stmt.unused_of_undeclared h.1 hown hnone.1
            rw [List.countP_eq_zero.mpr fun t ht => by simp [hinside t ht]]
            simp [hown]
      have hrest := ih h.2 hnone.2
      unfold usesIn at hrest ⊢
      rw [List.flatMap_cons, List.countP_append, hrest, hself, ← List.countP_append]
      rfl

theorem exists_countP_flatMap {α β : Type} {f : α → List β} {p : β → Bool} {xs : List α}
    (h : (xs.flatMap f).countP p = 1) :
    ∃ front x rest, xs = front ++ x :: rest ∧ (f x).countP p = 1 ∧
      (front.flatMap f).countP p = 0 ∧ (rest.flatMap f).countP p = 0 := by
  induction xs with
  | nil => exact absurd h (by simp)
  | cons x xs ih =>
      rw [List.flatMap_cons, List.countP_append] at h
      cases hx : (f x).countP p with
      | zero =>
          rcases ih (by omega) with ⟨front, y, rest, rfl, hy, hfront, hrest⟩
          refine ⟨x :: front, y, rest, rfl, hy, ?_, hrest⟩
          rw [List.flatMap_cons, List.countP_append, hx, hfront]
      | succ k => exact ⟨[], x, xs, rfl, by omega, rfl, by omega⟩

section

variable {α β : Type} {f : α → List β} {p q : β → Bool} {xs : List α}

theorem countP_flatMap_eq_zero (hzero : ∀ x ∈ xs, (f x).countP p = 0 → (f x).countP q = 0)
    (h : (xs.flatMap f).countP p = 0) : (xs.flatMap f).countP q = 0 := by
  induction xs with
  | nil => rfl
  | cons x xs ih =>
      rw [List.flatMap_cons, List.countP_append] at h ⊢
      rw [hzero x List.mem_cons_self (by omega),
        ih (fun y hy => hzero y (List.mem_cons_of_mem x hy)) (by omega)]

/-- Elements that are only there together with one of another kind all stand in the part that
has the one of that kind. -/
theorem exists_countP_flatMap_eq (hzero : ∀ x ∈ xs, (f x).countP p = 0 → (f x).countP q = 0)
    (h : (xs.flatMap f).countP p = 1) :
    ∃ x ∈ xs, (f x).countP p = 1 ∧ (xs.flatMap f).countP q = (f x).countP q ∧
      ∀ y ∈ xs.flatMap f, p y = true → y ∈ f x := by
  rcases exists_countP_flatMap h with ⟨front, x, rest, rfl, hx, hfront, hrest⟩
  have hbefore := countP_flatMap_eq_zero
    (fun y hy => hzero y (List.mem_append_left _ hy)) hfront
  have hafter := countP_flatMap_eq_zero
    (fun y hy => hzero y (List.mem_append_right _ (List.mem_cons_of_mem x hy))) hrest
  refine ⟨x, List.mem_append_right _ List.mem_cons_self, hx, ?_, fun y hy hp => ?_⟩
  · rw [List.flatMap_append, List.countP_append, hbefore, List.flatMap_cons, List.countP_append,
      hafter, Nat.zero_add, Nat.add_zero]
  · rw [List.flatMap_append, List.flatMap_cons] at hy
    rcases List.mem_append.mp hy with hy | hy
    · exact absurd hp (List.countP_eq_zero.mp hfront y hy)
    · rcases List.mem_append.mp hy with hy | hy
      · exact hy
      · exact absurd hp (List.countP_eq_zero.mp hrest y hy)

end

theorem everyIn_of_countP {p : Stmt → Bool} {stmts : List Stmt}
    (h : (stmts.flatMap Stmt.nodes).countP p = 0) : Stmt.EveryIn (fun t => p t = false) stmts :=
  fun s hs t ht => by
    simpa using List.countP_eq_zero.mp h t (List.mem_flatMap.mpr ⟨s, hs, ht⟩)

/-- In a settled list with one declaration, all uses follow the declaration: in the list
itself, or in a list inside. -/
theorem Settled.follows {stmts : List Stmt} (hs : Settled cls ident stmts)
    (h : Stmt.EveryIn (Stmt.SettlesHere cls ident) stmts)
    (hone : (stmts.flatMap Stmt.nodes).countP (Stmt.declares ident) = 1)
    (hinside : ∀ s ∈ stmts, s.uses cls ident = false → s.declares ident = false →
      s.nodes.countP (Stmt.declares ident) = 1 →
        ∃ list ∈ s.nestedLists, UsedBehind cls ident (usesIn cls ident [s]) list.2) :
    UsedBehind cls ident (usesIn cls ident stmts) stmts ∨
      ∃ list ∈ Stmt.nestedListsOfAll stmts,
        UsedBehind cls ident (usesIn cls ident stmts) list.2 := by
  rcases exists_countP_flatMap hone with ⟨front, s, rest, rfl, hself, hfront, hrest⟩
  have hfront := everyIn_of_countP hfront
  have hrest := everyIn_of_countP hrest
  rw [Stmt.everyIn_append, Stmt.everyIn_cons] at h
  have hsplit := hs.split fun d hd => (hfront d hd).here
  have hbefore := usesIn_of_undeclared h.1 hsplit.1 hfront
  have hwhole : usesIn cls ident (front ++ s :: rest) =
      usesIn cls ident [s] + usesIn cls ident rest := by
    rw [usesIn_append, hbefore, Nat.zero_add, ← usesIn_append]
    rfl
  cases hd : s.declares ident with
  | true =>
      have hdecl : usesIn cls ident [s] = 0 := by
        refine usesIn_eq_zero.mpr (Stmt.everyIn_singleton.mpr fun t ht => ?_)
        rw [Stmt.nodes_of_isSimple (Stmt.isSimple_of_declares hd)] at ht
        obtain rfl := List.mem_singleton.mp ht
        exact hsplit.2.1
      refine .inl ⟨front, s, rest, rfl, hd, ?_⟩
      rw [hwhole, hdecl, Nat.zero_add, usesIn_of_settles h.2.2 hrest]
  | false =>
      have hsettled := hsplit.2.2.resolve_left (by simp [hd])
      have hafter := usesIn_of_undeclared h.2.2
        (hsettled.unused fun d hd => (hrest d hd).here) hrest
      have hmem : s ∈ front ++ s :: rest := List.mem_append_right _ List.mem_cons_self
      rcases hinside s hmem hsplit.2.1 hd hself with ⟨list, hlist, hfollows⟩
      refine .inr ⟨list, Stmt.nestedLists_subset_all hmem hlist, ?_⟩
      rw [hwhole, hafter, Nat.add_zero]
      exact hfollows

theorem usesIn_singleton (s : Stmt) :
    usesIn cls ident [s] = s.nodes.countP (Stmt.uses cls ident) := by
  unfold usesIn
  rw [List.flatMap_singleton]

namespace Stmt

theorem unused_body {s : Stmt} (h : s.Every (SettlesHere cls ident)) :
    ∀ t ∈ s.bodies, t.uses cls ident = false := fun t ht =>
  (h.child (s.bodies_subset ht)).here.own (h.here.bodies t ht)

theorem countP_uses_body {s : Stmt} (h : s.Every (SettlesHere cls ident)) :
    ∀ t ∈ s.bodies, t.nodes.countP (declares ident) = 0 → t.nodes.countP (uses cls ident) = 0 := by
  intro t ht hnone
  have hundeclared : t.Every fun t => t.declares ident = false :=
    everyIn_singleton.mp (everyIn_of_countP (by rwa [List.flatMap_singleton]))
  have hunused := unused_of_undeclared (h.child (s.bodies_subset ht)) (unused_body h t ht)
    hundeclared
  rw [← usesIn_singleton]
  exact usesIn_eq_zero.mpr (everyIn_singleton.mpr hunused)

theorem countP_uses_list {s : Stmt} (h : s.Every (SettlesHere cls ident)) :
    ∀ list ∈ s.lists, (list.flatMap nodes).countP (declares ident) = 0 →
      (list.flatMap nodes).countP (uses cls ident) = 0 := by
  intro list hl hnone
  have hundeclared := everyIn_of_countP hnone
  exact usesIn_of_undeclared (fun t ht => h.child (list_subset_children hl ht))
    ((h.here.lists list hl).unused fun d hd => (hundeclared d hd).here) hundeclared

theorem exists_follows {s : Stmt} (h : s.Every (SettlesHere cls ident))
    (hs : s.uses cls ident = false) (hd : s.declares ident = false)
    (hone : s.nodes.countP (declares ident) = 1) :
    ∃ list ∈ s.nestedLists, UsedBehind cls ident (usesIn cls ident [s]) list.2 := by
  induction s using childInduction with
  | step s ih =>
      have hself : usesIn cls ident [s] = (s.bodies.flatMap nodes).countP (uses cls ident) +
          (s.lists.flatMap fun list => list.flatMap nodes).countP (uses cls ident) := by
        rw [usesIn_singleton, nodes_eq_lists, List.countP_cons_of_neg (by simp [hs]),
          List.countP_append]
      rw [nodes_eq_lists, List.countP_cons_of_neg (by simp [hd]), List.countP_append] at hone
      rw [hself]
      rcases Nat.eq_zero_or_pos ((s.bodies.flatMap nodes).countP (declares ident)) with hzero | hpos
      · -- the declaration stands in a list of the statement
        rw [hzero, Nat.zero_add] at hone
        rcases exists_countP_flatMap_eq (countP_uses_list h) hone with ⟨list, hl, hin, huses, _⟩
        have hsub := list_subset_children hl
        rcases nestedLists_of_list hl with ⟨role, hnested⟩
        rw [countP_flatMap_eq_zero (countP_uses_body h) hzero, huses, Nat.zero_add]
        rcases (h.here.lists list hl).follows (fun t ht => h.child (hsub ht)) hin
          fun t ht hunused hdt => ih t (hsub ht) (h.child (hsub ht)) hunused hdt with
          hfollows | ⟨inner, hinner, hfollows⟩
        · exact ⟨(role, list), hnested List.mem_cons_self, hfollows⟩
        · exact ⟨inner, hnested (List.mem_cons_of_mem _ hinner), hfollows⟩
      · -- the declaration stands in a body that is no list
        have hzero :
            (s.lists.flatMap fun list => list.flatMap nodes).countP (declares ident) = 0 := by
          omega
        rw [hzero, Nat.add_zero] at hone
        rcases exists_countP_flatMap_eq (countP_uses_body h) hone with ⟨t, ht, hin, huses, _⟩
        have hdeclares : t.declares ident = false := by
          cases hdt : t.declares ident with
          | false => rfl
          | true => exact absurd (isSimple_of_declares hdt) (by simp [h.here.bodies t ht])
        have hchild := s.bodies_subset ht
        rcases ih t hchild (h.child hchild) (unused_body h t ht) hdeclares hin with
          ⟨list, hl, hfollows⟩
        rw [usesIn_singleton] at hfollows
        rw [countP_flatMap_eq_zero (countP_uses_list h) hzero, huses, Nat.add_zero]
        exact ⟨list, nestedLists_of_body ht hl, hfollows⟩

end Stmt

/-- In a settled body that declares the variable once, all uses follow the declaration in the
list that it stands in. -/
theorem Settled.exists_follows {stmts : List Stmt} (hs : Settled cls ident stmts)
    (h : Stmt.EveryIn (Stmt.SettlesHere cls ident) stmts)
    (hone : (stmts.flatMap Stmt.nodes).countP (Stmt.declares ident) = 1) :
    ∃ list ∈ listsOf stmts, UsedBehind cls ident (usesIn cls ident stmts) list.2 := by
  rcases hs.follows h hone fun s hs hunused hd => Stmt.exists_follows (h s hs) hunused hd with
    hfollows | ⟨list, hlist, hfollows⟩
  · exact ⟨(.block, stmts), List.mem_cons_self, hfollows⟩
  · exact ⟨list, List.mem_cons_of_mem _ hlist, hfollows⟩

end

end Code
end TraceWeaving
