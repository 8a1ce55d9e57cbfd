import TraceWeaving.Code.Basic

/-!
# Nodes of a tree

The expressions inside an expression and the statements inside a statement, one level
down and at any depth.  Conditions on code are stated about all nodes; proofs go down
from a node to its children.
-/

namespace TraceWeaving
namespace Code

/-! ## Expressions -/

namespace Expr

def children : Expr → List Expr
  | lit _ | name _ | self => []
  | field target _ => [target]
  | index target position => [target, position]
  | assign _ target value => [target, value]
  | unary _ operand => [operand]
  | binary _ left right => [left, right]
  | conditional cond ifTrue ifFalse => [cond, ifTrue, ifFalse]
  | call receiver _ args => receiver.toList ++ args
  | new _ args | newArray _ args | superCall args | selfCall args => args

mutual

def inner : Expr → List Expr
  | lit _ | name _ | self => []
  | field target _ => target :: inner target
  | index target position => target :: inner target ++ position :: inner position
  | assign _ target value => target :: inner target ++ value :: inner value
  | unary _ operand => operand :: inner operand
  | binary _ left right => left :: inner left ++ right :: inner right
  | conditional cond ifTrue ifFalse =>
      cond :: inner cond ++ (ifTrue :: inner ifTrue ++ ifFalse :: inner ifFalse)
  | call receiver _ args => nodesOfReceiver receiver ++ nodesOfAll args
  | new _ args | newArray _ args | superCall args | selfCall args => nodesOfAll args

def nodesOfReceiver : Option Expr → List Expr
  | some e => e :: inner e
  | none => []

def nodesOfAll : List Expr → List Expr
  | [] => []
  | e :: rest => e :: inner e ++ nodesOfAll rest

end

def nodes (e : Expr) : List Expr :=
  e :: e.inner

theorem nodesOfAll_eq (es : List Expr) : nodesOfAll es = es.flatMap nodes := by
  induction es with
  | nil => rfl
  | cons e es ih =>
      rw [nodesOfAll, ih]
      rfl

theorem nodesOfReceiver_eq (receiver : Option Expr) :
    nodesOfReceiver receiver = receiver.toList.flatMap nodes := by
  cases receiver with
  | none => rfl
  | some e =>
      rw [nodesOfReceiver]
      exact (List.append_nil _).symm

theorem inner_eq (e : Expr) : e.inner = e.children.flatMap nodes := by
  cases e <;>
    simp [inner, children, nodes, nodesOfAll_eq, nodesOfReceiver_eq, List.flatMap_cons]

theorem mem_nodes_self (e : Expr) : e ∈ e.nodes :=
  List.mem_cons_self

theorem nodes_subset_of_mem_children {e e' : Expr} (h : e' ∈ e.children) :
    e'.nodes ⊆ e.nodes := by
  intro x hx
  unfold nodes
  rw [inner_eq]
  exact List.mem_cons_of_mem e (List.mem_flatMap.mpr ⟨e', h, hx⟩)

theorem sizeOf_lt_of_mem_children {e e' : Expr} (h : e' ∈ e.children) :
    sizeOf e' < sizeOf e := by
  cases e with
  | lit _ | name _ | self => simp [children] at h
  | field _ _ | unary _ _ =>
      simp only [children, List.mem_singleton] at h
      subst h
      simp +arith
  | index _ _ | assign _ _ _ | binary _ _ _ =>
      simp only [children, List.mem_cons, List.not_mem_nil, or_false] at h
      rcases h with rfl | rfl <;> simp +arith
  | conditional _ _ _ =>
      simp only [children, List.mem_cons, List.not_mem_nil, or_false] at h
      rcases h with rfl | rfl | rfl <;> simp +arith
  | call receiver _ args =>
      rcases List.mem_append.mp h with hr | ha
      · cases receiver with
        | none => simp at hr
        | some r =>
            simp only [Option.toList_some, List.mem_singleton] at hr
            subst hr
            simp +arith
      · have := List.sizeOf_lt_of_mem ha
        simp
        omega
  | new _ args | newArray _ args | superCall args | selfCall args =>
      have : sizeOf e' < sizeOf args := List.sizeOf_lt_of_mem h
      simp
      omega

theorem childInduction {motive : Expr → Prop}
    (step : ∀ e, (∀ e' ∈ e.children, motive e') → motive e) (e : Expr) : motive e :=
  step e fun e' _ => childInduction step e'
termination_by sizeOf e
decreasing_by
  rename_i h
  exact sizeOf_lt_of_mem_children h

def Every (q : Expr → Prop) (e : Expr) : Prop :=
  ∀ e' ∈ e.nodes, q e'

instance (q : Expr → Prop) [DecidablePred q] (e : Expr) : Decidable (e.Every q) :=
  inferInstanceAs (Decidable (∀ e' ∈ e.nodes, q e'))

theorem Every.here {q : Expr → Prop} {e : Expr} (h : e.Every q) : q e :=
  h e (mem_nodes_self e)

theorem Every.child {q : Expr → Prop} {e e' : Expr} (h : e.Every q) (he : e' ∈ e.children) :
    e'.Every q :=
  fun x hx => h x (nodes_subset_of_mem_children he hx)

theorem every_iff {q : Expr → Prop} {e : Expr} :
    e.Every q ↔ q e ∧ ∀ e' ∈ e.children, e'.Every q := by
  constructor
  · exact fun h => ⟨h.here, fun e' he => h.child he⟩
  · rintro ⟨hq, hc⟩ x hx
    unfold nodes at hx
    rw [inner_eq] at hx
    rcases List.mem_cons.mp hx with rfl | hx
    · exact hq
    · rcases List.mem_flatMap.mp hx with ⟨e', he', hx⟩
      exact hc e' he' x hx

end Expr

/-! ## Statements -/

def ForInit.operands : ForInit → List Expr
  | .exprs es => es
  | .decl _ _ init => [init]

namespace Stmt

def ownExprs : Stmt → List Expr
  | decl _ _ init => init.toList
  | expr e => [e]
  | ifElse cond _ _ => [cond]
  | whileLoop cond _ => [cond]
  | doWhile _ cond => [cond]
  | forLoop init cond update _ => init.operands ++ cond.toList ++ update
  | forEach _ _ items _ => [items]
  | switch selector _ => [selector]
  | ret value => value.toList
  | raise value => [value]
  | sync lock _ => [lock]
  | block _ | labeled _ _ | breakTo _ | continueTo _ | tryCatch _ _ _ | unmodelled _ => []

def children : Stmt → List Stmt
  | block stmts => stmts
  | ifElse _ ifTrue ifFalse => ifTrue :: ifFalse.toList
  | whileLoop _ body | doWhile body _ | forLoop _ _ _ body | forEach _ _ _ body
  | labeled _ body => [body]
  | switch _ cases => cases.flatMap SwitchCase.body
  | tryCatch body catches cleanup => body ++ catches.flatMap CatchClause.body ++ cleanup.getD []
  | sync _ body => body
  | decl _ _ _ | expr _ | breakTo _ | continueTo _ | ret _ | raise _ | unmodelled _ => []

mutual

def inner : Stmt → List Stmt
  | block stmts => nodesOfAll stmts
  | ifElse _ ifTrue ifFalse => ifTrue :: inner ifTrue ++ nodesOfElse ifFalse
  | whileLoop _ body | doWhile body _ | forLoop _ _ _ body | forEach _ _ _ body
  | labeled _ body => body :: inner body
  | switch _ cases => nodesOfCases cases
  | tryCatch body catches cleanup =>
      nodesOfAll body ++ nodesOfCatches catches ++ nodesOfCleanup cleanup
  | sync _ body => nodesOfAll body
  | decl _ _ _ | expr _ | breakTo _ | continueTo _ | ret _ | raise _ | unmodelled _ => []

def nodesOfAll : List Stmt → List Stmt
  | [] => []
  | s :: rest => s :: inner s ++ nodesOfAll rest

def nodesOfElse : Option Stmt → List Stmt
  | some s => s :: inner s
  | none => []

def nodesOfCases : List SwitchCase → List Stmt
  | [] => []
  | .mk _ body :: rest => nodesOfAll body ++ nodesOfCases rest

def nodesOfCatches : List CatchClause → List Stmt
  | [] => []
  | .mk _ _ body :: rest => nodesOfAll body ++ nodesOfCatches rest

def nodesOfCleanup : Option (List Stmt) → List Stmt
  | some stmts => nodesOfAll stmts
  | none => []

end

def nodes (s : Stmt) : List Stmt :=
  s :: s.inner

theorem nodesOfAll_eq (stmts : List Stmt) : nodesOfAll stmts = stmts.flatMap nodes := by
  induction stmts with
  | nil => rfl
  | cons s stmts ih =>
      rw [nodesOfAll, ih]
      rfl

theorem nodesOfElse_eq (s : Option Stmt) : nodesOfElse s = s.toList.flatMap nodes := by
  cases s with
  | none => rfl
  | some s =>
      rw [nodesOfElse]
      exact (List.append_nil _).symm

theorem nodesOfCases_eq (cases : List SwitchCase) :
    nodesOfCases cases = (cases.flatMap SwitchCase.body).flatMap nodes := by
  induction cases with
  | nil => rfl
  | cons c rest ih =>
      cases c
      rw [nodesOfCases, ih, nodesOfAll_eq, List.flatMap_cons, List.flatMap_append]
      rfl

theorem nodesOfCatches_eq (catches : List CatchClause) :
    nodesOfCatches catches = (catches.flatMap CatchClause.body).flatMap nodes := by
  induction catches with
  | nil => rfl
  | cons c rest ih =>
      cases c
      rw [nodesOfCatches, ih, nodesOfAll_eq, List.flatMap_cons, List.flatMap_append]
      rfl

theorem nodesOfCleanup_eq (cleanup : Option (List Stmt)) :
    nodesOfCleanup cleanup = (cleanup.getD []).flatMap nodes := by
  cases cleanup with
  | none => rfl
  | some stmts => exact nodesOfAll_eq stmts

theorem inner_eq (s : Stmt) : s.inner = s.children.flatMap nodes := by
  cases s <;>
    simp [inner, children, nodes, nodesOfAll_eq, nodesOfElse_eq, nodesOfCases_eq,
      nodesOfCatches_eq, nodesOfCleanup_eq, List.flatMap_append]

theorem mem_nodes_self (s : Stmt) : s ∈ s.nodes :=
  List.mem_cons_self

theorem nodes_subset_of_mem_children {s t : Stmt} (h : t ∈ s.children) : t.nodes ⊆ s.nodes := by
  intro x hx
  unfold nodes
  rw [inner_eq]
  exact List.mem_cons_of_mem s (List.mem_flatMap.mpr ⟨t, h, hx⟩)

theorem sizeOf_lt_of_mem_cases {cases : List SwitchCase} {t : Stmt}
    (h : t ∈ cases.flatMap SwitchCase.body) : sizeOf t < sizeOf cases := by
  rcases List.mem_flatMap.mp h with ⟨c, hc, ht⟩
  have hcase := List.sizeOf_lt_of_mem hc
  cases c with
  | mk labels body =>
      have hstmt : sizeOf t < sizeOf body := List.sizeOf_lt_of_mem ht
      simp at hcase
      omega

theorem sizeOf_lt_of_mem_catches {catches : List CatchClause} {t : Stmt}
    (h : t ∈ catches.flatMap CatchClause.body) : sizeOf t < sizeOf catches := by
  rcases List.mem_flatMap.mp h with ⟨c, hc, ht⟩
  have hclause := List.sizeOf_lt_of_mem hc
  cases c with
  | mk type ident body =>
      have hstmt : sizeOf t < sizeOf body := List.sizeOf_lt_of_mem ht
      simp at hclause
      omega

theorem sizeOf_lt_of_mem_children {s t : Stmt} (h : t ∈ s.children) : sizeOf t < sizeOf s := by
  cases s with
  | block stmts =>
      have : sizeOf t < sizeOf stmts := List.sizeOf_lt_of_mem h
      simp
      omega
  | sync _ body =>
      have : sizeOf t < sizeOf body := List.sizeOf_lt_of_mem h
      simp
      omega
  | ifElse _ ifTrue ifFalse =>
      rcases List.mem_cons.mp h with rfl | h
      · simp +arith
      · cases ifFalse with
        | none => simp at h
        | some s =>
            simp only [Option.toList_some, List.mem_singleton] at h
            subst h
            simp +arith
  | whileLoop _ _ | doWhile _ _ | forLoop _ _ _ _ | forEach _ _ _ _ | labeled _ _ =>
      simp only [children, List.mem_singleton] at h
      subst h
      simp +arith
  | switch _ cases =>
      have := sizeOf_lt_of_mem_cases h
      simp
      omega
  | tryCatch body catches cleanup =>
      simp only [children, List.mem_append] at h
      rcases h with (h | h) | h
      · have := List.sizeOf_lt_of_mem h
        simp
        omega
      · have := sizeOf_lt_of_mem_catches h
        simp
        omega
      · cases cleanup with
        | none => simp at h
        | some stmts =>
            have : sizeOf t < sizeOf stmts := List.sizeOf_lt_of_mem h
            simp
            omega
  | decl _ _ _ | expr _ | breakTo _ | continueTo _ | ret _ | raise _ | unmodelled _ =>
      simp [children] at h

theorem childInduction {motive : Stmt → Prop}
    (step : ∀ s, (∀ t ∈ s.children, motive t) → motive s) (s : Stmt) : motive s :=
  step s fun t _ => childInduction step t
termination_by sizeOf s
decreasing_by
  rename_i h
  exact sizeOf_lt_of_mem_children h

def Every (q : Stmt → Prop) (s : Stmt) : Prop :=
  ∀ t ∈ s.nodes, q t

instance (q : Stmt → Prop) [DecidablePred q] (s : Stmt) : Decidable (s.Every q) :=
  inferInstanceAs (Decidable (∀ t ∈ s.nodes, q t))

theorem Every.here {q : Stmt → Prop} {s : Stmt} (h : s.Every q) : q s :=
  h s (mem_nodes_self s)

theorem Every.child {q : Stmt → Prop} {s t : Stmt} (h : s.Every q) (ht : t ∈ s.children) :
    t.Every q :=
  fun x hx => h x (nodes_subset_of_mem_children ht hx)

theorem every_iff {q : Stmt → Prop} {s : Stmt} :
    s.Every q ↔ q s ∧ ∀ t ∈ s.children, t.Every q := by
  constructor
  · exact fun h => ⟨h.here, fun t ht => h.child ht⟩
  · rintro ⟨hq, hc⟩ x hx
    unfold nodes at hx
    rw [inner_eq] at hx
    rcases List.mem_cons.mp hx with rfl | hx
    · exact hq
    · rcases List.mem_flatMap.mp hx with ⟨t, ht, hx⟩
      exact hc t ht x hx

def EveryIn (q : Stmt → Prop) (stmts : List Stmt) : Prop :=
  ∀ s ∈ stmts, s.Every q

instance (q : Stmt → Prop) [DecidablePred q] (stmts : List Stmt) : Decidable (EveryIn q stmts) :=
  inferInstanceAs (Decidable (∀ s ∈ stmts, s.Every q))

section

variable {q : Stmt → Prop}

@[simp]
theorem everyIn_nil : EveryIn q [] :=
  fun _ h => absurd h List.not_mem_nil

@[simp]
theorem everyIn_cons {s : Stmt} {rest : List Stmt} :
    EveryIn q (s :: rest) ↔ s.Every q ∧ EveryIn q rest :=
  List.forall_mem_cons

@[simp]
theorem everyIn_append {xs ys : List Stmt} :
    EveryIn q (xs ++ ys) ↔ EveryIn q xs ∧ EveryIn q ys :=
  List.forall_mem_append

theorem everyIn_singleton {s : Stmt} : EveryIn q [s] ↔ s.Every q := by
  simp

theorem every_block {stmts : List Stmt} :
    (block stmts).Every q ↔ q (block stmts) ∧ EveryIn q stmts :=
  every_iff

theorem every_ifElse {cond : Expr} {ifTrue : Stmt} {ifFalse : Option Stmt} :
    (ifElse cond ifTrue ifFalse).Every q ↔
      q (ifElse cond ifTrue ifFalse) ∧ ifTrue.Every q ∧ ∀ s ∈ ifFalse, s.Every q := by
  rw [every_iff]
  simp [children]

theorem every_whileLoop {cond : Expr} {body : Stmt} :
    (whileLoop cond body).Every q ↔ q (whileLoop cond body) ∧ body.Every q := by
  rw [every_iff]
  simp [children]

theorem every_doWhile {cond : Expr} {body : Stmt} :
    (doWhile body cond).Every q ↔ q (doWhile body cond) ∧ body.Every q := by
  rw [every_iff]
  simp [children]

theorem every_forLoop {init : ForInit} {cond : Option Expr} {update : List Expr} {body : Stmt} :
    (forLoop init cond update body).Every q ↔
      q (forLoop init cond update body) ∧ body.Every q := by
  rw [every_iff]
  simp [children]

theorem every_forEach {type : TypeName} {ident : String} {items : Expr} {body : Stmt} :
    (forEach type ident items body).Every q ↔
      q (forEach type ident items body) ∧ body.Every q := by
  rw [every_iff]
  simp [children]

theorem every_labeled {label : String} {body : Stmt} :
    (labeled label body).Every q ↔ q (labeled label body) ∧ body.Every q := by
  rw [every_iff]
  simp [children]

theorem every_tryCatch {body : List Stmt} {catches : List CatchClause}
    {cleanup : Option (List Stmt)} :
    (tryCatch body catches cleanup).Every q ↔
      q (tryCatch body catches cleanup) ∧ EveryIn q body ∧
        (∀ c ∈ catches, EveryIn q c.body) ∧ ∀ stmts ∈ cleanup, EveryIn q stmts := by
  rw [every_iff]
  cases cleanup <;> simp only [children, List.mem_append, List.mem_flatMap, EveryIn] <;> grind

theorem every_sync {lock : Expr} {body : List Stmt} :
    (sync lock body).Every q ↔ q (sync lock body) ∧ EveryIn q body :=
  every_iff

theorem every_leaf {s : Stmt} (hs : s.children = []) : s.Every q ↔ q s := by
  rw [every_iff, hs]
  simp

end

/-! ### The statement itself -/

/-- The statement without the statements inside it. -/
def head : Stmt → Stmt
  | block _ => block []
  | ifElse cond _ _ => ifElse cond (block []) none
  | whileLoop cond _ => whileLoop cond (block [])
  | doWhile _ cond => doWhile (block []) cond
  | forLoop init cond update _ => forLoop init cond update (block [])
  | forEach type ident items _ => forEach type ident items (block [])
  | labeled label _ => labeled label (block [])
  | switch selector _ => switch selector []
  | tryCatch _ _ _ => tryCatch [] [] none
  | sync lock _ => sync lock []
  | decl type ident init => decl type ident init
  | expr e => expr e
  | breakTo label => breakTo label
  | continueTo label => continueTo label
  | ret value => ret value
  | raise value => raise value
  | unmodelled text => unmodelled text

/-- The statements right inside a statement that do not stand in a list. -/
def bodies : Stmt → List Stmt
  | ifElse _ ifTrue ifFalse => ifTrue :: ifFalse.toList
  | whileLoop _ body | doWhile body _ | forLoop _ _ _ body | forEach _ _ _ body
  | labeled _ body => [body]
  | _ => []

theorem bodies_subset (s : Stmt) : s.bodies ⊆ s.children := by
  cases s <;> simp [bodies, children]

theorem ownExprs_head (s : Stmt) : s.head.ownExprs = s.ownExprs := by
  cases s <;> rfl

theorem ownExprs_of_head {s t : Stmt} (h : t.head = s.head) : t.ownExprs = s.ownExprs := by
  rw [← t.ownExprs_head, h, s.ownExprs_head]

/-- The expressions that stand in a statement itself satisfy a condition. -/
def HoldsHere (q : Expr → Prop) (s : Stmt) : Prop :=
  ∀ e ∈ s.ownExprs, q e

instance (q : Expr → Prop) [DecidablePred q] : DecidablePred (HoldsHere q) :=
  fun s => inferInstanceAs (Decidable (∀ e ∈ s.ownExprs, q e))

theorem Every.mono {q q' : Stmt → Prop} (himp : ∀ s, q s → q' s) {s : Stmt} (h : s.Every q) :
    s.Every q' :=
  fun t ht => himp t (h t ht)

end Stmt

/-! ## Calls on a class -/

def Expr.isCallOn (cls : String) : Expr → Bool
  | .call (some (.name receiver)) _ _ => receiver = cls
  | _ => false

def Expr.Avoids (cls : String) : Expr → Prop :=
  Every fun e => e.isCallOn cls = false

instance (cls : String) : DecidablePred (Expr.Avoids cls) :=
  fun e => inferInstanceAs (Decidable (e.Every fun e => e.isCallOn cls = false))

/-- Nothing in the unit is a call on the class. -/
def CompilationUnit.Avoids (cls : String) (u : CompilationUnit) : Prop :=
  ∀ c ∈ u.classes,
    (∀ f ∈ c.fields, ∀ e ∈ f.init.toList, e.Avoids cls) ∧
    ∀ m ∈ c.methods, ∀ body ∈ m.body.toList,
      Stmt.EveryIn (Stmt.HoldsHere (Expr.Avoids cls)) body

instance (cls : String) (u : CompilationUnit) : Decidable (u.Avoids cls) :=
  inferInstanceAs (Decidable (∀ c ∈ u.classes,
    (∀ f ∈ c.fields, ∀ e ∈ f.init.toList, e.Avoids cls) ∧
    ∀ m ∈ c.methods, ∀ body ∈ m.body.toList,
      Stmt.EveryIn (Stmt.HoldsHere (Expr.Avoids cls)) body))

def CompilationUnit.EveryBody (q : MethodDecl → List Stmt → Prop) (u : CompilationUnit) : Prop :=
  ∀ c ∈ u.classes, ∀ m ∈ c.methods, ∀ body ∈ m.body.toList, q m body

instance (q : MethodDecl → List Stmt → Prop) [∀ m body, Decidable (q m body)]
    (u : CompilationUnit) : Decidable (u.EveryBody q) :=
  inferInstanceAs (Decidable (∀ c ∈ u.classes, ∀ m ∈ c.methods, ∀ body ∈ m.body.toList, q m body))

end Code
end TraceWeaving
