import TraceWeaving.Proofs.Eval.View

/-!
# Properties that every rule of evaluation keeps

A rule of evaluation puts together what it is given: results of other evaluations,
looks at the state, and a few changes of the state.  A property of actions that is
closed under these compositions therefore holds of a rule as soon as it holds of the
evaluations the rule asks for.

The property is one of families of actions.  A family with one member gives facts about
a single run, a family with two members compares two evaluators, and a family over all
bounds speaks about the limit of an evaluator.
-/

namespace TraceWeaving

namespace Code.Expr

def placeOperands : Expr → List Expr
  | field owner _ => [owner]
  | index target position => [target, position]
  | _ => []

def operands : Expr → List Expr
  | lit _ | name _ | self => []
  | field target _ => [target]
  | index target position => [target, position]
  | assign _ target value => target.placeOperands ++ [value]
  | unary op operand => if op.isMutating then operand.placeOperands else [operand]
  | binary _ left right => [left, right]
  | conditional cond ifTrue ifFalse => [cond, ifTrue, ifFalse]
  | call receiver _ args => receiver.toList ++ args
  | new _ args | newArray _ args | superCall args | selfCall args => args

/-- Whether an evaluation may end with a change of the heap. -/
def changesHeap : Expr → Bool
  | assign _ _ _ | newArray _ _ => true
  | unary op _ => op.isMutating
  | _ => false

end Code.Expr

namespace Eval

open Code
open Trace (Throwable)

/-- A property of families of actions that composition keeps, and work that changes neither
variables nor fields. -/
structure ClosedCore {ι : Type} (P : ∀ {α : Type}, (ι → Action α) → Prop) : Prop where
  look : ∀ {α : Type} (g : View → α), P fun _ => Action.look g
  raise : ∀ {α : Type} (t : Throwable), P fun _ => (Action.raiseValue t : Action α)
  fail : ∀ {α : Type} (f : Fault), P fun _ => (Action.fail f : Action α)
  exhausted : ∀ {α : Type}, P fun _ => (Action.exhausted : Action α)
  andThen : ∀ {α β : Type} {x : ι → Action α} {f : ι → α → Action β}
    {g : ι → Throwable → Action β},
    P x → (∀ a, P fun i => f i a) → (∀ t, P fun i => g i t) →
      P fun i => (x i).andThen (f i) (g i)
  inScope : ∀ {α : Type} {x : ι → Action α}, P x → P fun i => Action.inScope (x i)
  invoking : ∀ (cls method : String),
    P fun _ => Action.modify fun s =>
      { s with recorder := s.recorder.keepInvoking cls method }
  advance : ∀ (millis : Nat),
    P fun _ => Action.modify fun s => { s with recorder := s.recorder.advance millis }

/-- A property of families of actions that composition and the elementary changes of
the state keep, inside one frame.  Changes of the heap and reports to the recorder are left
to the rules that make them. -/
structure ClosedHere {ι : Type} (P : ∀ {α : Type}, (ι → Action α) → Prop) : Prop
    extends ClosedCore P where
  assign : ∀ (name : String) (value : Value), P fun _ => Place.write (.named name) value
  setField : ∀ (cls name : String) (value : Value),
    P fun _ => Action.modify fun s => s.setField cls name value
  openNew : ∀ (cls : String), P fun _ => Action.openNew cls

structure Closed {ι : Type} (P : ∀ {α : Type}, (ι → Action α) → Prop) : Prop
    extends ClosedHere P where
  inFrame : ∀ {α : Type} {x : ι → Action α} (frame : Frame),
    P x → P fun i => Action.inFrame frame (x i)

structure ClosedStmtCore {ι : Type} (P : ∀ {α : Type}, (ι → Action α) → Prop) : Prop
    extends ClosedCore P where
  declare : ∀ (name : String) (value : Value),
    P fun _ => Action.modify fun s => s.declare name value

structure ClosedStmtHere {ι : Type} (P : ∀ {α : Type}, (ι → Action α) → Prop) : Prop
    extends ClosedHere P, ClosedStmtCore P

structure ClosedStmt {ι : Type} (P : ∀ {α : Type}, (ι → Action α) → Prop) : Prop
    extends Closed P, ClosedStmtHere P

/-- A property of what ends with a change of the heap.  It may say less than the closed
property that holds of everything before that change. -/
structure Finish {ι : Type} (P P₀ : ∀ {α : Type}, (ι → Action α) → Prop) : Prop where
  of : ∀ {α : Type} {x : ι → Action α}, P x → P₀ x
  bind : ∀ {α β : Type} {x : ι → Action α} {f : ι → α → Action β},
    P x → (∀ a, P₀ fun i => f i a) → P₀ fun i => x i >>= f i
  store : ∀ (address index : Nat) (value result : Value),
    P₀ fun _ => Place.write (.element address index) value >>= fun _ => Pure.pure result
  allocate : ∀ items : Array Value, P₀ fun _ => Action.allocate items

namespace ClosedCore

variable {ι : Type} {P : ∀ {α : Type}, (ι → Action α) → Prop} (h : ClosedCore P)
variable {α β : Type}

include h

theorem pure (a : α) : P fun _ => (Pure.pure a : Action α) :=
  h.look fun _ => a

theorem bind {x : ι → Action α} {f : ι → α → Action β} (hx : P x)
    (hf : ∀ a, P fun i => f i a) : P fun i => x i >>= f i := by
  simp only [Action.bind_eq_andThen]
  exact h.andThen hx hf fun t => h.raise t

/-- A closed property that changes of the heap keep says nothing less at the end. -/
theorem finish
    (hstore : ∀ address index value, P fun _ => Place.write (.element address index) value)
    (hallocate : ∀ items, P fun _ => Action.allocate items) : Finish P P where
  of hx := hx
  bind hx hf := h.bind hx hf
  store address index value result := h.bind (hstore address index value) fun _ => h.pure result
  allocate := hallocate

theorem lookThen {g : View → α} {f : ι → α → Action β} (hf : ∀ v, P fun i => f i (g v)) :
    P fun i => Action.look g >>= f i :=
  h.bind (h.look id) (f := fun i v => f i (g v)) hf

theorem ownClass {f : ι → String → Action β} (hf : ∀ cls, P fun i => f i cls) :
    P fun i => Action.state >>= fun s => f i s.frame.cls := by
  have hlook : P fun i => Action.look (fun v => v.cls) >>= f i := h.bind (h.look _) hf
  exact hlook

theorem orFail (f : Fault) (a : Option α) : P fun _ => Action.orFail f a := by
  cases a with
  | none => exact h.fail f
  | some a => exact h.pure a

theorem orDiverge (a : Option α) : P fun _ => Action.orDiverge a := by
  cases a with
  | none => exact h.exhausted
  | some a => exact h.pure a

theorem raiseNew (cls message : String) : P fun _ => (Action.raise cls message : Action α) :=
  h.raise ⟨cls, some message⟩

/-! ## Values -/

theorem snapshot (v : Value) : P fun _ => v.snapshot := by
  simp only [snapshot_eq]
  exact h.bind (h.look _) fun a => h.orDiverge a

theorem text (v : Value) : P fun _ => v.text :=
  h.bind (h.snapshot v) fun a => h.pure a.text

theorem equals (a b : Value) : P fun _ => a.equals b := by
  simp only [equals_eq]
  exact h.bind (h.look _) fun a => h.orDiverge a

theorem applyToInts (op : BinaryOp) (a b : Int64) : P fun _ => applyToInts op a b := by
  cases op <;> simp only [Eval.applyToInts]
  case div | rem =>
    split
    · exact h.raiseNew _ _
    · exact h.pure _
  case and | or => exact h.fail _
  all_goals exact h.pure _

theorem concatenate (a b : Value) : P fun _ => concatenate a b :=
  h.bind (h.text a) fun _ => h.bind (h.text b) fun _ => h.pure _

theorem applyBinary (op : BinaryOp) (a b : Value) : P fun _ => applyBinary op a b := by
  unfold Eval.applyBinary
  split
  · exact h.concatenate _ _
  · exact h.concatenate _ _
  · exact h.bind (h.equals _ _) fun _ => h.pure _
  · exact h.bind (h.equals _ _) fun _ => h.pure _
  · exact h.applyToInts _ _ _
  · exact h.fail _

/-! ## Operands -/

variable {r : ι → Evaluator}

theorem evalAll {es : List Expr} (he : ∀ e ∈ es, P fun i => (r i).eval e) :
    P fun i => (r i).evalAll es := by
  induction es with
  | nil => exact h.pure []
  | cons e es ih =>
      have hrest := ih fun e' he' => he e' (List.mem_cons_of_mem e he')
      exact h.bind (he e List.mem_cons_self) fun value =>
        h.bind hrest fun values => h.pure (value :: values)

theorem evalEach {es : List Expr} (he : ∀ e ∈ es, P fun i => (r i).eval e) :
    P fun i => (r i).evalEach es := by
  induction es with
  | nil => exact h.pure ()
  | cons e es ih =>
      have hrest := ih fun e' he' => he e' (List.mem_cons_of_mem e he')
      exact h.bind (he e List.mem_cons_self) fun _ => hrest

theorem evalBool {e : Expr} (he : P fun i => (r i).eval e) (operation : String) :
    P fun i => (r i).evalBool e operation := by
  refine h.bind he fun value => ?_
  cases value with
  | bool b => exact h.pure b
  | null | int _ | str _ | array _ | object _ | throwable _ => exact h.fail _

theorem evalInt {e : Expr} (he : P fun i => (r i).eval e) (operation : String) :
    P fun i => (r i).evalInt e operation := by
  refine h.bind he fun value => ?_
  cases value with
  | int n => exact h.pure n
  | null | bool _ | str _ | array _ | object _ | throwable _ => exact h.fail _

theorem evalArray {e : Expr} (he : P fun i => (r i).eval e) :
    P fun i => (r i).evalArray e := by
  refine h.bind he fun value => ?_
  cases value with
  | array address => exact h.pure address
  | null => exact h.raiseNew _ _
  | int _ | bool _ | str _ | object _ | throwable _ => exact h.fail _

theorem evalInit {init : Option Expr} (he : ∀ e ∈ init, P fun i => (r i).eval e)
    (type : TypeName) : P fun i => (r i).evalInit type init := by
  cases init with
  | none => exact h.pure _
  | some e => exact he e rfl

/-! ## Classes and calls -/

theorem resultOf (flow : Flow) : P fun _ => resultOf flow := by
  cases flow with
  | normal => exact h.pure _
  | returned value => exact h.pure value
  | broke _ | continued _ => exact h.fail _

theorem checkStack (c : ClassDecl) (m : MethodDecl) : P fun _ => checkStack c m := by
  simp only [checkStack_eq]
  refine h.bind (h.look _) fun depth => ?_
  by_cases hd : maxCallers ≤ depth
  · simp only [hd, if_true]
    exact h.raiseNew _ _
  · simp only [hd, if_false]
    exact h.pure ()

theorem execAll {stmts : List Stmt} (hx : ∀ s ∈ stmts, P fun i => (r i).exec s) :
    P fun i => (r i).execAll stmts := by
  induction stmts with
  | nil => exact h.pure _
  | cons s stmts ih =>
      have hrest := ih fun s' hs' => hx s' (List.mem_cons_of_mem s hs')
      refine h.bind (hx s List.mem_cons_self) fun flow => ?_
      cases flow with
      | normal => exact hrest
      | returned _ | broke _ | continued _ => exact h.pure _

theorem execBlock {stmts : List Stmt} (hx : ∀ s ∈ stmts, P fun i => (r i).exec s) :
    P fun i => (r i).execBlock stmts :=
  h.inScope (h.execAll hx)

theorem prepareCall {c : ClassDecl} (huse : P fun i => Eval.useClass (r i) c) (m : MethodDecl) :
    P fun i => Eval.prepareCall (r i) c m :=
  h.bind (h.checkStack c m) fun _ => h.bind huse fun _ => h.invoking c.name m.name

theorem runBody {c : ClassDecl} {m : MethodDecl} {body : ι → List Stmt}
    (huse : P fun i => Eval.useClass (r i) c)
    (hbody : ∀ frame, P fun i => Action.inFrame frame ((r i).execAll (body i)))
    (args : List Value) :
    P fun i => Eval.runMethod (r i) c { m with body := some (body i) } args := by
  simp only [runMethod_eq]
  exact h.bind (h.prepareCall huse m) fun _ =>
    h.bind (hbody (callFrame c m args)) fun flow => h.resultOf flow

theorem runMethod {c : ClassDecl} {m : MethodDecl} (huse : P fun i => Eval.useClass (r i) c)
    (hbody : ∀ body ∈ m.body, ∀ frame, P fun i => Action.inFrame frame ((r i).execAll body))
    (args : List Value) : P fun i => runMethod (r i) c m args := by
  cases hm : m.body with
  | none =>
      unfold Eval.runMethod
      rw [hm]
      exact h.fail _
  | some body =>
      have hrun : P fun i => Eval.runMethod (r i) c { m with body := some body } args :=
        h.runBody huse (hbody body hm) args
      rw [← hm] at hrun
      exact hrun

end ClosedCore

theorem ClosedHere.initializeFields {ι : Type} {P : ∀ {α : Type}, (ι → Action α) → Prop}
    (h : ClosedHere P) {r : ι → Evaluator} {cls : String} {fields : List FieldDecl}
    (he : ∀ f ∈ fields, ∀ e ∈ f.init, P fun i => (r i).eval e) :
    P fun i => initializeFields (r i) cls fields := by
  induction fields with
  | nil => exact h.pure ()
  | cons f fields ih =>
      have hrest := ih fun f' hf' => he f' (List.mem_cons_of_mem f hf')
      exact h.bind (h.evalInit (he f List.mem_cons_self) f.type) fun value =>
        h.bind (h.setField cls f.name value) fun _ => hrest

theorem Closed.useClass {ι : Type} {P : ∀ {α : Type}, (ι → Action α) → Prop} (h : Closed P)
    {r : ι → Evaluator} {c : ClassDecl}
    (he : ∀ f ∈ c.fields, ∀ e ∈ f.init, P fun i => (r i).eval e) :
    P fun i => useClass (r i) c := by
  simp only [useClass_eq]
  refine h.bind (h.openNew c.name) fun isNew => ?_
  cases isNew with
  | false => exact h.pure ()
  | true => exact h.inFrame _ (h.initializeFields he)

/-! ## Programs that differ in method bodies -/

end Eval

namespace Code

def ClassDecl.withBodies (c : ClassDecl) (bodies : MethodDecl → Option (List Stmt)) : ClassDecl :=
  { c with methods := c.methods.map fun m => { m with body := bodies m } }

theorem ClassDecl.find?_withBodies (c : ClassDecl) (bodies : MethodDecl → Option (List Stmt))
    {q : MethodDecl → Bool} (hq : ∀ m body, q { m with body := body } = q m) :
    (c.withBodies bodies).methods.find? q =
      (c.methods.find? q).map fun m => { m with body := bodies m } := by
  have hsame : (q ∘ fun m => { m with body := bodies m }) = q := by
    funext m
    exact hq m (bodies m)
  show (c.methods.map _).find? q = _
  rw [List.find?_map, hsame]

/-- Bodies for the methods of a unit, by class and method. -/
abbrev Bodies := ClassDecl → MethodDecl → Option (List Stmt)

def Bodies.own : Bodies :=
  fun _ m => m.body

theorem ClassDecl.withBodies_own (c : ClassDecl) : c.withBodies (Bodies.own c) = c := by
  show { c with methods := c.methods.map fun m => { m with body := m.body } } = c
  rw [List.map_id']

end Code

namespace Eval

open Code
open Trace (Throwable)

namespace Program

def withBodies (p : Program) (bodies : Bodies) : Program :=
  { p with unit := { p.unit with
      classes := p.unit.classes.map fun c => c.withBodies (bodies c) } }

theorem withBodies_own (p : Program) : p.withBodies .own = p := by
  show { p with unit := { p.unit with
    classes := p.unit.classes.map fun c => c.withBodies (Bodies.own c) } } = p
  simp only [ClassDecl.withBodies_own, List.map_id']

theorem class?_withBodies (p : Program) (bodies : Bodies) (name : String) :
    (p.withBodies bodies).unit.class? name =
      (p.unit.class? name).map fun c => c.withBodies (bodies c) :=
  List.find?_map

end Program

/-- The property holds of everything that an expression can set off: first uses of
classes, and runs of methods. -/
structure Callees {ι : Type} (P : ∀ {α : Type}, (ι → Action α) → Prop) (p : Program)
    (bodies : ι → Bodies) (r : ι → Evaluator) : Prop where
  use : ∀ c ∈ p.unit.classes, P fun i => useClass (r i) c
  run : ∀ c ∈ p.unit.classes, ∀ m ∈ c.methods, ∀ args, m.params.length = args.length →
    P fun i => runMethod (r i) c { m with body := bodies i c m } args

theorem mem_of_class? {u : CompilationUnit} {name : String} {c : ClassDecl}
    (hc : u.class? name = some c) : c ∈ u.classes :=
  List.mem_of_find?_eq_some hc

theorem owner_withBodies (p : Program) (bodies : Bodies) (v : View) (target : Expr) :
    v.owner (p.withBodies bodies) target = v.owner p target := by
  unfold View.owner
  simp only [Program.class?_withBodies, Option.isSome_map]

theorem receiver_withBodies (p : Program) (bodies : Bodies) (v : View) (receiver : Option Expr)
    (method : String) :
    v.receiver (p.withBodies bodies) receiver method = v.receiver p receiver method := by
  unfold View.receiver
  simp only [Program.class?_withBodies, Option.isSome_map]
  rfl

namespace ClosedCore

variable {ι : Type} {P : ∀ {α : Type}, (ι → Action α) → Prop} (h : ClosedCore P)
variable {α : Type} {p : Program} {bodies : ι → Bodies} {r : ι → Evaluator}

include h

theorem findClass {name : String} {f : ι → ClassDecl → Action α}
    (hf : ∀ c ∈ p.unit.classes, P fun i => f i (c.withBodies (bodies i c))) :
    P fun i => (p.withBodies (bodies i)).findClass name >>= f i := by
  unfold Program.findClass
  simp only [Program.class?_withBodies]
  cases hc : p.unit.class? name with
  | none => exact h.fail _
  | some c => exact hf c (mem_of_class? hc)

variable (hcall : Callees P p bodies r)

include hcall

theorem readField (cls name : String) :
    P fun i => readField (p.withBodies (bodies i)) (r i) cls name := by
  simp only [readField_eq]
  exact h.findClass fun c hc =>
    h.bind (hcall.use c hc) fun _ =>
      h.bind (h.look fun v => v.field? c.name name) fun value =>
        h.orFail (.variableNotFound (c.name ++ "." ++ name)) value

theorem invoke {c : ClassDecl} (hc : c ∈ p.unit.classes) (name : String)
    (args : List Value) : P fun i => invoke (r i) (c.withBodies (bodies i c)) name args := by
  let takes : MethodDecl → Bool := fun m =>
    !m.isConstructor && m.name = name && m.params.length = args.length
  have hfind : ∀ i, (c.withBodies (bodies i c)).methods.find? takes = _ :=
    fun i => c.find?_withBodies (bodies i c) fun _ _ => rfl
  unfold Eval.invoke
  simp only [takes] at hfind
  simp only [hfind]
  cases hm : c.methods.find? takes with
  | some m =>
      have htakes := List.find?_some hm
      simp only [takes, Bool.and_eq_true, decide_eq_true_eq] at htakes
      exact hcall.run c hc m (List.mem_of_find?_eq_some hm) args htakes.2
  | none => exact h.fail (.methodNotFound c.name name args.length)

theorem call (cls method : String) (args : List Value) :
    P fun i => (p.withBodies (bodies i)).findClass cls >>= fun c =>
      Eval.invoke (r i) c method args :=
  h.findClass fun _ hc => h.invoke hcall hc method args

theorem construct {c : ClassDecl} (hc : c ∈ p.unit.classes) (args : List Value) :
    P fun i => construct (r i) (c.withBodies (bodies i c)) args := by
  let takes : MethodDecl → Bool := fun m => m.isConstructor && m.params.length = args.length
  have hfind : ∀ i, (c.withBodies (bodies i c)).methods.find? takes = _ :=
    fun i => c.find?_withBodies (bodies i c) fun _ _ => rfl
  unfold Eval.construct
  refine h.bind (hcall.use c hc) fun _ => ?_
  simp only [takes] at hfind
  simp only [hfind]
  cases hm : c.methods.find? takes with
  | some m =>
      have htakes := List.find?_some hm
      simp only [takes, Bool.and_eq_true, decide_eq_true_eq] at htakes
      exact h.bind (hcall.run c hc m (List.mem_of_find?_eq_some hm) args htakes.2) fun _ =>
        h.pure (Value.object c.name)
  | none =>
      show P fun _ =>
        if args.isEmpty = true then (Pure.pure (.object c.name) : Action Value)
        else Action.fail (.methodNotFound c.name c.name args.length) >>= fun _ =>
          Pure.pure (.object c.name)
      split
      · exact h.pure _
      · exact h.bind (h.fail _) fun _ => h.pure _

theorem instantiate (cls : String) (args : List Value) :
    P fun i => instantiate (p.withBodies (bodies i)) (r i) cls args := by
  unfold Eval.instantiate
  simp only [Program.class?_withBodies]
  cases hc : p.unit.class? cls with
  | some c => exact h.construct hcall (mem_of_class? hc) args
  | none =>
      match args with
      | [] => exact h.pure _
      | .null :: _ => exact h.pure _
      | .int _ :: _ | .bool _ :: _ | .str _ :: _ | .array _ :: _ | .object _ :: _
      | .throwable _ :: _ => exact h.bind (h.text _) fun _ => h.pure _

/-! ## Places -/

theorem memberOf (name : String) (v : Value) :
    P fun i => memberOf (p.withBodies (bodies i)) (r i) name v := by
  cases v with
  | array address =>
      simp only [memberOf_array_eq]
      split
      · exact h.look _
      · exact h.fail _
  | object cls => exact h.readField hcall cls name
  | null => exact h.raiseNew _ _
  | int _ | bool _ | str _ | throwable _ => exact h.fail _

theorem readMember {target : Expr} (ht : P fun i => (r i).eval target) (name : String) :
    P fun i => readMember (p.withBodies (bodies i)) (r i) target name := by
  simp only [readMember_eq, ownerOf_eq, owner_withBodies]
  refine h.lookThen fun v => ?_
  rcases owner_cases p v target with ho | ⟨cls, ho⟩ | ho
  · simp only [ho]
    exact h.bind (h.look _) fun cls => h.readField hcall cls name
  · simp only [ho]
    exact h.readField hcall cls name
  · simp only [ho]
    exact h.bind ht fun value => h.memberOf hcall name value

omit hcall in
theorem checkIndex (index : Int64) (size : Nat) : P fun _ => checkIndex index size := by
  unfold Eval.checkIndex
  split
  · exact h.pure _
  · exact h.raiseNew _ _

omit hcall in
theorem locateElement {target position : Expr} (ht : P fun i => (r i).eval target)
    (hp : P fun i => (r i).eval position) :
    P fun i => locateElement (r i) target position := by
  simp only [locateElement_eq]
  exact h.bind (h.evalArray ht) fun address =>
    h.bind (h.evalInt hp _) fun index =>
      h.bind (h.look _) fun size =>
        h.bind (h.checkIndex index size) fun position => h.pure (address, position)

omit hcall in
theorem readElement {target position : Expr} (ht : P fun i => (r i).eval target)
    (hp : P fun i => (r i).eval position) :
    P fun i => readElement (r i) target position := by
  simp only [readElement_eq]
  exact h.bind (h.locateElement ht hp) fun _ => h.look _

omit hcall in
theorem ownerClass {target : Expr} (ht : P fun i => (r i).eval target) (name : String) :
    P fun i => ownerClass (p.withBodies (bodies i)) (r i) target name := by
  simp only [ownerClass_eq, ownerOf_eq, owner_withBodies]
  refine h.lookThen fun v => ?_
  rcases owner_cases p v target with ho | ⟨cls, ho⟩ | ho
  · simp only [ho]
    exact h.look _
  · simp only [ho]
    exact h.findClass fun c _ => h.pure c.name
  · simp only [ho]
    refine h.bind ht fun value => ?_
    cases value with
    | object cls => exact h.pure cls
    | null | int _ | bool _ | str _ | array _ | throwable _ => exact h.fail _

theorem resolvePlace {target : Expr} (ht : ∀ e ∈ target.placeOperands, P fun i => (r i).eval e) :
    P fun i => resolvePlace (p.withBodies (bodies i)) (r i) target := by
  unfold Eval.resolvePlace
  split
  · simp only [resolveName_eq]
    exact h.bind (h.look _) fun place => h.orFail _ place
  · rename_i owner member
    have howner := ht owner (by simp [Expr.placeOperands])
    exact h.bind (h.ownerClass howner member) fun cls =>
      h.findClass fun c hc => h.bind (hcall.use c hc) fun _ => h.pure _
  · rename_i target position
    have htarget := ht target (by simp [Expr.placeOperands])
    have hposition := ht position (by simp [Expr.placeOperands])
    exact h.bind (h.locateElement htarget hposition) fun _ => h.pure _
  · exact h.fail _

omit hcall in
theorem readPlace (place : Place) : P fun _ => place.read := by
  simp only [place_read_eq]
  exact h.bind (h.look _) fun value => h.orFail _ value

/-! ## Expressions -/

omit hcall in
theorem evalBinary {op : BinaryOp} {left right : Expr} (hl : P fun i => (r i).eval left)
    (hr : P fun i => (r i).eval right) : P fun i => evalBinary (r i) op left right := by
  unfold Eval.evalBinary
  split
  · refine h.bind (h.evalBool hl _) fun b => ?_
    cases b with
    | false => exact h.pure _
    | true => exact h.bind (h.evalBool hr _) fun _ => h.pure _
  · refine h.bind (h.evalBool hl _) fun b => ?_
    cases b with
    | false => exact h.bind (h.evalBool hr _) fun _ => h.pure _
    | true => exact h.pure _
  · exact h.bind hl fun a => h.bind hr fun b => h.applyBinary _ a b

omit hcall in
theorem sleep (args : List Value) : P fun _ => sleep args := by
  unfold Eval.sleep
  split
  · split
    · exact h.bind (h.advance _) fun _ => h.pure _
    · exact h.raiseNew _ _
  · exact h.raiseNew _ _

theorem callOnValue (receiver : Value) (name : String) (args : List Value) :
    P fun i => callOnValue (p.withBodies (bodies i)) (r i) receiver name args := by
  unfold Eval.callOnValue
  split
  · exact h.findClass fun c hc => h.invoke hcall hc _ _
  · exact h.raiseNew _ _
  · exact h.pure _
  · exact h.pure _
  · exact h.bind (h.equals _ _) fun _ => h.pure _
  · exact h.fail _

/-! ## Reports -/

omit hcall in
theorem texts (vs : List Value) : P fun _ => texts vs := by
  induction vs with
  | nil => exact h.pure []
  | cons v vs ih => exact h.bind (h.text v) fun text => h.bind ih fun rest => h.pure (text :: rest)

omit hcall in
theorem snapshots (vs : List Value) : P fun _ => snapshots vs := by
  induction vs with
  | nil => exact h.pure []
  | cons v vs ih =>
      exact h.bind (h.snapshot v) fun copy => h.bind ih fun rest => h.pure (copy :: rest)

omit hcall in
theorem reportOf (hook : String) (args : List Value) : P fun _ => reportOf hook args := by
  unfold Eval.reportOf
  split
  · simp only [elementsOf_eq]
    exact h.bind (h.look _) fun names => h.bind (h.texts names) fun names =>
      h.bind (h.look _) fun values => h.bind (h.snapshots values) fun values => h.pure _
  · exact h.pure _
  · exact h.bind (h.snapshot _) fun _ => h.pure _
  · exact h.bind (h.text _) fun _ => h.bind (h.snapshot _) fun _ => h.pure _
  · exact h.bind (h.snapshot _) fun _ => h.pure _
  · exact h.pure _
  · exact h.fail _

omit hcall in
theorem methodIdOf (args : List Value) : P fun _ => methodIdOf args := by
  cases args with
  | nil => exact h.pure _
  | cons v _ => exact h.text v

omit hcall in
theorem callHook
    (hreceive : ∀ method report, P fun _ => Action.modify fun s =>
      { s with recorder := s.recorder.receive method report })
    (hook : String) (args : List Value) : P fun _ => callHook hook args :=
  h.bind (h.methodIdOf args) fun method =>
    h.bind (h.reportOf hook args) fun report =>
      h.bind (hreceive method report) fun _ => h.pure _

omit hcall in
/-- A report of an entry may hold arrays, whose elements are asked for instead. -/
theorem evalHook {hook : String} {args : List Expr} (ha : ∀ e ∈ args, P fun i => (r i).eval e)
    (helements : ∀ e ∈ args, ∀ e' ∈ e.operands, P fun i => (r i).eval e')
    (hentry : ∀ method names values, P fun _ => Action.modify fun s =>
      { s with recorder := s.recorder.receive method (.entering names values) })
    (hhook : ∀ values, P fun _ => Eval.callHook hook values) :
    P fun i => evalHook (r i) hook args := by
  unfold Eval.evalHook
  split
  · rename_i id type names type' values
    have hnames := h.evalAll (helements (.newArray type names) (by simp))
    have hvalues := h.evalAll (helements (.newArray type' values) (by simp))
    exact h.bind (ha id List.mem_cons_self) fun id => h.bind hnames fun names =>
      h.bind hvalues fun values => h.bind (h.text id) fun method =>
        h.bind (h.texts names) fun names => h.bind (h.snapshots values) fun values =>
          h.bind (hentry method names values) fun _ => h.pure _
  · exact h.bind (h.evalAll ha) hhook

/-! ## Evaluation -/

/-- A call on the runtime class is the only expression that reports. -/
theorem evalCall {receiver : Option Expr} {method : String} {args : List Expr}
    (hr : ∀ e ∈ receiver, P fun i => (r i).eval e) (ha : ∀ e ∈ args, P fun i => (r i).eval e)
    (hhook : receiver = some (.name p.runtimeClass) → P fun i => Eval.evalHook (r i) method args) :
    P fun i => evalCall (p.withBodies (bodies i)) (r i) receiver method args := by
  unfold Eval.evalCall
  simp only [receiverOf_eq, receiver_withBodies]
  refine h.lookThen fun v => ?_
  have hargs := h.evalAll ha
  rcases receiver_cases p v receiver method with ho | ⟨hrt, ho⟩ | ⟨cls, ho⟩ | ho | ⟨e, he, ho⟩
  · simp only [ho]
    refine h.bind hargs fun values => h.ownClass
      (f := fun i cls => (p.withBodies (bodies i)).findClass cls >>= fun c =>
        Eval.invoke (r i) c method values) ?_
    exact fun cls => h.findClass fun c hc => h.invoke hcall hc method values
  · simp only [ho]
    exact hhook hrt
  · simp only [ho]
    exact h.findClass fun c hc => h.bind hargs fun values => h.invoke hcall hc method values
  · simp only [ho]
    exact h.bind hargs fun values => h.sleep values
  · simp only [ho]
    exact h.bind (hr e he) fun value =>
      h.bind hargs fun values => h.callOnValue hcall value method values

/-- A step that does not change the heap itself is put together from what it asks for. -/
theorem evalStep_of_still {e : Expr} (hstill : e.changesHeap = false)
    (he : ∀ e' ∈ e.operands, P fun i => (r i).eval e')
    (hhook : ∀ method args, e = .call (some (.name p.runtimeClass)) method args →
      P fun i => Eval.evalHook (r i) method args) :
    P fun i => evalStep (p.withBodies (bodies i)) (r i) e := by
  cases e with
  | lit value => exact h.pure _
  | name ident =>
      simp only [Eval.evalStep, readName_eq]
      exact h.bind (h.look _) fun value => h.orFail _ value
  | self => exact h.look fun v => Value.object v.cls
  | field target member => exact h.readMember hcall (he target (by simp [Expr.operands])) member
  | index target position =>
      exact h.readElement (he target (by simp [Expr.operands]))
        (he position (by simp [Expr.operands]))
  | assign op target value => exact absurd hstill (by simp [Expr.changesHeap])
  | unary op operand =>
      cases op with
      | neg =>
          have hoperand := he operand (by simp [Expr.operands, UnaryOp.isMutating])
          exact h.bind (h.evalInt hoperand _) fun _ => h.pure _
      | not =>
          have hoperand := he operand (by simp [Expr.operands, UnaryOp.isMutating])
          exact h.bind (h.evalBool hoperand _) fun _ => h.pure _
      | preInc | preDec | postInc | postDec =>
          exact absurd hstill (by simp [Expr.changesHeap, UnaryOp.isMutating])
  | binary op left right =>
      exact h.evalBinary (he left (by simp [Expr.operands]))
        (he right (by simp [Expr.operands]))
  | conditional cond ifTrue ifFalse =>
      refine h.bind (h.evalBool (he cond (by simp [Expr.operands])) _) fun b => ?_
      cases b with
      | false => exact he ifFalse (by simp [Expr.operands])
      | true => exact he ifTrue (by simp [Expr.operands])
  | call receiver method args =>
      refine h.evalCall hcall (fun e hm => he e ?_) (fun e hm => he e ?_) fun hr => ?_
      · simp only [Expr.operands, List.mem_append, Option.mem_toList]
        exact .inl hm
      · simp only [Expr.operands, List.mem_append]
        exact .inr hm
      · exact hhook method args (by rw [hr])
  | new cls args => exact h.bind (h.evalAll he) fun values => h.instantiate hcall cls values
  | newArray _ elements => exact absurd hstill (by simp [Expr.changesHeap])
  | superCall args => exact h.bind (h.evalAll he) fun _ => h.pure _
  | selfCall args =>
      refine h.bind (h.evalAll he) fun values => h.ownClass
        (f := fun i cls => (p.withBodies (bodies i)).findClass cls >>= fun c =>
          Eval.construct (r i) c values >>= fun _ => Pure.pure Value.null) ?_
      exact fun cls => h.findClass fun c hc =>
        h.bind (h.construct hcall hc values) fun _ => h.pure _

end ClosedCore

namespace ClosedHere

variable {ι : Type} {P : ∀ {α : Type}, (ι → Action α) → Prop} (h : ClosedHere P)
variable {p : Program} {bodies : ι → Bodies} {r : ι → Evaluator}
variable (hcall : Callees P p bodies r)
variable {P₀ : ∀ {α : Type}, (ι → Action α) → Prop} (hfin : Finish P P₀)

include h hcall hfin

omit hcall in
theorem writePlace (place : Place) (value result : Value) :
    P₀ fun _ => place.write value >>= fun _ => Pure.pure result := by
  cases place with
  | named name => exact hfin.of (h.bind (h.assign name value) fun _ => h.pure result)
  | field cls name => exact hfin.of (h.bind (h.setField cls name value) fun _ => h.pure result)
  | element address index => exact hfin.store address index value result

theorem evalAssign {op : AssignOp} {target value : Expr}
    (ht : ∀ e ∈ target.placeOperands, P fun i => (r i).eval e)
    (hv : P fun i => (r i).eval value) :
    P₀ fun i => evalAssign (p.withBodies (bodies i)) (r i) op target value := by
  unfold Eval.evalAssign
  refine hfin.bind (h.resolvePlace hcall ht) fun place => ?_
  have hwrite : ∀ result, P₀ fun _ : ι => (do place.write result; Pure.pure result) :=
    fun result => h.writePlace hfin place result result
  cases op.arithmetic? with
  | none => exact hfin.bind hv hwrite
  | some arithmetic =>
      have hresult := fun current =>
        h.bind hv fun operand => h.applyBinary arithmetic current operand
      exact hfin.bind (h.readPlace place) fun current => by
        have hbind := hfin.bind (hresult current) hwrite
        simpa only [bind_assoc] using hbind

theorem evalStepping {op : UnaryOp} {target : Expr}
    (ht : ∀ e ∈ target.placeOperands, P fun i => (r i).eval e) :
    P₀ fun i => evalStepping (p.withBodies (bodies i)) (r i) op target := by
  unfold Eval.evalStepping
  refine hfin.bind (h.resolvePlace hcall ht) fun place =>
    hfin.bind (h.readPlace place) fun current => ?_
  cases current with
  | int n => exact h.writePlace hfin place _ _
  | null | bool _ | str _ | array _ | object _ | throwable _ => exact hfin.of (h.fail _)

theorem evalStep {e : Expr} (he : ∀ e' ∈ e.operands, P fun i => (r i).eval e')
    (hhook : ∀ method args, e = .call (some (.name p.runtimeClass)) method args →
      P fun i => Eval.evalHook (r i) method args) :
    P₀ fun i => evalStep (p.withBodies (bodies i)) (r i) e := by
  by_cases hstill : e.changesHeap = false
  · exact hfin.of (h.evalStep_of_still hcall hstill he hhook)
  cases e with
  | assign op target value =>
      exact h.evalAssign hcall hfin (fun e hm => he e (by simp [Expr.operands, hm]))
        (he value (by simp [Expr.operands]))
  | unary op operand =>
      cases op with
      | neg | not => exact absurd rfl hstill
      | preInc | preDec | postInc | postDec =>
          exact h.evalStepping hcall hfin fun e hm =>
            he e (by simpa [Expr.operands, UnaryOp.isMutating])
  | newArray _ elements =>
      simp only [Eval.evalStep, makeArray_eq]
      exact hfin.bind (h.evalAll he) fun items => hfin.allocate _
  | lit _ | name _ | self | field _ _ | index _ _ | binary _ _ _ | conditional _ _ _
  | call _ _ _ | new _ _ | superCall _ | selfCall _ => exact absurd rfl hstill

end ClosedHere

end Eval
end TraceWeaving
