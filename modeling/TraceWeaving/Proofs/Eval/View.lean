import TraceWeaving.Eval.Machine
import TraceWeaving.Proofs.Eval.Bindings

/-!
# What evaluation reads and writes

The rules of evaluation read a state only through its view: the variables that are
visible, the class of the running method, the fields, the heap and the number of
callers.  The equations of this module put every rule that reads the state, or that
changes it on the strength of what it read, into that form.
-/

namespace TraceWeaving
namespace Eval

open Code
open Trace (Throwable)

/-- The part of a state that the outcome of an evaluation can depend on. -/
structure View where
  lookup : String → Option Value
  cls : String
  fields : Bindings (Bindings Value)
  heap : Heap
  depth : Nat

namespace View

def field? (v : View) (cls name : String) : Option Value :=
  (v.fields.get? cls).bind fun fields => fields.get? name

def place? (v : View) : Place → Option Value
  | .named name => v.lookup name
  | .field cls name => v.field? cls name
  | .element address index => (v.heap.items address)[index]?

end View

def State.view (s : State) : View where
  lookup := s.frame.lookup?
  cls := s.frame.cls
  fields := s.fields
  heap := s.heap
  depth := s.callers.length

theorem recorder_popFrame (s : State) : s.popFrame.recorder = s.recorder := by
  unfold State.popFrame
  split <;> rfl

def Outcome.andThen {α β : Type} (o : Outcome α) (onResult : α → Action β)
    (onThrow : Throwable → Action β) : Outcome β :=
  match o with
  | done a s => onResult a s
  | thrown t s => onThrow t s
  | fault e s => fault e s
  | exhausted => exhausted

namespace Action

variable {α β : Type}

def look (g : View → α) : Action α :=
  fun s => .done (g s.view) s

def andThen (x : Action α) (onResult : α → Action β) (onThrow : Throwable → Action β) :
    Action β :=
  fun s => (x s).andThen onResult onThrow

def allocate (items : Array Value) : Action Value :=
  fun s => .done (.array s.heap.size) { s with heap := s.heap.push items }

def openNew (cls : String) : Action Bool :=
  fun s => if s.hasClass cls then .done false s else .done true (s.openClass cls)

theorem bind_eq_andThen (x : Action α) (f : α → Action β) :
    (x >>= f) = x.andThen f raiseValue := by
  funext s
  show Action.bind x f s = Action.andThen x f raiseValue s
  unfold Action.bind Action.andThen Outcome.andThen
  cases x s <;> rfl

theorem of_bind_eq_done {x : Action α} {f : α → Action β} {s s' : State} {b : β}
    (h : (x >>= f) s = .done b s') : ∃ a s₁, x s = .done a s₁ ∧ f a s₁ = .done b s' := by
  change Action.bind x f s = _ at h
  unfold Action.bind at h
  cases hx : x s with
  | done a s₁ =>
      rw [hx] at h
      exact ⟨a, s₁, rfl, h⟩
  | thrown _ _ | fault _ _ | exhausted =>
      rw [hx] at h
      exact absurd h (by simp)

theorem bind_of_eq_done {x : Action α} {s s₁ : State} {a : α} (h : x s = .done a s₁)
    (f : α → Action β) : (x >>= f) s = f a s₁ := by
  show Action.bind x f s = _
  unfold Action.bind
  rw [h]

instance : LawfulMonad Action :=
  LawfulMonad.mk' Action
    (fun x => by
      funext s
      show Action.bind x Action.pure s = x s
      unfold Action.bind
      cases x s <;> rfl)
    (fun _ _ => rfl)
    (fun x f g => by
      funext s
      show Action.bind (Action.bind x f) g s = Action.bind x (fun a => Action.bind (f a) g) s
      unfold Action.bind
      cases x s <;> rfl)

end Action

def ifNormal (next : Action Flow) : Flow → Action Flow
  | .normal => next
  | flow => pure flow

namespace Evaluator

variable (r : Evaluator)

theorem execAll_nil : r.execAll [] = pure .normal :=
  rfl

theorem execAll_cons (s : Stmt) (rest : List Stmt) :
    r.execAll (s :: rest) = r.exec s >>= ifNormal (r.execAll rest) := by
  have hnext : (fun flow : Flow => match flow with
      | .normal => r.execAll rest
      | flow => pure flow) = ifNormal (r.execAll rest) := by
    funext flow
    cases flow <;> rfl
  rw [← hnext]
  rfl

theorem ifNormal_pure : ifNormal (pure .normal) = pure := by
  funext flow
  cases flow <;> rfl

theorem execAll_singleton (s : Stmt) : r.execAll [s] = r.exec s := by
  rw [execAll_cons, execAll_nil, ifNormal_pure, bind_pure]

theorem execAll_append (front rest : List Stmt) :
    r.execAll (front ++ rest) = r.execAll front >>= ifNormal (r.execAll rest) := by
  induction front with
  | nil => rfl
  | cons s front ih =>
      rw [List.cons_append, execAll_cons, execAll_cons, ih, bind_assoc]
      congr 1
      funext flow
      cases flow <;> rfl

theorem evalAll_nil : r.evalAll [] = pure [] :=
  rfl

theorem evalAll_cons (e : Expr) (es : List Expr) :
    r.evalAll (e :: es) =
      r.eval e >>= fun value => r.evalAll es >>= fun values => pure (value :: values) :=
  rfl

end Evaluator

/-! ## Rules that read the state -/

section

variable (p : Program) (r : Evaluator)

theorem snapshot_eq (value : Value) :
    value.snapshot = Action.look (fun v => v.heap.snapshot? value) >>= Action.orDiverge :=
  rfl

theorem snapshot_done {s : State} {v : Value} {copy : Trace.Snapshot}
    (h : s.heap.snapshot? v = some copy) : v.snapshot s = .done copy s := by
  show Action.orDiverge (s.heap.snapshot? v) s = _
  rw [h]
  rfl

theorem equals_eq (a b : Value) :
    a.equals b = Action.look (fun v => v.heap.equal? a b) >>= Action.orDiverge :=
  rfl

theorem readName_eq (name : String) :
    readName name =
      Action.look (fun v => (v.lookup name).or (v.field? v.cls name))
        >>= Action.orFail (.variableNotFound name) :=
  rfl

theorem readField_eq (cls name : String) :
    readField p r cls name = (do
      let c ← p.findClass cls
      useClass r c
      let value ← Action.look fun v => v.field? c.name name
      Action.orFail (.variableNotFound (c.name ++ "." ++ name)) value) :=
  rfl

theorem memberOf_array_eq (name : String) (address : Nat) :
    memberOf p r name (.array address) =
      if name = "length" then
        Action.look fun v => .int (Int64.ofNat (v.heap.items address).size)
      else .fail (.typeMismatch ("field access '" ++ name ++ "'") "object" "array") :=
  rfl

def View.owner (v : View) (target : Expr) : Owner :=
  match target with
  | .self => .ownClass
  | .name ident =>
      if (v.lookup ident).isNone && (p.unit.class? ident).isSome then .namedClass ident
      else .value target
  | _ => .value target

theorem ownerOf_eq (target : Expr) :
    ownerOf p target = Action.look fun v => v.owner p target := by
  cases target with
  | name ident =>
      funext s
      show (if (s.view.lookup ident).isNone && (p.unit.class? ident).isSome then
          (pure (.namedClass ident) : Action Owner) else pure (.value (.name ident))) s =
        .done (if (s.view.lookup ident).isNone && (p.unit.class? ident).isSome then
          .namedClass ident else .value (.name ident)) s
      split <;> rfl
  | lit _ | self | field _ _ | index _ _ | assign _ _ _ | unary _ _ | binary _ _ _
  | conditional _ _ _ | call _ _ _ | new _ _ | newArray _ _ | superCall _ | selfCall _ => rfl

theorem owner_cases (v : View) (target : Expr) :
    v.owner p target = .ownClass ∨
    (∃ cls, v.owner p target = .namedClass cls) ∨
    v.owner p target = .value target := by
  unfold View.owner
  split
  · exact .inl rfl
  · split
    · exact .inr (.inl ⟨_, rfl⟩)
    · exact .inr (.inr rfl)
  · exact .inr (.inr rfl)

theorem readMember_eq (target : Expr) (name : String) :
    readMember p r target name = (do
      match ← ownerOf p target with
      | .ownClass => Action.look (fun v => v.cls) >>= fun cls => readField p r cls name
      | .namedClass cls => readField p r cls name
      | .value e => do
          let value ← r.eval e
          memberOf p r name value) :=
  rfl

theorem locateElement_eq (target position : Expr) :
    locateElement r target position = (do
      let address ← r.evalArray target
      let index ← r.evalInt position "array index"
      let size ← Action.look fun v => (v.heap.items address).size
      let position ← checkIndex index size
      return (address, position)) :=
  rfl

theorem readElement_eq (target position : Expr) :
    readElement r target position =
      locateElement r target position >>= fun place =>
        Action.look fun v => (v.heap.items place.1).getD place.2 .null :=
  rfl

theorem ownerClass_eq (target : Expr) (name : String) :
    ownerClass p r target name = (do
      match ← ownerOf p target with
      | .ownClass => Action.look fun v => v.cls
      | .namedClass cls =>
          let c ← p.findClass cls
          return c.name
      | .value e =>
          match ← r.eval e with
          | .object cls => return cls
          | value => .fail (.invalidTarget ("field '" ++ name ++ "' of " ++ value.typeName))) :=
  rfl

def View.namedPlace? (v : View) (name : String) : Option Place :=
  if (v.lookup name).isSome then some (.named name)
  else if (v.field? v.cls name).isSome then some (.field v.cls name)
  else none

theorem resolveName_eq (name : String) :
    resolveName name =
      Action.look (fun v => v.namedPlace? name)
        >>= Action.orFail (.variableNotFound name) := by
  funext s
  show (if (s.frame.lookup? name).isSome = true then (pure (Place.named name) : Action Place)
      else if (s.field? s.frame.cls name).isSome = true then
        pure (Place.field s.frame.cls name)
      else .fail (.variableNotFound name)) s =
    Action.orFail (.variableNotFound name)
      (if (s.frame.lookup? name).isSome = true then some (Place.named name)
        else if (s.field? s.frame.cls name).isSome = true then
          some (Place.field s.frame.cls name)
        else none) s
  split
  · rfl
  · split <;> rfl

theorem place_read_eq (place : Place) :
    place.read =
      Action.look (fun v => v.place? place)
        >>= Action.orFail (.invalidTarget "unreadable location") := by
  cases place <;> rfl

theorem place_write_named (name : String) (value : Value) (s : State) :
    Place.write (.named name) value s =
      match s.frame.assign? name value with
      | some frame => .done () { s with frame := frame }
      | none => .fault (.variableNotFound name) s := by
  show (Action.orFail (.variableNotFound name) (s.frame.assign? name value) >>= fun frame =>
    Action.modify fun s => { s with frame := frame }) s = _
  cases s.frame.assign? name value <;> rfl

theorem checkStack_eq (c : ClassDecl) (m : MethodDecl) :
    checkStack c m =
      Action.look (fun v => v.depth) >>= fun depth =>
        if maxCallers ≤ depth then .raise "StackOverflowError" (c.name ++ "." ++ m.name)
        else pure () :=
  rfl

theorem elementsOf_eq (address : Nat) :
    elementsOf address = Action.look fun v => (v.heap.items address).toList :=
  rfl

def View.receiver (v : View) (receiver : Option Expr) (method : String) : Receiver :=
  match receiver with
  | none => .ownClass
  | some .self => .ownClass
  | some (.name ident) =>
      if ident = p.runtimeClass then .runtime
      else if (v.lookup ident).isNone && (p.unit.class? ident).isSome then .namedClass ident
      else if ident = "Thread" ∧ method = "sleep" ∧ (v.lookup ident).isNone then .clock
      else .value (.name ident)
  | some e => .value e

theorem receiverOf_name_eq (ident method : String) :
    receiverOf p (some (.name ident)) method =
      Action.look fun v => v.receiver p (some (.name ident)) method := by
  funext s
  by_cases hr : ident = p.runtimeClass
  · simp only [receiverOf, View.receiver, hr, if_true]
    rfl
  · simp only [receiverOf, View.receiver, hr, if_false]
    show (if (s.view.lookup ident).isNone && (p.unit.class? ident).isSome then
        (pure (.namedClass ident) : Action Receiver) else _) s =
      .done (if (s.view.lookup ident).isNone && (p.unit.class? ident).isSome then
        .namedClass ident else _) s
    split
    · rfl
    · show (if ident = "Thread" ∧ method = "sleep" ∧ (s.view.lookup ident).isNone then
          (pure .clock : Action Receiver) else pure (.value (.name ident))) s =
        .done (if ident = "Thread" ∧ method = "sleep" ∧ (s.view.lookup ident).isNone then
          .clock else .value (.name ident)) s
      split <;> rfl

theorem receiverOf_eq (receiver : Option Expr) (method : String) :
    receiverOf p receiver method = Action.look fun v => v.receiver p receiver method := by
  cases receiver with
  | none => rfl
  | some e =>
      cases e with
      | name ident => exact receiverOf_name_eq p ident method
      | lit _ | self | field _ _ | index _ _ | assign _ _ _ | unary _ _ | binary _ _ _
      | conditional _ _ _ | call _ _ _ | new _ _ | newArray _ _ | superCall _ | selfCall _ =>
          rfl

theorem receiver_cases (v : View) (receiver : Option Expr) (method : String) :
    v.receiver p receiver method = .ownClass ∨
    (receiver = some (.name p.runtimeClass) ∧ v.receiver p receiver method = .runtime) ∨
    (∃ cls, v.receiver p receiver method = .namedClass cls) ∨
    v.receiver p receiver method = .clock ∨
    (∃ e, receiver = some e ∧ v.receiver p receiver method = .value e) := by
  unfold View.receiver
  split
  · exact .inl rfl
  · exact .inl rfl
  · split
    · rename_i ident hr
      exact .inr (.inl ⟨by rw [hr], rfl⟩)
    · split
      · exact .inr (.inr (.inl ⟨_, rfl⟩))
      · split
        · exact .inr (.inr (.inr (.inl rfl)))
        · exact .inr (.inr (.inr (.inr ⟨_, rfl, rfl⟩)))
  · exact .inr (.inr (.inr (.inr ⟨_, rfl, rfl⟩)))

/-! ## Rules that change the state -/

theorem useClass_eq (c : ClassDecl) :
    useClass r c =
      Action.openNew c.name >>= fun isNew =>
        if isNew then
          Action.inFrame (.start c.name []) (initializeFields r c.name c.fields)
        else pure () := by
  funext s
  show (if s.hasClass c.name = true then (pure () : Action Unit)
      else Action.modify (fun s => s.openClass c.name) >>= fun _ =>
        Action.inFrame (.start c.name []) (initializeFields r c.name c.fields)) s =
    Action.bind (Action.openNew c.name) _ s
  unfold Action.bind Action.openNew
  split <;> rfl

theorem useClass_of_hasClass {c : ClassDecl} {s : State} (hs : s.hasClass c.name = true) :
    useClass r c s = .done () s := by
  show (if s.hasClass c.name = true then (pure () : Action Unit) else _) s = _
  rw [if_pos hs]
  rfl

theorem findClass_of_class? {name : String} {c : ClassDecl} (h : p.unit.class? name = some c)
    (s : State) : p.findClass name s = .done c s := by
  unfold Program.findClass
  rw [h]
  rfl

theorem readField_of_field? {cls name : String} {c : ClassDecl} {s : State} {value : Value}
    (hc : p.unit.class? cls = some c) (hv : s.field? c.name name = some value) :
    readField p r cls name s = .done value s := by
  have hclass : s.hasClass c.name = true := State.hasClass_of_field? hv
  have hview : s.view.field? c.name name = some value := hv
  rw [readField_eq, Action.bind_of_eq_done (findClass_of_class? p hc s),
    Action.bind_of_eq_done (useClass_of_hasClass r hclass)]
  show Action.orFail _ (s.view.field? c.name name) s = _
  rw [hview]
  rfl

/-- What comes before the body of a method. -/
def prepareCall (c : ClassDecl) (m : MethodDecl) : Action Unit := do
  checkStack c m
  useClass r c
  Action.modify fun s => { s with recorder := s.recorder.keepInvoking c.name m.name }

def callFrame (c : ClassDecl) (m : MethodDecl) (args : List Value) : Frame :=
  .start c.name (.ofPairs ((m.params.map (·.name)).zip args))

theorem runMethod_eq (c : ClassDecl) (m : MethodDecl) (body : List Stmt) (args : List Value) :
    runMethod r c { m with body := some body } args =
      prepareCall r c m >>= fun _ =>
        Action.inFrame (callFrame c m args) (r.execAll body) >>= resultOf := by
  unfold prepareCall
  simp only [bind_assoc]
  rfl

def assignedValue (op : AssignOp) (value : Expr) (place : Place) : Action Value :=
  match op.arithmetic? with
  | none => r.eval value
  | some arithmetic => do
      let current ← place.read
      let operand ← r.eval value
      applyBinary arithmetic current operand

theorem evalAssign_eq (op : AssignOp) (target value : Expr) :
    evalAssign p r op target value = (do
      let place ← resolvePlace p r target
      let result ← assignedValue r op value place
      place.write result
      return result) := by
  unfold evalAssign assignedValue
  cases op.arithmetic? with
  | none => rfl
  | some arithmetic => simp only [bind_assoc]

theorem makeArray_eq (elements : List Expr) :
    makeArray r elements =
      r.evalAll elements >>= fun items => Action.allocate items.toArray :=
  rfl

theorem execForEach_eq (label : Option String) (ident : String) (items : Expr)
    (body : Stmt) :
    execForEach r label ident items body = (do
      match ← r.eval items with
      | .array address =>
          let items ← Action.look fun v => (v.heap.items address).toList
          execForItems r label ident body items
      | other => .fail (.typeMismatch "for-each" "array" other.typeName)) :=
  rfl

end

end Eval
end TraceWeaving
