import TraceWeaving.Proofs.Eval.Limit

/-!
# Ways into a frame

An expression sets off code in another frame in two ways only: it puts a class to use, whose
fields are initialised then, or it runs a method.  The rules for expressions are stated here with
both ways left open, so that what happens on the way into a frame can be varied; taken as they
are for the evaluator, the two give back the rules.
-/

namespace TraceWeaving
namespace Eval

open Code

/-- What an expression can set off. -/
structure CalleeRules where
  use : ClassDecl → Action Unit
  run : ClassDecl → MethodDecl → List Value → Action Value

namespace CalleeRules

def own (r : Evaluator) : CalleeRules :=
  ⟨useClass r, runMethod r⟩

section

variable (k : CalleeRules) (p : Program) (r : Evaluator)

def readField (cls name : String) : Action Value := do
  let c ← p.findClass cls
  k.use c
  let value ← Action.look fun v => v.field? c.name name
  .orFail (.variableNotFound (c.name ++ "." ++ name)) value

def memberOf (name : String) : Value → Action Value
  | .object cls => k.readField p cls name
  | value => Eval.memberOf p r name value

def readMember (target : Expr) (name : String) : Action Value := do
  match ← Action.look fun v => v.owner p target with
  | .ownClass =>
      let cls ← Action.look fun v => v.cls
      k.readField p cls name
  | .namedClass cls => k.readField p cls name
  | .value e =>
      let value ← r.eval e
      k.memberOf p r name value

def resolvePlace (target : Expr) : Action Place :=
  match target with
  | .field owner member => do
      let cls ← ownerClass p r owner member
      let c ← p.findClass cls
      k.use c
      return .field cls member
  | target => Eval.resolvePlace p r target

def evalAssign (op : AssignOp) (target value : Expr) : Action Value := do
  let place ← k.resolvePlace p r target
  let result ← assignedValue r op value place
  place.write result
  return result

def evalStepping (op : UnaryOp) (target : Expr) : Action Value := do
  let place ← k.resolvePlace p r target
  match ← place.read with
  | .int n =>
      place.write (.int (stepped op n))
      return .int (stepResult op n (stepped op n))
  | other => .fail (.typeMismatch "increment" "int" other.typeName)

def invoke (c : ClassDecl) (name : String) (args : List Value) : Action Value :=
  match c.methods.find? fun m =>
      !m.isConstructor && m.name = name && m.params.length = args.length with
  | some m => k.run c m args
  | none => .fail (.methodNotFound c.name name args.length)

def construct (c : ClassDecl) (args : List Value) : Action Value := do
  k.use c
  match c.methods.find? fun m => m.isConstructor && m.params.length = args.length with
  | some m =>
      let _ ← k.run c m args
  | none =>
      unless args.isEmpty do
        Action.fail (.methodNotFound c.name c.name args.length)
  return .object c.name

def instantiate (cls : String) (args : List Value) : Action Value :=
  match p.unit.class? cls with
  | some c => k.construct c args
  | none => Eval.instantiate p r cls args

def callOnValue (receiver : Value) (name : String) (args : List Value) : Action Value :=
  match receiver with
  | .object cls => do
      let c ← p.findClass cls
      k.invoke c name args
  | receiver => Eval.callOnValue p r receiver name args

def evalCall (receiver : Option Expr) (method : String) (args : List Expr) : Action Value := do
  match ← Action.look fun v => v.receiver p receiver method with
  | .runtime => evalHook r method args
  | .ownClass =>
      let args ← r.evalAll args
      let cls ← Action.look fun v => v.cls
      let c ← p.findClass cls
      k.invoke c method args
  | .namedClass cls =>
      let c ← p.findClass cls
      let args ← r.evalAll args
      k.invoke c method args
  | .clock =>
      let args ← r.evalAll args
      sleep args
  | .value e =>
      let receiver ← r.eval e
      let args ← r.evalAll args
      k.callOnValue p r receiver method args

def evalStep (e : Expr) : Action Value :=
  match e with
  | .field target member => k.readMember p r target member
  | .assign op target value => k.evalAssign p r op target value
  | .unary op operand =>
      if op.isMutating then k.evalStepping p r op operand else Eval.evalStep p r e
  | .call receiver method args => k.evalCall p r receiver method args
  | .new cls args => do
      let args ← r.evalAll args
      k.instantiate p r cls args
  | .selfCall args => do
      let args ← r.evalAll args
      let cls ← Action.look fun v => v.cls
      let c ← p.findClass cls
      let _ ← k.construct c args
      return .null
  | e => Eval.evalStep p r e

end

/-! ## The rules -/

section

variable (p : Program) (r : Evaluator)

theorem memberOf_own (name : String) (value : Value) :
    (own r).memberOf p r name value = Eval.memberOf p r name value := by
  cases value <;> rfl

theorem readMember_own (target : Expr) (name : String) :
    (own r).readMember p r target name = Eval.readMember p r target name := by
  rw [readMember_eq, ownerOf_eq]
  unfold readMember
  simp only [memberOf_own]
  rfl

theorem resolvePlace_own (target : Expr) :
    (own r).resolvePlace p r target = Eval.resolvePlace p r target := by
  cases target <;> rfl

theorem evalAssign_own (op : AssignOp) (target value : Expr) :
    (own r).evalAssign p r op target value = Eval.evalAssign p r op target value := by
  rw [evalAssign_eq]
  unfold evalAssign
  rw [resolvePlace_own]

theorem evalStepping_own (op : UnaryOp) (target : Expr) :
    (own r).evalStepping p r op target = Eval.evalStepping p r op target := by
  unfold evalStepping
  rw [resolvePlace_own]
  rfl

theorem instantiate_own (cls : String) (args : List Value) :
    (own r).instantiate p r cls args = Eval.instantiate p r cls args := by
  unfold instantiate Eval.instantiate
  cases p.unit.class? cls <;> rfl

theorem callOnValue_own (receiver : Value) (name : String) (args : List Value) :
    (own r).callOnValue p r receiver name args = Eval.callOnValue p r receiver name args := by
  cases receiver <;> rfl

theorem evalCall_own (receiver : Option Expr) (method : String) (args : List Expr) :
    (own r).evalCall p r receiver method args = Eval.evalCall p r receiver method args := by
  unfold evalCall Eval.evalCall
  simp only [receiverOf_eq, callOnValue_own]
  rfl

theorem evalStep_own (e : Expr) : (own r).evalStep p r e = Eval.evalStep p r e := by
  cases e with
  | field target member => exact readMember_own p r target member
  | assign op target value => exact evalAssign_own p r op target value
  | unary op operand =>
      cases op with
      | neg | not => rfl
      | preInc | preDec | postInc | postDec => exact evalStepping_own p r _ operand
  | call receiver method args => exact evalCall_own p r receiver method args
  | new cls args =>
      show (r.evalAll args >>= fun values => (own r).instantiate p r cls values) = _
      simp only [instantiate_own]
      rfl
  | selfCall _ | lit _ | name _ | self | index _ _ | binary _ _ _ | conditional _ _ _
  | newArray _ _ | superCall _ => rfl

end

/-! ## Properties that the rules keep -/

structure Have {ι : Type} (P : ∀ {α : Type}, (ι → Action α) → Prop) (p : Program)
    (k : ι → CalleeRules) : Prop where
  use : ∀ c ∈ p.unit.classes, P fun i => (k i).use c
  run : ∀ c ∈ p.unit.classes, ∀ m ∈ c.methods, ∀ args, P fun i => (k i).run c m args

section

variable {ι : Type} {P : ∀ {α : Type}, (ι → Action α) → Prop} {α : Type}
variable {p : Program} {k : ι → CalleeRules} {r : ι → Evaluator}

theorem closed_findClass (h : ClosedCore P) {name : String} {f : ι → ClassDecl → Action α}
    (hf : ∀ c ∈ p.unit.classes, P fun i => f i c) : P fun i => p.findClass name >>= f i := by
  unfold Program.findClass
  cases hc : p.unit.class? name with
  | none => exact h.fail _
  | some c => exact hf c (mem_of_class? hc)

namespace Have

variable (hk : Have P p k) (h : ClosedCore P)

include hk h

theorem readField (cls name : String) : P fun i => (k i).readField p cls name := by
  refine closed_findClass h fun c hc => h.bind (hk.use c hc) fun _ => h.bind (h.look _) ?_
  intro value
  exact h.orFail _ value

theorem invoke {c : ClassDecl} (hc : c ∈ p.unit.classes) (name : String) (args : List Value) :
    P fun i => (k i).invoke c name args := by
  unfold CalleeRules.invoke
  split
  case h_1 m hm => exact hk.run c hc m (List.mem_of_find?_eq_some hm) args
  case h_2 => exact h.fail _

theorem construct {c : ClassDecl} (hc : c ∈ p.unit.classes) (args : List Value) :
    P fun i => (k i).construct c args := by
  refine h.bind (hk.use c hc) fun _ => ?_
  split
  case h_1 m hm =>
    exact h.bind (hk.run c hc m (List.mem_of_find?_eq_some hm) args) fun _ => h.pure _
  case h_2 =>
    cases args with
    | nil => exact h.pure _
    | cons _ _ => exact h.bind (h.fail _) fun _ => h.pure _

theorem instantiate (cls : String) (args : List Value) :
    P fun i => (k i).instantiate p (r i) cls args := by
  unfold CalleeRules.instantiate Eval.instantiate
  cases hc : p.unit.class? cls with
  | some c => exact hk.construct h (mem_of_class? hc) args
  | none =>
      match args with
      | [] | .null :: _ => exact h.pure _
      | .int _ :: _ | .bool _ :: _ | .str _ :: _ | .array _ :: _ | .object _ :: _
      | .throwable _ :: _ => exact h.bind (h.text _) fun _ => h.pure _

theorem memberOf (name : String) (value : Value) :
    P fun i => (k i).memberOf p (r i) name value := by
  cases value with
  | object cls => exact hk.readField h cls name
  | array address =>
      simp only [CalleeRules.memberOf, memberOf_array_eq]
      split
      · exact h.look _
      · exact h.fail _
  | null => exact h.raiseNew _ _
  | int _ | bool _ | str _ | throwable _ => exact h.fail _

theorem readMember {target : Expr} (ht : P fun i => (r i).eval target) (name : String) :
    P fun i => (k i).readMember p (r i) target name := by
  refine h.lookThen fun v => ?_
  rcases owner_cases p v target with ho | ⟨cls, ho⟩ | ho
  · simp only [ho]
    exact h.bind (h.look _) fun cls => hk.readField h cls name
  · simp only [ho]
    exact hk.readField h cls name
  · simp only [ho]
    exact h.bind ht fun value => hk.memberOf h name value

theorem resolvePlace {target : Expr} (ht : ∀ e ∈ target.placeOperands, P fun i => (r i).eval e) :
    P fun i => (k i).resolvePlace p (r i) target := by
  cases target with
  | field owner member =>
      have howner : P fun i => ownerClass p (r i) owner member := by
        have hclass : P fun i => ownerClass (p.withBodies .own) (r i) owner member :=
          h.ownerClass (ht owner List.mem_cons_self) member
        simpa only [Program.withBodies_own] using hclass
      exact h.bind howner fun cls =>
        closed_findClass h fun c hc => h.bind (hk.use c hc) fun _ => h.pure _
  | name ident =>
      simp only [CalleeRules.resolvePlace, Eval.resolvePlace, resolveName_eq]
      exact h.bind (h.look _) fun place => h.orFail _ place
  | index target position =>
      have htarget := ht target List.mem_cons_self
      have hposition := ht position (List.mem_cons_of_mem _ List.mem_cons_self)
      exact h.bind (h.locateElement htarget hposition) fun _ => h.pure _
  | lit _ | self | assign _ _ _ | unary _ _ | binary _ _ _ | conditional _ _ _ | call _ _ _
  | new _ _ | newArray _ _ | superCall _ | selfCall _ => exact h.fail _

theorem callOnValue (receiver : Value) (name : String) (args : List Value) :
    P fun i => (k i).callOnValue p (r i) receiver name args := by
  unfold CalleeRules.callOnValue
  split
  case h_1 => exact closed_findClass h fun c hc => hk.invoke h hc name args
  case h_2 hother =>
    unfold Eval.callOnValue
    split
    · exact absurd rfl (hother _)
    · exact h.raiseNew _ _
    · exact h.pure _
    · exact h.pure _
    · exact h.bind (h.equals _ _) fun _ => h.pure _
    · exact h.fail _

theorem evalCall {receiver : Option Expr} {method : String} {args : List Expr}
    (hr : ∀ e ∈ receiver, P fun i => (r i).eval e) (ha : ∀ e ∈ args, P fun i => (r i).eval e)
    (hhook : P fun i => Eval.evalHook (r i) method args) :
    P fun i => (k i).evalCall p (r i) receiver method args := by
  have hargs := h.evalAll ha
  refine h.lookThen fun v => ?_
  rcases receiver_cases p v receiver method with ho | ⟨-, ho⟩ | ⟨cls, ho⟩ | ho | ⟨e, he, ho⟩
  · simp only [ho]
    exact h.bind hargs fun values => h.bind (h.look _) fun cls =>
      closed_findClass h fun c hc => hk.invoke h hc method values
  · simp only [ho]
    exact hhook
  · simp only [ho]
    exact closed_findClass h fun c hc =>
      h.bind hargs fun values => hk.invoke h hc method values
  · simp only [ho]
    exact h.bind hargs fun values => h.sleep values
  · simp only [ho]
    exact h.bind (hr e he) fun value =>
      h.bind hargs fun values => hk.callOnValue h value method values

end Have

namespace Have

variable (hk : Have P p k) (h : ClosedHere P)
variable (hstore : ∀ address index value, P fun _ => Place.write (.element address index) value)

include hk h hstore

omit hk in
theorem writePlace (place : Place) (value : Value) : P fun _ => place.write value := by
  cases place with
  | named name => exact h.assign name value
  | field cls name => exact h.setField cls name value
  | element address index => exact hstore address index value

theorem evalAssign {op : AssignOp} {target value : Expr}
    (ht : ∀ e ∈ target.placeOperands, P fun i => (r i).eval e)
    (hv : P fun i => (r i).eval value) :
    P fun i => (k i).evalAssign p (r i) op target value := by
  have hassigned : ∀ place, P fun i => assignedValue (r i) op value place := by
    intro place
    unfold assignedValue
    cases op.arithmetic? with
    | none => exact hv
    | some arithmetic =>
        exact h.bind (h.readPlace place) fun current =>
          h.bind hv fun operand => h.applyBinary arithmetic current operand
  exact h.bind (hk.resolvePlace h.toClosedCore ht) fun place => h.bind (hassigned place)
    fun result => h.bind (writePlace h hstore place result) fun _ => h.pure result

theorem evalStepping {op : UnaryOp} {target : Expr}
    (ht : ∀ e ∈ target.placeOperands, P fun i => (r i).eval e) :
    P fun i => (k i).evalStepping p (r i) op target := by
  refine h.bind (hk.resolvePlace h.toClosedCore ht) fun place =>
    h.bind (h.readPlace place) fun current => ?_
  cases current with
  | int n => exact h.bind (writePlace h hstore place _) fun _ => h.pure _
  | null | bool _ | str _ | array _ | object _ | throwable _ => exact h.fail _

theorem evalStep (hallocate : ∀ items, P fun _ => Action.allocate items)
    (hreceive : ∀ method report, P fun _ => Action.modify fun s =>
      { s with recorder := s.recorder.receive method report })
    (he : ∀ e, P fun i => (r i).eval e) (e : Expr) : P fun i => (k i).evalStep p (r i) e := by
  have hall : ∀ es, P fun i => (r i).evalAll es := fun _ => h.evalAll fun e _ => he e
  cases e with
  | lit value => exact h.pure _
  | name ident =>
      simp only [CalleeRules.evalStep, Eval.evalStep, readName_eq]
      exact h.bind (h.look _) fun value => h.orFail _ value
  | self => exact h.look fun v => Value.object v.cls
  | field target member => exact hk.readMember h.toClosedCore (he target) member
  | index target position => exact h.readElement (he target) (he position)
  | assign op target value => exact hk.evalAssign h hstore (fun e _ => he e) (he value)
  | unary op operand =>
      cases op with
      | neg => exact h.bind (h.evalInt (he operand) _) fun _ => h.pure _
      | not => exact h.bind (h.evalBool (he operand) _) fun _ => h.pure _
      | preInc | preDec | postInc | postDec => exact hk.evalStepping h hstore fun e _ => he e
  | binary op left right => exact h.evalBinary (he left) (he right)
  | conditional cond ifTrue ifFalse =>
      refine h.bind (h.evalBool (he cond) _) fun b => ?_
      cases b with
      | false => exact he ifFalse
      | true => exact he ifTrue
  | call receiver method args =>
      refine hk.evalCall h.toClosedCore (fun e _ => he e) (fun e _ => he e) ?_
      exact h.evalHook (fun e _ => he e) (fun _ _ e _ => he e)
        (fun id names values => hreceive id (.entering names values)) (h.callHook hreceive method)
  | new cls args => exact h.bind (hall args) fun values => hk.instantiate h.toClosedCore cls values
  | newArray _ elements =>
      simp only [CalleeRules.evalStep, Eval.evalStep, makeArray_eq]
      exact h.bind (hall elements) fun items => hallocate _
  | superCall args => exact h.bind (hall args) fun _ => h.pure _
  | selfCall args =>
      exact h.bind (hall args) fun values => h.bind (h.look _) fun cls =>
        closed_findClass h.toClosedCore fun c hc =>
          h.bind (hk.construct h.toClosedCore hc values) fun _ => h.pure _

end Have
end
end CalleeRules
end Eval
end TraceWeaving
