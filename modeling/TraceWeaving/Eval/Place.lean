import TraceWeaving.Eval.Evaluator
import TraceWeaving.Code.Lexeme

/-!
# Places

Where an assignment stores its value: in a variable, in a field of a class, or in an
element of an array.  A field is found through the own object, through the name of a
class, or through an object; all of them lead to the fields of the class.
-/

namespace TraceWeaving
namespace Eval

open Code

inductive Place where
  | named (name : String)
  | field (cls name : String)
  | element (address index : Nat)
  deriving DecidableEq

/-! ## Fields of classes -/

section

variable (p : Program) (r : Evaluator)

def initializeFields (cls : String) : List FieldDecl → Action Unit
  | [] => return ()
  | f :: rest => do
      let value ← r.evalInit f.type f.init
      Action.modify fun s => s.setField cls f.name value
      initializeFields cls rest

/-- Initialises the fields of a class when it is used for the first time. -/
def useClass (c : ClassDecl) : Action Unit := do
  let s ← Action.state
  if s.hasClass c.name then return ()
  Action.modify fun s => s.openClass c.name
  .inFrame (.start c.name []) (initializeFields r c.name c.fields)

def readField (cls name : String) : Action Value := do
  let c ← p.findClass cls
  useClass r c
  let s ← Action.state
  .orFail (.variableNotFound (c.name ++ "." ++ name)) (s.field? c.name name)

/-! ## Reading -/

/-- A name is a variable, or else a field of the class of the running method. -/
def readName (name : String) : Action Value := do
  let s ← Action.state
  .orFail (.variableNotFound name)
    ((s.frame.lookup? name).or (s.field? s.frame.cls name))

def memberOf (name : String) : Value → Action Value
  | .array address =>
      if name = "length" then do
        let s ← Action.state
        return .int (Int64.ofNat (s.heap.items address).size)
      else .fail (.typeMismatch ("field access '" ++ name ++ "'") "object" "array")
  | .object cls => readField p r cls name
  | .null => .raise "NullPointerException" name
  | value => .fail (.typeMismatch ("field access '" ++ name ++ "'") "object" value.typeName)

/-- What an expression in front of a dot stands for. -/
inductive Owner where
  | ownClass
  | namedClass (name : String)
  | value (e : Expr)

def ownerOf (target : Expr) : Action Owner :=
  match target with
  | .self => return .ownClass
  | .name ident => do
      if ← p.isClassName ident then return .namedClass ident else return .value target
  | _ => return .value target

def readMember (target : Expr) (name : String) : Action Value := do
  match ← ownerOf p target with
  | .ownClass =>
      let s ← Action.state
      readField p r s.frame.cls name
  | .namedClass cls => readField p r cls name
  | .value e =>
      let value ← r.eval e
      memberOf p r name value

def checkIndex (index : Int64) (size : Nat) : Action Nat :=
  if 0 ≤ index ∧ index.toInt < size then return index.toInt.toNat
  else
    .raise "ArrayIndexOutOfBoundsException"
      ("Index " ++ Text.intText index.toInt ++ " out of bounds for length " ++ Text.natText size)

def locateElement (target position : Expr) : Action (Nat × Nat) := do
  let address ← r.evalArray target
  let index ← r.evalInt position "array index"
  let s ← Action.state
  return (address, ← checkIndex index (s.heap.items address).size)

def readElement (target position : Expr) : Action Value := do
  let (address, index) ← locateElement r target position
  let s ← Action.state
  return (s.heap.items address).getD index .null

/-! ## Assigning -/

def ownerClass (target : Expr) (name : String) : Action String := do
  match ← ownerOf p target with
  | .ownClass =>
      let s ← Action.state
      return s.frame.cls
  | .namedClass cls =>
      let c ← p.findClass cls
      return c.name
  | .value e =>
      match ← r.eval e with
      | .object cls => return cls
      | value => .fail (.invalidTarget ("field '" ++ name ++ "' of " ++ value.typeName))

def resolveName (name : String) : Action Place := do
  let s ← Action.state
  if (s.frame.lookup? name).isSome then return .named name
  if (s.field? s.frame.cls name).isSome then return .field s.frame.cls name
  .fail (.variableNotFound name)

def resolvePlace (target : Expr) : Action Place :=
  match target with
  | .name ident => resolveName ident
  | .field owner member => do
      let cls ← ownerClass p r owner member
      let c ← p.findClass cls
      useClass r c
      return .field cls member
  | .index target position => do
      let (address, index) ← locateElement r target position
      return .element address index
  | other => .fail (.invalidTarget other.source)

namespace Place

def value? (s : State) : Place → Option Value
  | named name => s.frame.lookup? name
  | field cls name => s.field? cls name
  | element address index => (s.heap.items address)[index]?

def read (place : Place) : Action Value := do
  let s ← Action.state
  .orFail (.invalidTarget "unreadable location") (place.value? s)

def write (place : Place) (value : Value) : Action Unit :=
  match place with
  | named name => do
      let s ← Action.state
      let frame ← Action.orFail (.variableNotFound name) (s.frame.assign? name value)
      Action.modify fun s => { s with frame := frame }
  | field cls name => Action.modify fun s => s.setField cls name value
  | element address index =>
      Action.modify fun s => { s with heap := s.heap.store address index value }

end Place

end

end Eval
end TraceWeaving
