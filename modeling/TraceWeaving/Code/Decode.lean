import TraceWeaving.Code.Encode
import TraceWeaving.Json.Record

/-!
# Trees from documents

Reading a document back into a node.  Besides the form that encoding produces, a
record may be written as an array, fields with a default may be left out, and a
variant without content may carry `null`.

An expression or statement is read one layer at a time: the layer function is given
the reader for the nodes below it.  Every layer lies inside at least one more
container, so the depth of the document bounds the number of layers.
-/

namespace TraceWeaving
namespace Code

open Json.Slot (ofRecord? required optional withDefault nullable)

namespace BinaryOp

def decode (doc : Json) : Option BinaryOp := do
  let tag ← doc.bareTag?
  all.find? fun op => op.tag = tag

end BinaryOp

namespace AssignOp

def decode (doc : Json) : Option AssignOp := do
  let tag ← doc.bareTag?
  all.find? fun op => op.tag = tag

end AssignOp

namespace UnaryOp

def decode (doc : Json) : Option UnaryOp := do
  let tag ← doc.bareTag?
  all.find? fun op => op.tag = tag

end UnaryOp

namespace MethodKind

def decode (doc : Json) : Option MethodKind := do
  let tag ← doc.bareTag?
  [method, constructor].find? fun kind => kind.tag = tag

end MethodKind

namespace Literal

def decode : Json → Option Literal
  | .obj [("Int", content)] => content.int64?.map int
  | .obj [("Long", content)] => content.int64?.map long
  | .obj [("Bool", content)] => content.bool?.map bool
  | .obj [("Str", content)] => content.text?.map str
  | doc => if doc.bareTag? = some "Null" then some null else none

end Literal

/-! ## Expressions -/

namespace Expr

/-- Reads one layer of an expression, given a reader for the expressions inside it. -/
def decodeLayer (below : Json → Option Expr) : Json → Option Expr
  | .obj [("Literal", content)] => (Literal.decode content).map lit
  | .obj [("Name", content)] => content.text?.map name
  | .obj [("Field", content)] => do
      let [target, member] ← ofRecord? ["target", "name"] content | none
      return field (← required below target) (← required Json.text? member)
  | .obj [("Index", content)] => do
      let [target, position] ← ofRecord? ["target", "index"] content | none
      return index (← required below target) (← required below position)
  | .obj [("Assign", content)] => do
      let [op, target, value] ← ofRecord? ["op", "target", "value"] content | none
      return assign (← required AssignOp.decode op) (← required below target)
        (← required below value)
  | .obj [("Unary", content)] => do
      let [op, operand] ← ofRecord? ["op", "operand"] content | none
      return unary (← required UnaryOp.decode op) (← required below operand)
  | .obj [("Binary", content)] => do
      let [op, left, right] ← ofRecord? ["op", "left", "right"] content | none
      return binary (← required BinaryOp.decode op) (← required below left)
        (← required below right)
  | .obj [("Conditional", content)] => do
      let [cond, ifTrue, ifFalse] ← ofRecord? ["cond", "then_expr", "else_expr"] content | none
      return conditional (← required below cond) (← required below ifTrue)
        (← required below ifFalse)
  | .obj [("Call", content)] => do
      let [receiver, method, args] ← ofRecord? ["receiver", "name", "args"] content | none
      return call (← optional below receiver) (← required Json.text? method)
        (← required (Json.list? below) args)
  | .obj [("New", content)] => do
      let [cls, args] ← ofRecord? ["class", "args"] content | none
      return new (← required Json.text? cls) (← required (Json.list? below) args)
  | .obj [("ArrayInit", content)] => do
      let [elemType, elements] ← ofRecord? ["elem_ty", "elements"] content | none
      return newArray (← required Json.text? elemType) (← required (Json.list? below) elements)
  | .obj [("SuperCall", content)] => (Json.list? below content).map superCall
  | .obj [("ThisCall", content)] => (Json.list? below content).map selfCall
  | doc => if doc.bareTag? = some "This" then some self else none

/-- Reads an expression of at most the given number of layers. -/
def decodeWithin : Nat → Json → Option Expr
  | 0, _ => none
  | layers + 1, doc => decodeLayer (decodeWithin layers) doc

def decode (doc : Json) : Option Expr :=
  decodeWithin (doc.depth + 1) doc

end Expr

namespace ForInit

def decode : Json → Option ForInit
  | .obj [("Exprs", content)] => (Json.list? Expr.decode content).map exprs
  | .obj [("Decl", content)] => do
      let [type, ident, init] ← ofRecord? ["ty", "name", "init"] content | none
      return decl (← required Json.text? type) (← required Json.text? ident)
        (← required Expr.decode init)
  | _ => none

end ForInit

/-! ## Statements -/

def decodeBlock (stmt : Json → Option Stmt) (doc : Json) : Option (List Stmt) := do
  let [stmts] ← ofRecord? ["stmts"] doc | none
  required (Json.list? stmt) stmts

namespace SwitchCase

def decodeWith (stmt : Json → Option Stmt) (doc : Json) : Option SwitchCase := do
  let [labels, body] ← ofRecord? ["labels", "body"] doc | none
  return mk (← required (Json.list? Literal.decode) labels) (← required (Json.list? stmt) body)

end SwitchCase

namespace CatchClause

def decodeWith (stmt : Json → Option Stmt) (doc : Json) : Option CatchClause := do
  let [type, ident, body] ← ofRecord? ["ty", "name", "body"] doc | none
  return mk (← required Json.text? type) (← required Json.text? ident)
    (← required (decodeBlock stmt) body)

end CatchClause

namespace Stmt

/-- Reads one layer of a statement, given a reader for the statements inside it. -/
def decodeLayer (below : Json → Option Stmt) : Json → Option Stmt
  | .obj [("Block", content)] => (decodeBlock below content).map block
  | .obj [("Local", content)] => do
      let [type, ident, init] ← ofRecord? ["ty", "name", "init"] content | none
      return decl (← required Json.text? type) (← required Json.text? ident)
        (← optional Expr.decode init)
  | .obj [("Expr", content)] => (Expr.decode content).map expr
  | .obj [("If", content)] => do
      let [cond, ifTrue, ifFalse] ← ofRecord? ["cond", "then_branch", "else_branch"] content
        | none
      return ifElse (← required Expr.decode cond) (← required below ifTrue)
        (← optional below ifFalse)
  | .obj [("While", content)] => do
      let [cond, body] ← ofRecord? ["cond", "body"] content | none
      return whileLoop (← required Expr.decode cond) (← required below body)
  | .obj [("DoWhile", content)] => do
      let [body, cond] ← ofRecord? ["body", "cond"] content | none
      return doWhile (← required below body) (← required Expr.decode cond)
  | .obj [("For", content)] => do
      let [init, cond, update, body] ← ofRecord? ["init", "cond", "update", "body"] content
        | none
      return forLoop (← required ForInit.decode init) (← optional Expr.decode cond)
        (← required (Json.list? Expr.decode) update) (← required below body)
  | .obj [("ForEach", content)] => do
      let [type, ident, items, body] ← ofRecord? ["ty", "name", "iterable", "body"] content
        | none
      return forEach (← required Json.text? type) (← required Json.text? ident)
        (← required Expr.decode items) (← required below body)
  | .obj [("Labeled", content)] => do
      let [label, body] ← ofRecord? ["label", "body"] content | none
      return labeled (← required Json.text? label) (← required below body)
  | .obj [("Switch", content)] => do
      let [selector, cases] ← ofRecord? ["selector", "cases"] content | none
      return switch (← required Expr.decode selector)
        (← required (Json.list? (SwitchCase.decodeWith below)) cases)
  | .obj [("Break", content)] => (nullable Json.text? content).map breakTo
  | .obj [("Continue", content)] => (nullable Json.text? content).map continueTo
  | .obj [("Return", content)] => (nullable Expr.decode content).map ret
  | .obj [("Throw", content)] => (Expr.decode content).map raise
  | .obj [("Try", content)] => do
      let [body, catches, cleanup] ← ofRecord? ["body", "catches", "finally"] content | none
      return tryCatch (← required (decodeBlock below) body)
        (← withDefault (Json.list? (CatchClause.decodeWith below)) [] catches)
        (← withDefault (nullable (decodeBlock below)) none cleanup)
  | .obj [("Synchronized", content)] => do
      let [lock, body] ← ofRecord? ["lock", "body"] content | none
      return sync (← required Expr.decode lock) (← required (decodeBlock below) body)
  | .obj [("Opaque", content)] => content.text?.map unmodelled
  | _ => none

/-- Reads a statement of at most the given number of layers. -/
def decodeWithin : Nat → Json → Option Stmt
  | 0, _ => none
  | layers + 1, doc => decodeLayer (decodeWithin layers) doc

def decode (doc : Json) : Option Stmt :=
  decodeWithin (doc.depth + 1) doc

end Stmt

def blockOfDocument (doc : Json) : Option (List Stmt) :=
  decodeBlock Stmt.decode doc

/-! ## Declarations -/

namespace Annot

def decode (doc : Json) : Option Annot := do
  let [name, args] ← ofRecord? ["name", "args"] doc | none
  return {
    name := ← required Json.text? name
    args := ← withDefault (Json.list? (Json.pair? Json.text? Literal.decode)) [] args }

end Annot

namespace Param

def decode (doc : Json) : Option Param := do
  let [name, type] ← ofRecord? ["name", "ty"] doc | none
  return ⟨← required Json.text? name, ← required Json.text? type⟩

end Param

namespace FieldDecl

def decode (doc : Json) : Option FieldDecl := do
  let [name, type, isStatic, init] ← ofRecord? ["name", "ty", "is_static", "init"] doc | none
  return {
    name := ← required Json.text? name
    type := ← required Json.text? type
    isStatic := ← withDefault Json.bool? false isStatic
    init := ← withDefault (nullable Expr.decode) none init }

end FieldDecl

namespace MethodDecl

def decode (doc : Json) : Option MethodDecl := do
  let [name, kind, annotations, isStatic, params, returnType, body] ←
    ofRecord? ["name", "kind", "annotations", "is_static", "params", "return_type", "body"] doc
    | none
  return {
    name := ← required Json.text? name
    kind := ← withDefault MethodKind.decode .method kind
    annotations := ← withDefault (Json.list? Annot.decode) [] annotations
    isStatic := ← withDefault Json.bool? false isStatic
    params := ← withDefault (Json.list? Param.decode) [] params
    returnType := ← withDefault (nullable Json.text?) none returnType
    body := ← withDefault (nullable blockOfDocument) none body }

end MethodDecl

namespace ClassDecl

def decode (doc : Json) : Option ClassDecl := do
  let [name, annotations, fields, methods] ←
    ofRecord? ["name", "annotations", "fields", "methods"] doc | none
  return {
    name := ← required Json.text? name
    annotations := ← withDefault (Json.list? Annot.decode) [] annotations
    fields := ← withDefault (Json.list? FieldDecl.decode) [] fields
    methods := ← withDefault (Json.list? MethodDecl.decode) [] methods }

end ClassDecl

namespace CompilationUnit

def decode (doc : Json) : Option CompilationUnit := do
  let [package, classes] ← ofRecord? ["package", "classes"] doc | none
  return {
    package := ← withDefault (nullable Json.text?) none package
    classes := ← withDefault (Json.list? ClassDecl.decode) [] classes }

end CompilationUnit

end Code
end TraceWeaving
