import TraceWeaving.Code.Basic
import TraceWeaving.Json.Basic

/-!
# Trees as documents

The document of a node.  A variant without content is its name, any other variant is
an object with its name as the only key; records are objects with every field in
order, absent parts written as `null`.
-/

namespace TraceWeaving
namespace Code

def variant (tag : String) (content : Json) : Json :=
  .obj [(tag, content)]

def encodeOption {α : Type} (encode : α → Json) : Option α → Json
  | some a => encode a
  | none => .null

def encodeList {α : Type} (encode : α → Json) (items : List α) : Json :=
  .arr (items.map encode)

def encodeText (s : String) : Json :=
  .str s

namespace BinaryOp

def tag : BinaryOp → String
  | add => "Add"
  | sub => "Sub"
  | mul => "Mul"
  | div => "Div"
  | rem => "Rem"
  | lt => "Lt"
  | le => "Le"
  | gt => "Gt"
  | ge => "Ge"
  | eq => "Eq"
  | ne => "Ne"
  | and => "And"
  | or => "Or"

def encode (op : BinaryOp) : Json :=
  .str op.tag

end BinaryOp

namespace AssignOp

def tag : AssignOp → String
  | plain => "Assign"
  | add => "Add"
  | sub => "Sub"
  | mul => "Mul"
  | div => "Div"
  | rem => "Rem"

def encode (op : AssignOp) : Json :=
  .str op.tag

end AssignOp

namespace UnaryOp

def tag : UnaryOp → String
  | neg => "Neg"
  | not => "Not"
  | preInc => "PreInc"
  | preDec => "PreDec"
  | postInc => "PostInc"
  | postDec => "PostDec"

def encode (op : UnaryOp) : Json :=
  .str op.tag

end UnaryOp

namespace Literal

def encode : Literal → Json
  | int n => variant "Int" (.int n.toInt)
  | long n => variant "Long" (.int n.toInt)
  | bool b => variant "Bool" (.bool b)
  | str s => variant "Str" (.str s)
  | null => .str "Null"

end Literal

namespace Expr

mutual

def encode : Expr → Json
  | lit value => variant "Literal" value.encode
  | name ident => variant "Name" (.str ident)
  | self => .str "This"
  | field target member =>
      variant "Field" (.obj [("target", encode target), ("name", .str member)])
  | index target position =>
      variant "Index" (.obj [("target", encode target), ("index", encode position)])
  | assign op target value =>
      variant "Assign"
        (.obj [("op", op.encode), ("target", encode target), ("value", encode value)])
  | unary op operand =>
      variant "Unary" (.obj [("op", op.encode), ("operand", encode operand)])
  | binary op left right =>
      variant "Binary"
        (.obj [("op", op.encode), ("left", encode left), ("right", encode right)])
  | conditional cond ifTrue ifFalse =>
      variant "Conditional"
        (.obj [("cond", encode cond), ("then_expr", encode ifTrue),
          ("else_expr", encode ifFalse)])
  | call receiver method args =>
      variant "Call"
        (.obj [("receiver", encodeReceiver receiver), ("name", .str method),
          ("args", .arr (encodeAll args))])
  | new cls args => variant "New" (.obj [("class", .str cls), ("args", .arr (encodeAll args))])
  | newArray elemType elements =>
      variant "ArrayInit"
        (.obj [("elem_ty", .str elemType), ("elements", .arr (encodeAll elements))])
  | superCall args => variant "SuperCall" (.arr (encodeAll args))
  | selfCall args => variant "ThisCall" (.arr (encodeAll args))

def encodeReceiver : Option Expr → Json
  | some receiver => encode receiver
  | none => .null

def encodeAll : List Expr → List Json
  | [] => []
  | e :: rest => encode e :: encodeAll rest

end

end Expr

namespace ForInit

def encode : ForInit → Json
  | exprs es => variant "Exprs" (encodeList Expr.encode es)
  | decl type ident init =>
      variant "Decl" (.obj [("ty", .str type), ("name", .str ident), ("init", init.encode)])

end ForInit

def encodeBlock (stmts : List Json) : Json :=
  .obj [("stmts", .arr stmts)]

namespace Stmt

mutual

def encode : Stmt → Json
  | block stmts => variant "Block" (encodeBlock (encodeAll stmts))
  | decl type ident init =>
      variant "Local"
        (.obj [("ty", .str type), ("name", .str ident), ("init", encodeOption Expr.encode init)])
  | expr e => variant "Expr" e.encode
  | ifElse cond ifTrue ifFalse =>
      variant "If"
        (.obj [("cond", cond.encode), ("then_branch", encode ifTrue),
          ("else_branch", encodeElse ifFalse)])
  | whileLoop cond body =>
      variant "While" (.obj [("cond", cond.encode), ("body", encode body)])
  | doWhile body cond =>
      variant "DoWhile" (.obj [("body", encode body), ("cond", cond.encode)])
  | forLoop init cond update body =>
      variant "For"
        (.obj [("init", init.encode), ("cond", encodeOption Expr.encode cond),
          ("update", encodeList Expr.encode update), ("body", encode body)])
  | forEach type ident items body =>
      variant "ForEach"
        (.obj [("ty", .str type), ("name", .str ident), ("iterable", items.encode),
          ("body", encode body)])
  | labeled label body =>
      variant "Labeled" (.obj [("label", .str label), ("body", encode body)])
  | switch selector cases =>
      variant "Switch"
        (.obj [("selector", selector.encode), ("cases", .arr (encodeCases cases))])
  | breakTo label => variant "Break" (encodeOption encodeText label)
  | continueTo label => variant "Continue" (encodeOption encodeText label)
  | ret value => variant "Return" (encodeOption Expr.encode value)
  | raise value => variant "Throw" value.encode
  | tryCatch body catches cleanup =>
      variant "Try"
        (.obj [("body", encodeBlock (encodeAll body)), ("catches", .arr (encodeCatches catches)),
          ("finally", encodeCleanup cleanup)])
  | sync lock body =>
      variant "Synchronized"
        (.obj [("lock", lock.encode), ("body", encodeBlock (encodeAll body))])
  | unmodelled text => variant "Opaque" (.str text)

def encodeAll : List Stmt → List Json
  | [] => []
  | s :: rest => encode s :: encodeAll rest

def encodeElse : Option Stmt → Json
  | some s => encode s
  | none => .null

def encodeCases : List SwitchCase → List Json
  | [] => []
  | .mk labels body :: rest =>
      .obj [("labels", encodeList Literal.encode labels), ("body", .arr (encodeAll body))]
        :: encodeCases rest

def encodeCatches : List CatchClause → List Json
  | [] => []
  | .mk type ident body :: rest =>
      .obj [("ty", .str type), ("name", .str ident), ("body", encodeBlock (encodeAll body))]
        :: encodeCatches rest

def encodeCleanup : Option (List Stmt) → Json
  | some stmts => encodeBlock (encodeAll stmts)
  | none => .null

end

end Stmt

namespace CatchClause

def encode (c : CatchClause) : Json :=
  .obj [("ty", .str c.type), ("name", .str c.ident),
    ("body", encodeBlock (Stmt.encodeAll c.body))]

end CatchClause

def blockDocument (stmts : List Stmt) : Json :=
  encodeBlock (Stmt.encodeAll stmts)

namespace Annot

def encode (a : Annot) : Json :=
  .obj [("name", .str a.name),
    ("args", encodeList (fun arg => .arr [.str arg.1, arg.2.encode]) a.args)]

end Annot

namespace Param

def encode (p : Param) : Json :=
  .obj [("name", .str p.name), ("ty", .str p.type)]

end Param

namespace MethodKind

def tag : MethodKind → String
  | method => "Method"
  | constructor => "Constructor"

def encode (k : MethodKind) : Json :=
  .str k.tag

end MethodKind

namespace MethodDecl

def encode (m : MethodDecl) : Json :=
  .obj [("name", .str m.name), ("kind", m.kind.encode),
    ("annotations", encodeList Annot.encode m.annotations),
    ("is_static", .bool m.isStatic), ("params", encodeList Param.encode m.params),
    ("return_type", encodeOption encodeText m.returnType),
    ("body", encodeOption blockDocument m.body)]

end MethodDecl

namespace FieldDecl

def encode (f : FieldDecl) : Json :=
  .obj [("name", .str f.name), ("ty", .str f.type), ("is_static", .bool f.isStatic),
    ("init", encodeOption Expr.encode f.init)]

end FieldDecl

namespace ClassDecl

def encode (c : ClassDecl) : Json :=
  .obj [("name", .str c.name), ("annotations", encodeList Annot.encode c.annotations),
    ("fields", encodeList FieldDecl.encode c.fields),
    ("methods", encodeList MethodDecl.encode c.methods)]

end ClassDecl

namespace CompilationUnit

def encode (u : CompilationUnit) : Json :=
  .obj [("package", encodeOption encodeText u.package),
    ("classes", encodeList ClassDecl.encode u.classes)]

end CompilationUnit

end Code
end TraceWeaving
