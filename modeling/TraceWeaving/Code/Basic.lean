import TraceWeaving.Code.Operator
import TraceWeaving.Text.Quoted

/-!
# Syntax trees

The trees that tracing calls are woven into: compilation units with classes, fields
and methods, whose bodies are statements and expressions.  Blocks are statement
lists.  Code that has no model is carried as `unmodelled` text.
-/

namespace TraceWeaving
namespace Code

abbrev TypeName := String

inductive Literal where
  | int (n : Int64)
  | long (n : Int64)
  | bool (b : Bool)
  | str (s : String)
  | null
  deriving DecidableEq

inductive Expr where
  | lit (value : Literal)
  | name (ident : String)
  | self
  | field (target : Expr) (member : String)
  | index (target : Expr) (position : Expr)
  | assign (op : AssignOp) (target : Expr) (value : Expr)
  | unary (op : UnaryOp) (operand : Expr)
  | binary (op : BinaryOp) (left : Expr) (right : Expr)
  | conditional (cond : Expr) (ifTrue : Expr) (ifFalse : Expr)
  | call (receiver : Option Expr) (method : String) (args : List Expr)
  | new (cls : String) (args : List Expr)
  | newArray (elemType : TypeName) (elements : List Expr)
  | superCall (args : List Expr)
  | selfCall (args : List Expr)

inductive ForInit where
  | exprs (es : List Expr)
  | decl (type : TypeName) (ident : String) (init : Expr)

mutual

inductive Stmt where
  | block (stmts : List Stmt)
  | decl (type : TypeName) (ident : String) (init : Option Expr)
  | expr (e : Expr)
  | ifElse (cond : Expr) (ifTrue : Stmt) (ifFalse : Option Stmt)
  | whileLoop (cond : Expr) (body : Stmt)
  | doWhile (body : Stmt) (cond : Expr)
  | forLoop (init : ForInit) (cond : Option Expr) (update : List Expr) (body : Stmt)
  | forEach (type : TypeName) (ident : String) (items : Expr) (body : Stmt)
  | labeled (label : String) (body : Stmt)
  | switch (selector : Expr) (cases : List SwitchCase)
  | breakTo (label : Option String)
  | continueTo (label : Option String)
  | ret (value : Option Expr)
  | raise (value : Expr)
  | tryCatch (body : List Stmt) (catches : List CatchClause) (cleanup : Option (List Stmt))
  | sync (lock : Expr) (body : List Stmt)
  | unmodelled (text : String)

/-- A case without labels is the default case. -/
inductive SwitchCase where
  | mk (labels : List Literal) (body : List Stmt)

inductive CatchClause where
  | mk (type : TypeName) (ident : String) (body : List Stmt)

end

instance : Inhabited Expr := ⟨.self⟩
instance : Inhabited Stmt := ⟨.block []⟩
instance : Inhabited ForInit := ⟨.exprs []⟩

namespace SwitchCase

def labels : SwitchCase → List Literal
  | mk labels _ => labels

def body : SwitchCase → List Stmt
  | mk _ body => body

end SwitchCase

namespace CatchClause

def type : CatchClause → TypeName
  | mk type _ _ => type

def ident : CatchClause → String
  | mk _ ident _ => ident

def body : CatchClause → List Stmt
  | mk _ _ body => body

end CatchClause

structure Annot where
  name : String
  args : List (String × Literal)
  deriving DecidableEq

inductive MethodKind where
  | method
  | constructor
  deriving DecidableEq

instance : Inhabited MethodKind := ⟨.method⟩

structure Param where
  name : String
  type : TypeName
  deriving DecidableEq

/-- A method without return type is a constructor, one without body is abstract. -/
structure MethodDecl where
  name : String
  kind : MethodKind
  annotations : List Annot
  isStatic : Bool
  params : List Param
  returnType : Option TypeName
  body : Option (List Stmt)

structure FieldDecl where
  name : String
  type : TypeName
  isStatic : Bool
  init : Option Expr

structure ClassDecl where
  name : String
  annotations : List Annot
  fields : List FieldDecl
  methods : List MethodDecl

structure CompilationUnit where
  package : Option String
  classes : List ClassDecl

/-! ## Questions about a node -/

def isVoid (type : TypeName) : Bool :=
  type = "void"

namespace Expr

def isName : Expr → Bool
  | name _ => true
  | _ => false

/-- Whether evaluating the expression twice cannot be observed. -/
def isTrivial : Expr → Bool
  | name _ | lit _ | self => true
  | _ => false

def isDelegation : Expr → Bool
  | superCall _ | selfCall _ => true
  | _ => false

end Expr

namespace Stmt

def isBlock : Stmt → Bool
  | block _ => true
  | _ => false

def isLoop : Stmt → Bool
  | whileLoop .. | doWhile .. | forLoop .. | forEach .. => true
  | _ => false

def isDelegation : Stmt → Bool
  | expr e => e.isDelegation
  | _ => false

end Stmt

namespace Annot

def simpleName (a : Annot) : String :=
  Text.lastSegment a.name

def arg? (a : Annot) (key : String) : Option Literal :=
  a.args.lookup key

end Annot

namespace MethodDecl

def isConstructor (m : MethodDecl) : Bool :=
  m.kind = .constructor

def returnsValue (m : MethodDecl) : Bool :=
  match m.returnType with
  | some type => !isVoid type
  | none => false

end MethodDecl

namespace ClassDecl

/-- The first method with the given name. -/
def method? (c : ClassDecl) (name : String) : Option MethodDecl :=
  c.methods.find? fun m => m.name = name

end ClassDecl

namespace CompilationUnit

/-- The name of a class of the unit, preceded by the package unless that is empty. -/
def qualifiedName (u : CompilationUnit) (c : ClassDecl) : String :=
  match u.package with
  | some package => if package.isEmpty then c.name else package ++ "." ++ c.name
  | none => c.name

/-- The first class with the given simple or qualified name. -/
def class? (u : CompilationUnit) (name : String) : Option ClassDecl :=
  u.classes.find? fun c => c.name = name || u.qualifiedName c = name

end CompilationUnit

end Code
end TraceWeaving
