import TraceWeaving.Code.Basic

/-!
# Building trees

Short forms for the nodes that are built most often, and declarations that start
from an empty one and are extended part by part.
-/

namespace TraceWeaving
namespace Code

namespace Expr

def int (n : Int64) : Expr :=
  lit (.int n)

def long (n : Int64) : Expr :=
  lit (.long n)

def bool (b : Bool) : Expr :=
  lit (.bool b)

def text (s : String) : Expr :=
  lit (.str s)

def null : Expr :=
  lit .null

def set (target value : Expr) : Expr :=
  assign .plain target value

def callOwn (method : String) (args : List Expr) : Expr :=
  call none method args

def callOn (receiver : Expr) (method : String) (args : List Expr) : Expr :=
  call (some receiver) method args

end Expr

namespace Stmt

def declare (type : TypeName) (ident : String) (init : Expr) : Stmt :=
  decl type ident (some init)

def retValue (value : Expr) : Stmt :=
  ret (some value)

def raiseNew (cls message : String) : Stmt :=
  raise (.new cls [.text message])

end Stmt

namespace Annot

def marker (name : String) : Annot :=
  ⟨name, []⟩

def withArg (a : Annot) (key : String) (value : Literal) : Annot :=
  { a with args := a.args ++ [(key, value)] }

end Annot

namespace MethodDecl

def procedure (name : String) : MethodDecl where
  name := name
  kind := .method
  annotations := []
  isStatic := true
  params := []
  returnType := some "void"
  body := some []

def emptyConstructor (className : String) : MethodDecl :=
  { procedure className with kind := .constructor, isStatic := false, returnType := none }

def returning (m : MethodDecl) (type : TypeName) : MethodDecl :=
  { m with returnType := some type }

def withParam (m : MethodDecl) (name : String) (type : TypeName) : MethodDecl :=
  { m with params := m.params ++ [⟨name, type⟩] }

def withAnnotation (m : MethodDecl) (a : Annot) : MethodDecl :=
  { m with annotations := m.annotations ++ [a] }

def withBody (m : MethodDecl) (stmts : List Stmt) : MethodDecl :=
  { m with body := some stmts }

def withoutBody (m : MethodDecl) : MethodDecl :=
  { m with body := none }

end MethodDecl

namespace ClassDecl

def empty (name : String) : ClassDecl :=
  ⟨name, [], [], []⟩

def withAnnotation (c : ClassDecl) (a : Annot) : ClassDecl :=
  { c with annotations := c.annotations ++ [a] }

def withField (c : ClassDecl) (f : FieldDecl) : ClassDecl :=
  { c with fields := c.fields ++ [f] }

def withMethod (c : ClassDecl) (m : MethodDecl) : ClassDecl :=
  { c with methods := c.methods ++ [m] }

end ClassDecl

end Code
end TraceWeaving
