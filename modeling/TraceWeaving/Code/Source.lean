import TraceWeaving.Code.Lexeme

/-!
# Source text

Statements and declarations as indented source text.  A body that is a block stands
on the line of its header, any other body on a line of its own.
-/

namespace TraceWeaving
namespace Code

def indentation (level : Nat) : String :=
  String.ofList (List.replicate (4 * level) ' ')

def lineBreak (level : Nat) : String :=
  "\n" ++ indentation level

def exprRow (es : List Expr) : String :=
  Text.joined ", " (es.map fun e => e.sourceAt 1)

namespace ForInit

def source : ForInit → String
  | exprs es => exprRow es
  | decl type ident init => type ++ " " ++ ident ++ " = " ++ init.sourceAt 1

end ForInit

def initSource : Option Expr → String
  | some init => " = " ++ init.sourceAt 1
  | none => ""

def targetSource : Option String → String
  | some label => " " ++ label
  | none => ""

def conditionSource : Option Expr → String
  | some cond => " " ++ cond.source
  | none => ""

def updateSource : List Expr → String
  | [] => ""
  | es => " " ++ exprRow es

def caseHeader (level : Nat) : List Literal → String
  | [] => indentation level ++ "default:\n"
  | labels => String.join (labels.map fun l => indentation level ++ "case " ++ l.source ++ ":\n")

def braced (level : Nat) (lines : String) : String :=
  "\x7b\n" ++ lines ++ indentation level ++ "\x7d"

namespace Stmt

def isIf : Stmt → Bool
  | ifElse .. => true
  | _ => false

mutual

def layout (level : Nat) : Stmt → String
  | block stmts => braced level (layoutLines (level + 1) stmts)
  | decl type ident init => type ++ " " ++ ident ++ initSource init ++ ";"
  | expr e => e.source ++ ";"
  | ifElse cond ifTrue ifFalse =>
      "if (" ++ cond.source ++ ")"
        ++ (if ifTrue.isBlock then " " ++ layout level ifTrue
            else lineBreak (level + 1) ++ layout (level + 1) ifTrue)
        ++ layoutElse level (if ifTrue.isBlock then " else" else lineBreak level ++ "else")
            ifFalse
  | whileLoop cond body =>
      "while (" ++ cond.source ++ ")"
        ++ (if body.isBlock then " " ++ layout level body
            else lineBreak (level + 1) ++ layout (level + 1) body)
  | doWhile body cond =>
      "do"
        ++ (if body.isBlock then " " ++ layout level body ++ " "
            else lineBreak (level + 1) ++ layout (level + 1) body ++ lineBreak level)
        ++ "while (" ++ cond.source ++ ");"
  | forLoop init cond update body =>
      "for (" ++ init.source ++ ";" ++ conditionSource cond ++ ";" ++ updateSource update ++ ")"
        ++ (if body.isBlock then " " ++ layout level body
            else lineBreak (level + 1) ++ layout (level + 1) body)
  | forEach type ident items body =>
      "for (" ++ type ++ " " ++ ident ++ " : " ++ items.source ++ ")"
        ++ (if body.isBlock then " " ++ layout level body
            else lineBreak (level + 1) ++ layout (level + 1) body)
  | labeled label body => label ++ ": " ++ layout level body
  | switch selector cases =>
      "switch (" ++ selector.source ++ ") " ++ braced level (layoutCases (level + 1) cases)
  | breakTo label => "break" ++ targetSource label ++ ";"
  | continueTo label => "continue" ++ targetSource label ++ ";"
  | ret (some value) => "return " ++ value.source ++ ";"
  | ret none => "return;"
  | raise value => "throw " ++ value.source ++ ";"
  | tryCatch body catches cleanup =>
      "try " ++ braced level (layoutLines (level + 1) body) ++ layoutCatches level catches
        ++ layoutCleanup level cleanup
  | sync lock body =>
      "synchronized (" ++ lock.source ++ ") " ++ braced level (layoutLines (level + 1) body)
  | unmodelled text => text

def layoutLines (level : Nat) : List Stmt → String
  | [] => ""
  | s :: rest => indentation level ++ layout level s ++ "\n" ++ layoutLines level rest

def layoutElse (level : Nat) (keyword : String) : Option Stmt → String
  | none => ""
  | some s =>
      keyword
        ++ (if s.isBlock || s.isIf then " " ++ layout level s
            else lineBreak (level + 1) ++ layout (level + 1) s)

def layoutCases (level : Nat) : List SwitchCase → String
  | [] => ""
  | .mk labels body :: rest =>
      caseHeader level labels ++ layoutLines (level + 1) body ++ layoutCases level rest

def layoutCatches (level : Nat) : List CatchClause → String
  | [] => ""
  | .mk type ident body :: rest =>
      " catch (" ++ type ++ " " ++ ident ++ ") " ++ braced level (layoutLines (level + 1) body)
        ++ layoutCatches level rest

def layoutCleanup (level : Nat) : Option (List Stmt) → String
  | some stmts => " finally " ++ braced level (layoutLines (level + 1) stmts)
  | none => ""

end

def layoutBlock (level : Nat) (stmts : List Stmt) : String :=
  braced level (layoutLines (level + 1) stmts)

def source (s : Stmt) : String :=
  s.layout 0

end Stmt

def blockSource (stmts : List Stmt) : String :=
  Stmt.layoutBlock 0 stmts

namespace Annot

def source (a : Annot) : String :=
  if a.args.isEmpty then "@" ++ a.name
  else
    "@" ++ a.name ++ "("
      ++ Text.joined ", " (a.args.map fun arg => arg.1 ++ " = " ++ arg.2.source) ++ ")"

end Annot

namespace MethodDecl

def bodySource (level : Nat) : Option (List Stmt) → String
  | some stmts => " " ++ Stmt.layoutBlock level stmts
  | none => ";"

def modifiers (m : MethodDecl) : String :=
  if m.isConstructor then "public "
  else if m.body.isNone then "public abstract "
  else if m.isStatic then "public static "
  else "public "

def returnTypeSource : Option TypeName → String
  | some type => type ++ " "
  | none => ""

def sourceAt (level : Nat) (m : MethodDecl) : String :=
  String.join (m.annotations.map fun a => indentation level ++ a.source ++ "\n")
    ++ indentation level ++ m.modifiers ++ returnTypeSource m.returnType ++ m.name
    ++ "(" ++ Text.joined ", " (m.params.map fun p => p.type ++ " " ++ p.name) ++ ")"
    ++ bodySource level m.body

def source (m : MethodDecl) : String :=
  m.sourceAt 0

end MethodDecl

namespace FieldDecl

def source (f : FieldDecl) : String :=
  "private " ++ (if f.isStatic then "static " else "") ++ f.type ++ " " ++ f.name
    ++ initSource f.init ++ ";"

end FieldDecl

namespace ClassDecl

/-- Methods are set apart from one another and from the fields by an empty line. -/
def membersSource (c : ClassDecl) : String :=
  let fields := String.join (c.fields.map fun f => indentation 1 ++ f.source ++ "\n")
  let methods := Text.joined "\n" (c.methods.map fun m => m.sourceAt 1 ++ "\n")
  if c.fields.isEmpty || c.methods.isEmpty then fields ++ methods
  else fields ++ "\n" ++ methods

def source (c : ClassDecl) : String :=
  String.join (c.annotations.map fun a => a.source ++ "\n")
    ++ "public class " ++ c.name ++ " \x7b\n" ++ c.membersSource ++ "\x7d"

end ClassDecl

namespace CompilationUnit

def packageSource : Option String → String
  | some package => "package " ++ package ++ ";\n\n"
  | none => ""

def source (u : CompilationUnit) : String :=
  packageSource u.package ++ Text.joined "\n\n" (u.classes.map ClassDecl.source) ++ "\n"

end CompilationUnit

end Code
end TraceWeaving
