import TraceWeaving.Code.Decode
import TraceWeaving.Proofs.Json.Records

/-!
# Spellings of trees

The documents that stand for a node: the one that encoding produces, and all that differ
from it in how records and variants without content are written, at any depth.
-/

namespace TraceWeaving
namespace Code

open Json (SpelledOption SpelledList SpelledText SpelledBool SpelledTag SpelledVariant
  SpelledRecord)
open Json.Slot (Required Optional Defaulted)

def BinaryOp.Spelled (op : BinaryOp) : Json → Prop :=
  SpelledTag op.tag

def AssignOp.Spelled (op : AssignOp) : Json → Prop :=
  SpelledTag op.tag

def UnaryOp.Spelled (op : UnaryOp) : Json → Prop :=
  SpelledTag op.tag

def MethodKind.Spelled (kind : MethodKind) : Json → Prop :=
  SpelledTag kind.tag

def Literal.Spelled : Literal → Json → Prop
  | int n => SpelledVariant "Int" fun doc => doc = .int n.toInt
  | long n => SpelledVariant "Long" fun doc => doc = .int n.toInt
  | bool b => SpelledVariant "Bool" (SpelledBool b)
  | str s => SpelledVariant "Str" (SpelledText s)
  | null => SpelledTag "Null"

def SpelledItems (items : List Json → Prop) : Json → Prop
  | .arr docs => items docs
  | _ => False

def SpelledStmts (stmts : List Json → Prop) : Json → Prop :=
  SpelledRecord [("stmts", Required (SpelledItems stmts))]

section

variable {α : Type} {spelled : α → Json → Prop}

theorem spelledItems_eq_list {all : List α → List Json → Prop} (hnil : ∀ docs, all [] docs ↔ docs = [])
    (hcons : ∀ a rest docs, all (a :: rest) docs ↔
      ∃ doc docs', spelled a doc ∧ all rest docs' ∧ docs = doc :: docs') (items : List α) :
    SpelledItems (all items) = SpelledList spelled items := by
  funext doc
  cases doc with
  | arr docs =>
      show all items docs = List.Forall₂ spelled items docs
      induction items generalizing docs with
      | nil => simp [hnil]
      | cons a items ih => simp only [hcons, List.forall₂_cons_left_iff, ih]
  | null | bool _ | int _ | real _ | str _ | obj _ | unreadable => rfl

theorem spelledOption_eq {opt : Option α → Json → Prop} (hnone : ∀ doc, opt none doc ↔ doc = .null)
    (hsome : ∀ a doc, opt (some a) doc ↔ doc ≠ .null ∧ spelled a doc) (value : Option α) :
    opt value = SpelledOption spelled value := by
  funext doc
  cases value with
  | none => exact propext (hnone doc)
  | some a => exact propext (hsome a doc)

end

namespace Expr

mutual

def Spelled : Expr → Json → Prop
  | lit value => SpelledVariant "Literal" value.Spelled
  | name ident => SpelledVariant "Name" (SpelledText ident)
  | self => SpelledTag "This"
  | field target member =>
      SpelledVariant "Field" (SpelledRecord
        [("target", Required (Spelled target)), ("name", Required (SpelledText member))])
  | index target position =>
      SpelledVariant "Index" (SpelledRecord
        [("target", Required (Spelled target)), ("index", Required (Spelled position))])
  | assign op target value =>
      SpelledVariant "Assign" (SpelledRecord
        [("op", Required op.Spelled), ("target", Required (Spelled target)),
          ("value", Required (Spelled value))])
  | unary op operand =>
      SpelledVariant "Unary" (SpelledRecord
        [("op", Required op.Spelled), ("operand", Required (Spelled operand))])
  | binary op left right =>
      SpelledVariant "Binary" (SpelledRecord
        [("op", Required op.Spelled), ("left", Required (Spelled left)),
          ("right", Required (Spelled right))])
  | conditional cond ifTrue ifFalse =>
      SpelledVariant "Conditional" (SpelledRecord
        [("cond", Required (Spelled cond)), ("then_expr", Required (Spelled ifTrue)),
          ("else_expr", Required (Spelled ifFalse))])
  | call receiver method args =>
      SpelledVariant "Call" (SpelledRecord
        [("receiver", Optional (receiver = none) (SpelledReceiver receiver)),
          ("name", Required (SpelledText method)),
          ("args", Required (SpelledItems (SpelledAll args)))])
  | new cls args =>
      SpelledVariant "New" (SpelledRecord
        [("class", Required (SpelledText cls)), ("args", Required (SpelledItems (SpelledAll args)))])
  | newArray elemType elements =>
      SpelledVariant "ArrayInit" (SpelledRecord
        [("elem_ty", Required (SpelledText elemType)),
          ("elements", Required (SpelledItems (SpelledAll elements)))])
  | superCall args => SpelledVariant "SuperCall" (SpelledItems (SpelledAll args))
  | selfCall args => SpelledVariant "ThisCall" (SpelledItems (SpelledAll args))

def SpelledReceiver : Option Expr → Json → Prop
  | none, doc => doc = .null
  | some receiver, doc => doc ≠ .null ∧ Spelled receiver doc

def SpelledAll : List Expr → List Json → Prop
  | [], docs => docs = []
  | e :: rest, docs => ∃ doc docs', Spelled e doc ∧ SpelledAll rest docs' ∧ docs = doc :: docs'

end

theorem spelledReceiver_eq (receiver : Option Expr) :
    SpelledReceiver receiver = SpelledOption Spelled receiver :=
  spelledOption_eq (fun _ => by rw [SpelledReceiver]) (fun _ _ => by rw [SpelledReceiver]) receiver

theorem spelledItems_eq (es : List Expr) : SpelledItems (SpelledAll es) = SpelledList Spelled es :=
  spelledItems_eq_list (fun _ => by rw [SpelledAll]) (fun _ _ _ => by rw [SpelledAll]) es

end Expr

namespace ForInit

def Spelled : ForInit → Json → Prop
  | exprs es => SpelledVariant "Exprs" (SpelledList Expr.Spelled es)
  | decl type ident init =>
      SpelledVariant "Decl" (SpelledRecord
        [("ty", Required (SpelledText type)), ("name", Required (SpelledText ident)),
          ("init", Required init.Spelled)])

end ForInit

namespace Stmt

mutual

def Spelled : Stmt → Json → Prop
  | block stmts => SpelledVariant "Block" (SpelledStmts (SpelledAll stmts))
  | decl type ident init =>
      SpelledVariant "Local" (SpelledRecord
        [("ty", Required (SpelledText type)), ("name", Required (SpelledText ident)),
          ("init", Optional (init = none) (SpelledOption Expr.Spelled init))])
  | expr e => SpelledVariant "Expr" e.Spelled
  | ifElse cond ifTrue ifFalse =>
      SpelledVariant "If" (SpelledRecord
        [("cond", Required cond.Spelled), ("then_branch", Required (Spelled ifTrue)),
          ("else_branch", Optional (ifFalse = none) (SpelledElse ifFalse))])
  | whileLoop cond body =>
      SpelledVariant "While" (SpelledRecord
        [("cond", Required cond.Spelled), ("body", Required (Spelled body))])
  | doWhile body cond =>
      SpelledVariant "DoWhile" (SpelledRecord
        [("body", Required (Spelled body)), ("cond", Required cond.Spelled)])
  | forLoop init cond update body =>
      SpelledVariant "For" (SpelledRecord
        [("init", Required init.Spelled),
          ("cond", Optional (cond = none) (SpelledOption Expr.Spelled cond)),
          ("update", Required (SpelledList Expr.Spelled update)),
          ("body", Required (Spelled body))])
  | forEach type ident items body =>
      SpelledVariant "ForEach" (SpelledRecord
        [("ty", Required (SpelledText type)), ("name", Required (SpelledText ident)),
          ("iterable", Required items.Spelled), ("body", Required (Spelled body))])
  | labeled label body =>
      SpelledVariant "Labeled" (SpelledRecord
        [("label", Required (SpelledText label)), ("body", Required (Spelled body))])
  | switch selector cases =>
      SpelledVariant "Switch" (SpelledRecord
        [("selector", Required selector.Spelled),
          ("cases", Required (SpelledItems (SpelledCases cases)))])
  | breakTo label => SpelledVariant "Break" (SpelledOption SpelledText label)
  | continueTo label => SpelledVariant "Continue" (SpelledOption SpelledText label)
  | ret value => SpelledVariant "Return" (SpelledOption Expr.Spelled value)
  | raise value => SpelledVariant "Throw" value.Spelled
  | tryCatch body catches cleanup =>
      SpelledVariant "Try" (SpelledRecord
        [("body", Required (SpelledStmts (SpelledAll body))),
          ("catches", Defaulted (catches = []) (SpelledItems (SpelledCatches catches))),
          ("finally", Defaulted (cleanup = none) (SpelledCleanup cleanup))])
  | sync lock body =>
      SpelledVariant "Synchronized" (SpelledRecord
        [("lock", Required lock.Spelled), ("body", Required (SpelledStmts (SpelledAll body)))])
  | unmodelled text => SpelledVariant "Opaque" (SpelledText text)

def SpelledAll : List Stmt → List Json → Prop
  | [], docs => docs = []
  | s :: rest, docs => ∃ doc docs', Spelled s doc ∧ SpelledAll rest docs' ∧ docs = doc :: docs'

def SpelledElse : Option Stmt → Json → Prop
  | none, doc => doc = .null
  | some s, doc => doc ≠ .null ∧ Spelled s doc

def SpelledCases : List SwitchCase → List Json → Prop
  | [], docs => docs = []
  | .mk labels body :: rest, docs => ∃ doc docs',
      SpelledRecord
        [("labels", Required (SpelledList Literal.Spelled labels)),
          ("body", Required (SpelledItems (SpelledAll body)))] doc ∧
      SpelledCases rest docs' ∧ docs = doc :: docs'

def SpelledCatches : List CatchClause → List Json → Prop
  | [], docs => docs = []
  | .mk type ident body :: rest, docs => ∃ doc docs',
      SpelledRecord
        [("ty", Required (SpelledText type)), ("name", Required (SpelledText ident)),
          ("body", Required (SpelledStmts (SpelledAll body)))] doc ∧
      SpelledCatches rest docs' ∧ docs = doc :: docs'

def SpelledCleanup : Option (List Stmt) → Json → Prop
  | none, doc => doc = .null
  | some stmts, doc => doc ≠ .null ∧ SpelledStmts (SpelledAll stmts) doc

end

theorem spelledItems_eq (stmts : List Stmt) :
    SpelledItems (SpelledAll stmts) = SpelledList Spelled stmts :=
  spelledItems_eq_list (fun _ => by rw [SpelledAll]) (fun _ _ _ => by rw [SpelledAll]) stmts

theorem spelledElse_eq (branch : Option Stmt) : SpelledElse branch = SpelledOption Spelled branch :=
  spelledOption_eq (fun _ => by rw [SpelledElse]) (fun _ _ => by rw [SpelledElse]) branch

end Stmt

def SpelledBlock (stmts : List Stmt) : Json → Prop :=
  SpelledRecord [("stmts", Required (SpelledList Stmt.Spelled stmts))]

theorem spelledStmts_eq (stmts : List Stmt) :
    SpelledStmts (Stmt.SpelledAll stmts) = SpelledBlock stmts := by
  rw [SpelledStmts, SpelledBlock, Stmt.spelledItems_eq]

def SwitchCase.Spelled (c : SwitchCase) : Json → Prop :=
  SpelledRecord
    [("labels", Required (SpelledList Literal.Spelled c.labels)),
      ("body", Required (SpelledList Stmt.Spelled c.body))]

def CatchClause.Spelled (c : CatchClause) : Json → Prop :=
  SpelledRecord
    [("ty", Required (SpelledText c.type)), ("name", Required (SpelledText c.ident)),
      ("body", Required (SpelledBlock c.body))]

namespace Stmt

theorem spelledCases_eq (cases : List SwitchCase) :
    SpelledItems (SpelledCases cases) = SpelledList SwitchCase.Spelled cases := by
  refine spelledItems_eq_list (fun _ => by rw [SpelledCases]) ?_ cases
  intro c rest docs
  cases c with
  | mk labels body => simp only [SpelledCases, SwitchCase.Spelled, spelledItems_eq,
      SwitchCase.labels, SwitchCase.body]

theorem spelledCatches_eq (catches : List CatchClause) :
    SpelledItems (SpelledCatches catches) = SpelledList CatchClause.Spelled catches := by
  refine spelledItems_eq_list (fun _ => by rw [SpelledCatches]) ?_ catches
  intro c rest docs
  cases c with
  | mk type ident body => simp only [SpelledCatches, CatchClause.Spelled, spelledStmts_eq,
      CatchClause.type, CatchClause.ident, CatchClause.body]

theorem spelledCleanup_eq (cleanup : Option (List Stmt)) :
    SpelledCleanup cleanup = SpelledOption SpelledBlock cleanup :=
  spelledOption_eq (fun _ => by rw [SpelledCleanup])
    (fun _ _ => by rw [SpelledCleanup, spelledStmts_eq]) cleanup

end Stmt

/-! ## Declarations -/

def SpelledArg (arg : String × Literal) : Json → Prop
  | .arr [key, value] => SpelledText arg.1 key ∧ arg.2.Spelled value
  | _ => False

def Annot.Spelled (a : Annot) : Json → Prop :=
  SpelledRecord
    [("name", Required (SpelledText a.name)),
      ("args", Defaulted (a.args = []) (SpelledList SpelledArg a.args))]

def Param.Spelled (p : Param) : Json → Prop :=
  SpelledRecord [("name", Required (SpelledText p.name)), ("ty", Required (SpelledText p.type))]

def FieldDecl.Spelled (f : FieldDecl) : Json → Prop :=
  SpelledRecord
    [("name", Required (SpelledText f.name)), ("ty", Required (SpelledText f.type)),
      ("is_static", Defaulted (f.isStatic = false) (SpelledBool f.isStatic)),
      ("init", Defaulted (f.init = none) (SpelledOption Expr.Spelled f.init))]

def MethodDecl.Spelled (m : MethodDecl) : Json → Prop :=
  SpelledRecord
    [("name", Required (SpelledText m.name)),
      ("kind", Defaulted (m.kind = .method) m.kind.Spelled),
      ("annotations", Defaulted (m.annotations = []) (SpelledList Annot.Spelled m.annotations)),
      ("is_static", Defaulted (m.isStatic = false) (SpelledBool m.isStatic)),
      ("params", Defaulted (m.params = []) (SpelledList Param.Spelled m.params)),
      ("return_type", Defaulted (m.returnType = none) (SpelledOption SpelledText m.returnType)),
      ("body", Defaulted (m.body = none) (SpelledOption SpelledBlock m.body))]

def ClassDecl.Spelled (c : ClassDecl) : Json → Prop :=
  SpelledRecord
    [("name", Required (SpelledText c.name)),
      ("annotations", Defaulted (c.annotations = []) (SpelledList Annot.Spelled c.annotations)),
      ("fields", Defaulted (c.fields = []) (SpelledList FieldDecl.Spelled c.fields)),
      ("methods", Defaulted (c.methods = []) (SpelledList MethodDecl.Spelled c.methods))]

def CompilationUnit.Spelled (u : CompilationUnit) : Json → Prop :=
  SpelledRecord
    [("package", Defaulted (u.package = none) (SpelledOption SpelledText u.package)),
      ("classes", Defaulted (u.classes = []) (SpelledList ClassDecl.Spelled u.classes))]

end Code
end TraceWeaving
