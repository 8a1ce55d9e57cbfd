import TraceWeaving.Code.Build
import TraceWeaving.Command.Tool
import TraceWeaving.Proofs.Code.Reading
import TraceWeaving.Proofs.Json.Printed

/-!
# Documents of trees

The document that encoding produces is one of the spellings of a node.  So a node is read
back from its document, and whatever else is read as this node is written as this document.
The document is made of data, so a unit is read back from its text as well, unless it is
nested too deep.
-/

namespace TraceWeaving
namespace Code

open Json (SpelledOption SpelledList SpelledText SpelledBool SpelledTag SpelledVariant
  SpelledRecord)
open Json.Slot (Required Optional Defaulted)

/-! ## Encoding spells -/

section

variable {α : Type} {spelled : α → Json → Prop} {encode : α → Json}

theorem spelledOption_encode (hspelled : ∀ a, spelled a (encode a)) (hnull : ∀ a, encode a ≠ .null)
    (value : Option α) : SpelledOption spelled value (encodeOption encode value) := by
  cases value with
  | none => rfl
  | some a => exact ⟨hnull a, hspelled a⟩

theorem spelledList_encode (hspelled : ∀ a, spelled a (encode a)) (items : List α) :
    SpelledList spelled items (encodeList encode items) := by
  show List.Forall₂ spelled items (items.map encode)
  induction items with
  | nil => exact .nil
  | cons a items ih => exact .cons (hspelled a) ih

end

theorem spelled_encodeText (s : String) : SpelledText s (encodeText s) :=
  rfl

theorem Literal.spelled_encode (value : Literal) : value.Spelled value.encode := by
  cases value with
  | null => exact .inl rfl
  | int _ | long _ | bool _ | str _ => exact ⟨rfl, rfl⟩

namespace Expr

theorem encode_ne_null (e : Expr) : e.encode ≠ .null := by
  cases e <;> simp [encode, variant]

mutual

theorem spelled_encode (e : Expr) : e.Spelled e.encode := by
  cases e with
  | lit value => exact ⟨rfl, value.spelled_encode⟩
  | name ident => exact ⟨rfl, rfl⟩
  | self => exact .inl rfl
  | field target member =>
      exact ⟨rfl, Json.spelledRecord_obj (by simp)
        (.cons ⟨rfl, spelled_encode target⟩ (.cons ⟨rfl, rfl⟩ .nil))⟩
  | index target position =>
      exact ⟨rfl, Json.spelledRecord_obj (by simp)
        (.cons ⟨rfl, spelled_encode target⟩ (.cons ⟨rfl, spelled_encode position⟩ .nil))⟩
  | assign op target value =>
      exact ⟨rfl, Json.spelledRecord_obj (by simp)
        (.cons ⟨rfl, .inl rfl⟩ (.cons ⟨rfl, spelled_encode target⟩
          (.cons ⟨rfl, spelled_encode value⟩ .nil)))⟩
  | unary op operand =>
      exact ⟨rfl, Json.spelledRecord_obj (by simp)
        (.cons ⟨rfl, .inl rfl⟩ (.cons ⟨rfl, spelled_encode operand⟩ .nil))⟩
  | binary op left right =>
      exact ⟨rfl, Json.spelledRecord_obj (by simp)
        (.cons ⟨rfl, .inl rfl⟩ (.cons ⟨rfl, spelled_encode left⟩
          (.cons ⟨rfl, spelled_encode right⟩ .nil)))⟩
  | conditional cond ifTrue ifFalse =>
      exact ⟨rfl, Json.spelledRecord_obj (by simp)
        (.cons ⟨rfl, spelled_encode cond⟩ (.cons ⟨rfl, spelled_encode ifTrue⟩
          (.cons ⟨rfl, spelled_encode ifFalse⟩ .nil)))⟩
  | call receiver method args =>
      exact ⟨rfl, Json.spelledRecord_obj (by simp)
        (.cons ⟨rfl, spelledReceiver_encode receiver⟩ (.cons ⟨rfl, rfl⟩
          (.cons ⟨rfl, spelledAll_encode args⟩ .nil)))⟩
  | new cls args =>
      exact ⟨rfl, Json.spelledRecord_obj (by simp)
        (.cons ⟨rfl, rfl⟩ (.cons ⟨rfl, spelledAll_encode args⟩ .nil))⟩
  | newArray elemType elements =>
      exact ⟨rfl, Json.spelledRecord_obj (by simp)
        (.cons ⟨rfl, rfl⟩ (.cons ⟨rfl, spelledAll_encode elements⟩ .nil))⟩
  | superCall args => exact ⟨rfl, spelledAll_encode args⟩
  | selfCall args => exact ⟨rfl, spelledAll_encode args⟩

theorem spelledReceiver_encode (receiver : Option Expr) :
    SpelledReceiver receiver (encodeReceiver receiver) := by
  cases receiver with
  | none => rfl
  | some receiver => exact ⟨receiver.encode_ne_null, spelled_encode receiver⟩

theorem spelledAll_encode (es : List Expr) : SpelledAll es (encodeAll es) := by
  cases es with
  | nil => rfl
  | cons e es => exact ⟨_, _, spelled_encode e, spelledAll_encode es, rfl⟩

end

end Expr

theorem ForInit.spelled_encode (init : ForInit) : init.Spelled init.encode := by
  cases init with
  | exprs es => exact ⟨rfl, spelledList_encode Expr.spelled_encode es⟩
  | decl type ident init =>
      exact ⟨rfl, Json.spelledRecord_obj (by simp)
        (.cons ⟨rfl, rfl⟩ (.cons ⟨rfl, rfl⟩ (.cons ⟨rfl, init.spelled_encode⟩ .nil)))⟩

theorem spelledStmts_encodeBlock {stmts : List Json → Prop} {docs : List Json} (h : stmts docs) :
    SpelledStmts stmts (encodeBlock docs) :=
  Json.spelledRecord_obj (by simp) (.cons ⟨rfl, h⟩ .nil)

theorem spelledOption_text (text : Option String) :
    SpelledOption SpelledText text (encodeOption encodeText text) :=
  spelledOption_encode spelled_encodeText (by simp [encodeText]) text

theorem spelledOption_expr (e : Option Expr) :
    SpelledOption Expr.Spelled e (encodeOption Expr.encode e) :=
  spelledOption_encode Expr.spelled_encode Expr.encode_ne_null e

namespace Stmt

theorem encode_ne_null (s : Stmt) : s.encode ≠ .null := by
  cases s <;> simp [encode, variant]

mutual

theorem spelled_encode (s : Stmt) : s.Spelled s.encode := by
  cases s with
  | block stmts => exact ⟨rfl, spelledStmts_encodeBlock (spelledAll_encode stmts)⟩
  | decl type ident init =>
      exact ⟨rfl, Json.spelledRecord_obj (by simp)
        (.cons ⟨rfl, rfl⟩ (.cons ⟨rfl, rfl⟩ (.cons ⟨rfl, spelledOption_expr init⟩ .nil)))⟩
  | expr e => exact ⟨rfl, e.spelled_encode⟩
  | ifElse cond ifTrue ifFalse =>
      exact ⟨rfl, Json.spelledRecord_obj (by simp)
        (.cons ⟨rfl, cond.spelled_encode⟩ (.cons ⟨rfl, spelled_encode ifTrue⟩
          (.cons ⟨rfl, spelledElse_encode ifFalse⟩ .nil)))⟩
  | whileLoop cond body =>
      exact ⟨rfl, Json.spelledRecord_obj (by simp)
        (.cons ⟨rfl, cond.spelled_encode⟩ (.cons ⟨rfl, spelled_encode body⟩ .nil))⟩
  | doWhile body cond =>
      exact ⟨rfl, Json.spelledRecord_obj (by simp)
        (.cons ⟨rfl, spelled_encode body⟩ (.cons ⟨rfl, cond.spelled_encode⟩ .nil))⟩
  | forLoop init cond update body =>
      exact ⟨rfl, Json.spelledRecord_obj (by simp)
        (.cons ⟨rfl, init.spelled_encode⟩ (.cons ⟨rfl, spelledOption_expr cond⟩
          (.cons ⟨rfl, spelledList_encode Expr.spelled_encode update⟩
            (.cons ⟨rfl, spelled_encode body⟩ .nil))))⟩
  | forEach type ident items body =>
      exact ⟨rfl, Json.spelledRecord_obj (by simp)
        (.cons ⟨rfl, rfl⟩ (.cons ⟨rfl, rfl⟩ (.cons ⟨rfl, items.spelled_encode⟩
          (.cons ⟨rfl, spelled_encode body⟩ .nil))))⟩
  | labeled label body =>
      exact ⟨rfl, Json.spelledRecord_obj (by simp)
        (.cons ⟨rfl, rfl⟩ (.cons ⟨rfl, spelled_encode body⟩ .nil))⟩
  | switch selector cases =>
      exact ⟨rfl, Json.spelledRecord_obj (by simp)
        (.cons ⟨rfl, selector.spelled_encode⟩ (.cons ⟨rfl, spelledCases_encode cases⟩ .nil))⟩
  | breakTo label => exact ⟨rfl, spelledOption_text label⟩
  | continueTo label => exact ⟨rfl, spelledOption_text label⟩
  | ret value => exact ⟨rfl, spelledOption_expr value⟩
  | raise value => exact ⟨rfl, value.spelled_encode⟩
  | tryCatch body catches cleanup =>
      exact ⟨rfl, Json.spelledRecord_obj (by simp)
        (.cons ⟨rfl, spelledStmts_encodeBlock (spelledAll_encode body)⟩
          (.cons ⟨rfl, spelledCatches_encode catches⟩
            (.cons ⟨rfl, spelledCleanup_encode cleanup⟩ .nil)))⟩
  | sync lock body =>
      exact ⟨rfl, Json.spelledRecord_obj (by simp)
        (.cons ⟨rfl, lock.spelled_encode⟩
          (.cons ⟨rfl, spelledStmts_encodeBlock (spelledAll_encode body)⟩ .nil))⟩
  | unmodelled text => exact ⟨rfl, rfl⟩

theorem spelledAll_encode (stmts : List Stmt) : SpelledAll stmts (encodeAll stmts) := by
  cases stmts with
  | nil => rfl
  | cons s stmts => exact ⟨_, _, spelled_encode s, spelledAll_encode stmts, rfl⟩

theorem spelledElse_encode (branch : Option Stmt) : SpelledElse branch (encodeElse branch) := by
  cases branch with
  | none => rfl
  | some s => exact ⟨s.encode_ne_null, spelled_encode s⟩

theorem spelledCases_encode (cases : List SwitchCase) : SpelledCases cases (encodeCases cases) := by
  match cases with
  | [] => rfl
  | .mk labels body :: cases =>
      refine ⟨_, _, ?_, spelledCases_encode cases, rfl⟩
      exact Json.spelledRecord_obj (by simp)
        (.cons ⟨rfl, spelledList_encode Literal.spelled_encode labels⟩
          (.cons ⟨rfl, spelledAll_encode body⟩ .nil))

theorem spelledCatches_encode (catches : List CatchClause) :
    SpelledCatches catches (encodeCatches catches) := by
  match catches with
  | [] => rfl
  | .mk type ident body :: catches =>
      refine ⟨_, _, ?_, spelledCatches_encode catches, rfl⟩
      exact Json.spelledRecord_obj (by simp)
        (.cons ⟨rfl, rfl⟩ (.cons ⟨rfl, rfl⟩
          (.cons ⟨rfl, spelledStmts_encodeBlock (spelledAll_encode body)⟩ .nil)))

theorem spelledCleanup_encode (cleanup : Option (List Stmt)) :
    SpelledCleanup cleanup (encodeCleanup cleanup) := by
  match cleanup with
  | none => rfl
  | some stmts =>
      exact ⟨by simp [encodeCleanup, encodeBlock],
        spelledStmts_encodeBlock (spelledAll_encode stmts)⟩

end

end Stmt

theorem spelledBlock_encode (stmts : List Stmt) : SpelledBlock stmts (blockDocument stmts) := by
  rw [← spelledStmts_eq]
  exact spelledStmts_encodeBlock (Stmt.spelledAll_encode stmts)

theorem CatchClause.spelled_encode (c : CatchClause) : c.Spelled c.encode :=
  Json.spelledRecord_obj (by simp)
    (.cons ⟨rfl, rfl⟩ (.cons ⟨rfl, rfl⟩ (.cons ⟨rfl, spelledBlock_encode c.body⟩ .nil)))

theorem Annot.spelled_encode (a : Annot) : a.Spelled a.encode :=
  Json.spelledRecord_obj (by simp)
    (.cons ⟨rfl, rfl⟩ (.cons ⟨rfl, spelledList_encode
      (fun arg => ⟨rfl, arg.2.spelled_encode⟩) a.args⟩ .nil))

theorem Param.spelled_encode (p : Param) : p.Spelled p.encode :=
  Json.spelledRecord_obj (by simp) (.cons ⟨rfl, rfl⟩ (.cons ⟨rfl, rfl⟩ .nil))

theorem FieldDecl.spelled_encode (f : FieldDecl) : f.Spelled f.encode :=
  Json.spelledRecord_obj (by simp)
    (.cons ⟨rfl, rfl⟩ (.cons ⟨rfl, rfl⟩ (.cons ⟨rfl, rfl⟩
      (.cons ⟨rfl, spelledOption_expr f.init⟩ .nil))))

theorem MethodDecl.spelled_encode (m : MethodDecl) : m.Spelled m.encode :=
  Json.spelledRecord_obj (by simp)
    (.cons ⟨rfl, rfl⟩ (.cons ⟨rfl, .inl rfl⟩
      (.cons ⟨rfl, spelledList_encode Annot.spelled_encode m.annotations⟩ (.cons ⟨rfl, rfl⟩
        (.cons ⟨rfl, spelledList_encode Param.spelled_encode m.params⟩
          (.cons ⟨rfl, spelledOption_text m.returnType⟩
            (.cons ⟨rfl, spelledOption_encode spelledBlock_encode
              (by simp [blockDocument, encodeBlock]) m.body⟩ .nil)))))))

theorem ClassDecl.spelled_encode (c : ClassDecl) : c.Spelled c.encode :=
  Json.spelledRecord_obj (by simp)
    (.cons ⟨rfl, rfl⟩ (.cons ⟨rfl, spelledList_encode Annot.spelled_encode c.annotations⟩
      (.cons ⟨rfl, spelledList_encode FieldDecl.spelled_encode c.fields⟩
        (.cons ⟨rfl, spelledList_encode MethodDecl.spelled_encode c.methods⟩ .nil))))

theorem CompilationUnit.spelled_encode (u : CompilationUnit) : u.Spelled u.encode :=
  Json.spelledRecord_obj (by simp)
    (.cons ⟨rfl, spelledOption_text u.package⟩
      (.cons ⟨rfl, spelledList_encode ClassDecl.spelled_encode u.classes⟩ .nil))

/-! ## Encoding makes data -/

section

variable {α : Type} {encode : α → Json} (hencode : ∀ a, (encode a).isData = true)

include hencode

theorem isData_encodeOption (value : Option α) : (encodeOption encode value).isData = true := by
  cases value with
  | none => rfl
  | some a => exact hencode a

theorem isData_encodeList (items : List α) : (encodeList encode items).isData = true := by
  show Json.areData (items.map encode) = true
  induction items with
  | nil => rfl
  | cons a items ih => simp [hencode a, ih]

end

theorem isData_variant (tag : String) (content : Json) :
    (variant tag content).isData = content.isData := by
  simp [variant]

theorem isData_encodeBlock (docs : List Json) : (encodeBlock docs).isData = Json.areData docs := by
  simp [encodeBlock]

theorem isData_optionText (text : Option String) : (encodeOption encodeText text).isData = true :=
  isData_encodeOption (fun _ => rfl) text

theorem Literal.isData_encode (value : Literal) : value.encode.isData = true := by
  cases value <;> rfl

namespace Expr

mutual

theorem isData_encode (e : Expr) : e.encode.isData = true := by
  cases e with
  | lit value => exact (isData_variant _ _).trans value.isData_encode
  | name _ | self => rfl
  | field target _ => simp [encode, isData_variant, isData_encode target]
  | index target position =>
      simp [encode, isData_variant, isData_encode target, isData_encode position]
  | assign op target value =>
      simp [encode, isData_variant, AssignOp.encode, isData_encode target, isData_encode value]
  | unary op operand => simp [encode, isData_variant, UnaryOp.encode, isData_encode operand]
  | binary op left right =>
      simp [encode, isData_variant, BinaryOp.encode, isData_encode left, isData_encode right]
  | conditional cond ifTrue ifFalse =>
      simp [encode, isData_variant, isData_encode cond, isData_encode ifTrue,
        isData_encode ifFalse]
  | call receiver _ args =>
      simp [encode, isData_variant, isData_encodeReceiver receiver, areData_encodeAll args]
  | new _ args | newArray _ args | superCall args | selfCall args =>
      simp [encode, isData_variant, areData_encodeAll args]

theorem isData_encodeReceiver (receiver : Option Expr) :
    (encodeReceiver receiver).isData = true := by
  cases receiver with
  | none => rfl
  | some receiver => exact isData_encode receiver

theorem areData_encodeAll (es : List Expr) : Json.areData (encodeAll es) = true := by
  cases es with
  | nil => rfl
  | cons e es => simp [encodeAll, isData_encode e, areData_encodeAll es]

end

end Expr

theorem isData_optionExpr (e : Option Expr) : (encodeOption Expr.encode e).isData = true :=
  isData_encodeOption Expr.isData_encode e

theorem ForInit.isData_encode (init : ForInit) : init.encode.isData = true := by
  cases init with
  | exprs es => exact (isData_variant _ _).trans (isData_encodeList Expr.isData_encode es)
  | decl _ _ init => simp [encode, isData_variant, init.isData_encode]

namespace Stmt

mutual

theorem isData_encode (s : Stmt) : s.encode.isData = true := by
  cases s with
  | block stmts => simp [encode, isData_variant, isData_encodeBlock, areData_encodeAll stmts]
  | decl _ _ init => simp [encode, isData_variant, isData_optionExpr init]
  | expr e | raise e => exact (isData_variant _ _).trans e.isData_encode
  | ifElse cond ifTrue ifFalse =>
      simp [encode, isData_variant, cond.isData_encode, isData_encode ifTrue,
        isData_encodeElse ifFalse]
  | whileLoop cond body | doWhile body cond =>
      simp [encode, isData_variant, cond.isData_encode, isData_encode body]
  | forLoop init cond update body =>
      simp [encode, isData_variant, init.isData_encode, isData_optionExpr cond,
        isData_encodeList Expr.isData_encode update, isData_encode body]
  | forEach _ _ items body =>
      simp [encode, isData_variant, items.isData_encode, isData_encode body]
  | labeled _ body => simp [encode, isData_variant, isData_encode body]
  | switch selector cases =>
      simp [encode, isData_variant, selector.isData_encode, areData_encodeCases cases]
  | breakTo label | continueTo label => exact (isData_variant _ _).trans (isData_optionText label)
  | ret value => exact (isData_variant _ _).trans (isData_optionExpr value)
  | tryCatch body catches cleanup =>
      simp [encode, isData_variant, isData_encodeBlock, areData_encodeAll body,
        areData_encodeCatches catches, isData_encodeCleanup cleanup]
  | sync lock body =>
      simp [encode, isData_variant, isData_encodeBlock, lock.isData_encode,
        areData_encodeAll body]
  | unmodelled _ => rfl

theorem areData_encodeAll (stmts : List Stmt) : Json.areData (encodeAll stmts) = true := by
  cases stmts with
  | nil => rfl
  | cons s stmts => simp [encodeAll, isData_encode s, areData_encodeAll stmts]

theorem isData_encodeElse (branch : Option Stmt) : (encodeElse branch).isData = true := by
  cases branch with
  | none => rfl
  | some s => exact isData_encode s

theorem areData_encodeCases (cases : List SwitchCase) :
    Json.areData (encodeCases cases) = true := by
  match cases with
  | [] => rfl
  | .mk labels body :: cases =>
      simp [encodeCases, isData_encodeList Literal.isData_encode labels, areData_encodeAll body,
        areData_encodeCases cases]

theorem areData_encodeCatches (catches : List CatchClause) :
    Json.areData (encodeCatches catches) = true := by
  match catches with
  | [] => rfl
  | .mk _ _ body :: catches =>
      simp [encodeCatches, isData_encodeBlock, areData_encodeAll body,
        areData_encodeCatches catches]

theorem isData_encodeCleanup (cleanup : Option (List Stmt)) :
    (encodeCleanup cleanup).isData = true := by
  match cleanup with
  | none => rfl
  | some stmts => exact (isData_encodeBlock _).trans (areData_encodeAll stmts)

end

end Stmt

theorem isData_blockDocument (stmts : List Stmt) : (blockDocument stmts).isData = true :=
  (isData_encodeBlock _).trans (Stmt.areData_encodeAll stmts)

theorem Annot.isData_encode (a : Annot) : a.encode.isData = true := by
  have harg : ∀ arg : String × Literal,
      Json.isData (.arr [.str arg.1, arg.2.encode]) = true := by
    intro arg
    simp [arg.2.isData_encode]
  simp [encode, isData_encodeList harg a.args]

theorem FieldDecl.isData_encode (f : FieldDecl) : f.encode.isData = true := by
  simp [encode, isData_optionExpr f.init]

theorem MethodDecl.isData_encode (m : MethodDecl) : m.encode.isData = true := by
  have hparam : ∀ p : Param, p.encode.isData = true := fun _ => rfl
  simp [encode, MethodKind.encode, isData_encodeList Annot.isData_encode m.annotations,
    isData_encodeList hparam m.params, isData_optionText m.returnType,
    isData_encodeOption isData_blockDocument m.body]

theorem ClassDecl.isData_encode (c : ClassDecl) : c.encode.isData = true := by
  simp [encode, isData_encodeList Annot.isData_encode c.annotations,
    isData_encodeList FieldDecl.isData_encode c.fields,
    isData_encodeList MethodDecl.isData_encode c.methods]

theorem CompilationUnit.isData_encode (u : CompilationUnit) : u.encode.isData = true := by
  simp [encode, isData_optionText u.package, isData_encodeList ClassDecl.isData_encode u.classes]

/-! ## Round trips -/

section

variable {α : Type} (encode : α → Json) (decode : Json → Option α) (spelled : α → Json → Prop)

/-- A node is read back from the document that encoding it produces; all its spellings, and no
other documents, are read as this node, and re-encoding what was read gives the same document
for all of them. -/
def RoundTrips : Prop :=
  (∀ n, decode (encode n) = some n) ∧
  (∀ n doc, decode doc = some n ↔ spelled n doc) ∧
  ∀ n doc, spelled n doc → (decode doc).map encode = some (encode n)

variable {encode decode spelled}

theorem roundTrips_of_reads (hreads : Json.Reads decode spelled)
    (hencode : ∀ n, spelled n (encode n)) :
    RoundTrips encode decode spelled := by
  refine ⟨fun n => (hreads _ n).mpr (hencode n), fun n doc => hreads doc n, ?_⟩
  intro n doc hdoc
  rw [(hreads doc n).mpr hdoc, Option.map_some]

end

theorem loadUnit_render {u : CompilationUnit}
    (hparse : Json.parse? (Command.render .json u) (some Command.nestingLimit) = some u.encode)
    (path : String) : Command.loadUnit path (some (Command.render .json u)) = .ok u := by
  unfold Command.loadUnit
  simp only [hparse, Option.bind_some, (CompilationUnit.reads _ u).mpr u.spelled_encode]

/-- A unit whose document is not nested too deep is loaded from the text it is written as. -/
theorem loadUnit_pretty {u : CompilationUnit} (hdepth : u.encode.depth < Command.nestingLimit)
    (path : String) : Command.loadUnit path (some u.encode.pretty) = .ok u :=
  loadUnit_render (Json.parse?_pretty u.isData_encode hdepth) path

theorem result_instrument {settings : Settings} {path : String} {contents : Option String}
    {u woven : CompilationUnit} {report : Weave.UnitReport}
    (hload : Command.loadUnit path contents = .ok u)
    (hweave : (Weave.Weaver.ofSettings settings).weaveUnit u = .ok (woven, report)) :
    (Command.instrument settings .json path contents).result =
      .ok (woven.encode.pretty, report) := by
  unfold Command.instrument
  rw [hload]
  dsimp only
  rw [hweave]
  rfl

theorem reload_instrumented {settings : Settings} {path : String} {contents : Option String}
    {text : String} {report : Weave.UnitReport}
    (h : (Command.instrument settings .json path contents).result = .ok (text, report)) :
    ∃ u woven, Command.loadUnit path contents = .ok u ∧
      (Weave.Weaver.ofSettings settings).weaveUnit u = .ok (woven, report) ∧
      text = woven.encode.pretty ∧
      (Json.parse? text (some Command.nestingLimit) = some woven.encode →
        ∀ path', Command.loadUnit path' (some text) = .ok woven) := by
  unfold Command.instrument at h
  split at h
  · exact absurd h (by simp [Command.Logged.failed])
  · rename_i u hload
    dsimp only at h
    split at h
    · exact absurd h (by simp [Command.Logged.failed])
    · rename_i woven report' hweave
      obtain ⟨rfl, rfl⟩ : Command.render .json woven = text ∧ report' = report := by simpa using h
      exact ⟨u, woven, hload, hweave, rfl, loadUnit_render⟩

theorem documents_round_trip :
    RoundTrips CompilationUnit.encode CompilationUnit.decode CompilationUnit.Spelled ∧
    RoundTrips ClassDecl.encode ClassDecl.decode ClassDecl.Spelled ∧
    RoundTrips FieldDecl.encode FieldDecl.decode FieldDecl.Spelled ∧
    RoundTrips MethodDecl.encode MethodDecl.decode MethodDecl.Spelled ∧
    RoundTrips Param.encode Param.decode Param.Spelled ∧
    RoundTrips Annot.encode Annot.decode Annot.Spelled ∧
    RoundTrips Literal.encode Literal.decode Literal.Spelled ∧
    RoundTrips blockDocument blockOfDocument SpelledBlock ∧
    RoundTrips Stmt.encode Stmt.decode Stmt.Spelled ∧
    RoundTrips CatchClause.encode (CatchClause.decodeWith Stmt.decode) CatchClause.Spelled ∧
    RoundTrips ForInit.encode ForInit.decode ForInit.Spelled ∧
    RoundTrips Expr.encode Expr.decode Expr.Spelled ∧
    RoundTrips BinaryOp.encode BinaryOp.decode BinaryOp.Spelled ∧
    RoundTrips AssignOp.encode AssignOp.decode AssignOp.Spelled ∧
    RoundTrips UnaryOp.encode UnaryOp.decode UnaryOp.Spelled ∧
    RoundTrips MethodKind.encode MethodKind.decode MethodKind.Spelled ∧
    ∀ settings path contents text report,
      (Command.instrument settings .json path contents).result = .ok (text, report) →
      ∃ u woven, Command.loadUnit path contents = .ok u ∧
        (Weave.Weaver.ofSettings settings).weaveUnit u = .ok (woven, report) ∧
        text = woven.encode.pretty ∧
        (Json.parse? text (some Command.nestingLimit) = some woven.encode →
          ∀ path', Command.loadUnit path' (some text) = .ok woven) := by
  refine ⟨roundTrips_of_reads CompilationUnit.reads CompilationUnit.spelled_encode,
    roundTrips_of_reads ClassDecl.reads ClassDecl.spelled_encode,
    roundTrips_of_reads FieldDecl.reads FieldDecl.spelled_encode,
    roundTrips_of_reads MethodDecl.reads MethodDecl.spelled_encode,
    roundTrips_of_reads Param.reads Param.spelled_encode,
    roundTrips_of_reads Annot.reads Annot.spelled_encode,
    roundTrips_of_reads Literal.reads Literal.spelled_encode,
    roundTrips_of_reads reads_blockOfDocument spelledBlock_encode,
    roundTrips_of_reads Stmt.reads Stmt.spelled_encode,
    roundTrips_of_reads CatchClause.reads CatchClause.spelled_encode,
    roundTrips_of_reads ForInit.reads ForInit.spelled_encode,
    roundTrips_of_reads Expr.reads Expr.spelled_encode,
    roundTrips_of_reads BinaryOp.reads fun _ => .inl rfl,
    roundTrips_of_reads AssignOp.reads fun _ => .inl rfl,
    roundTrips_of_reads UnaryOp.reads fun _ => .inl rfl,
    roundTrips_of_reads MethodKind.reads fun _ => .inl rfl, ?_⟩
  intro settings path contents text report h
  exact reload_instrumented h

def taskUnit : CompilationUnit where
  package := some "demo"
  classes :=
    [(ClassDecl.empty "Task").withField ⟨"total", "int", true, some (.int 0)⟩
      |>.withMethod (((MethodDecl.procedure "add").withParam "amount" "int").returning "int"
        |>.withBody
          [.expr (.assign .add (.name "total") (.name "amount")),
           .retValue (.name "total")])]

/-- The unit is read from its document, its method is woven, and the woven unit is read back
from the text it is written as. -/
theorem documents_round_trip_task :
    ∃ woven report text,
      (Weave.Weaver.ofSettings .standard).weaveUnit taskUnit = .ok (woven, report) ∧
      report.woven = 1 ∧
      (Command.instrument .standard .json "Task.json" (some taskUnit.encode.pretty)).result =
        .ok (text, report) ∧
      Json.parse? text (some Command.nestingLimit) = some woven.encode ∧
      Command.loadUnit "Woven.json" (some text) = .ok woven := by
  have hloaded : Command.loadUnit "Task.json" (some taskUnit.encode.pretty) = .ok taskUnit :=
    loadUnit_pretty (by decide +kernel) "Task.json"
  obtain ⟨⟨woven, report⟩, hwoven⟩ :
      ∃ result, (Weave.Weaver.ofSettings .standard).weaveUnit taskUnit = .ok result := ⟨_, rfl⟩
  have hshallow : woven.encode.depth < Command.nestingLimit ∧ report.woven = 1 := by
    have hresult : (Weave.Weaver.ofSettings .standard).weaveUnit taskUnit |>.toOption.all fun r =>
        r.1.encode.depth < Command.nestingLimit ∧ r.2.woven = 1 := by
      decide +kernel
    rw [hwoven] at hresult
    exact of_decide_eq_true hresult
  have hresult := result_instrument hloaded hwoven
  rcases documents_round_trip.2.2.2.2.2.2.2.2.2.2.2.2.2.2.2.2 _ _ _ _ _ hresult with
    ⟨u, woven', hload, hweave, htext, hreload⟩
  obtain rfl : taskUnit = u := Except.ok.inj (hloaded.symm.trans hload)
  obtain rfl : woven = woven' := congrArg Prod.fst (Except.ok.inj (hwoven.symm.trans hweave))
  have hparse := Json.parse?_pretty woven.isData_encode hshallow.1
  exact ⟨woven, report, _, hwoven, hshallow.2, hresult, hparse, hreload hparse _⟩

end Code
end TraceWeaving
