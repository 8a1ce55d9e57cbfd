import TraceWeaving.Proofs.Code.Rows

/-!
# Reading expressions by binding strength

A row of lexemes is read from left to right with a stack of frames, which hold what has been
read of the expressions that are not finished.  A lexeme behind an operand first finishes the
frames that bind at least as strongly as it does.  Reading the row of an expression gives the
expression back.
-/

namespace TraceWeaving
namespace Code

/-! ## Symbols -/

def BinaryOp.ofSymbol? (s : String) : Option BinaryOp :=
  BinaryOp.all.find? fun op => op.symbol = s

def AssignOp.ofSymbol? (s : String) : Option AssignOp :=
  AssignOp.all.find? fun op => op.symbol = s

def UnaryOp.ofSymbol? (s : String) : Option UnaryOp :=
  [UnaryOp.neg, .not, .preInc, .preDec].find? fun op => op.symbol = s

namespace Lexeme

/-- The strength down to which frames are finished in front of a lexeme. -/
def level : Lexeme → Nat
  | symbol s =>
      if s ∈ [")", "]", "\x7d", ",", ":"] then 1
      else if s = "?" then 3
      else ((BinaryOp.ofSymbol? s).map BinaryOp.precedence).getD 16
  | blank | word _ | literal _ => 16

end Lexeme

theorem BinaryOp.precedence_bounds (op : BinaryOp) : 3 ≤ op.precedence ∧ op.precedence ≤ 12 := by
  cases op <;> decide

theorem Expr.one_le_precedence (e : Expr) : 1 ≤ e.precedence := by
  cases e with
  | binary op _ _ => exact Nat.le_of_add_left_le op.precedence_bounds.1
  | unary op _ => cases op <;> exact Nat.le_add_left 1 _
  | lit _ | name _ | self | field _ _ | index _ _ | assign _ _ _ | conditional _ _ _ | call _ _ _
  | new _ _ | newArray _ _ | superCall _ | selfCall _ => exact Nat.le_add_left 1 _

theorem BinaryOp.level_symbol (op : BinaryOp) :
    (Lexeme.symbol op.symbol).level = op.precedence := by
  cases op <;> decide

theorem AssignOp.level_symbol (op : AssignOp) : (Lexeme.symbol op.symbol).level = 16 := by
  cases op <;> decide

def Expr.UnreservedHere (e : Expr) : Prop :=
  ∀ x ∈ e.ownNames, x ∉ ["this", "super", "new"]

namespace Reader

/-! ## Frames -/

inductive Callee where
  | method (receiver : Option Expr) (ident : String)
  | new (cls : String)
  | newArray (elemType : TypeName)
  | superclass
  | self

namespace Callee

def build : Callee → List Expr → Expr
  | method receiver ident, args => .call receiver ident args
  | new cls, args => .new cls args
  | newArray elemType, elements => .newArray elemType elements
  | superclass, args => .superCall args
  | self, args => .selfCall args

def ofOperand? : Expr → Option Callee
  | .name ident => some (method none ident)
  | .field target member => some (method (some target) member)
  | .self => some self
  | _ => none

end Callee

/-- An expression that is not finished and lacks its last operand. -/
inductive Frame where
  | sign (op : UnaryOp)
  | left (op : BinaryOp) (operand : Expr)
  | stored (op : AssignOp) (target : Expr)
  | tested (cond : Expr)
  | chosen (cond : Expr) (ifTrue : Expr)
  | paren
  | indexed (target : Expr)
  | passed (callee : Callee) (args : List Expr)

namespace Frame

/-- How strongly a frame binds an operand; frames between brackets do not. -/
def strength : Frame → Nat
  | sign _ => 14
  | left op _ => op.precedence
  | stored _ _ => 1
  | chosen _ _ => 2
  | tested _ | paren | indexed _ | passed _ _ => 0

def fill : Frame → Expr → Expr
  | sign op, e => .unary op e
  | left op operand, e => .binary op operand e
  | stored op target, e => .assign op target e
  | chosen cond ifTrue, e => .conditional cond ifTrue e
  | tested _, e | paren, e | indexed _, e | passed _ _, e => e

end Frame

/-- Finishes the frames that bind at least as strongly as what follows the operand. -/
def reduce (p : Nat) (e : Expr) : List Frame → Expr × List Frame
  | [] => (e, [])
  | f :: fs => if p ≤ f.strength then reduce p (f.fill e) fs else (e, f :: fs)

/-! ## Steps -/

inductive Mode where
  /-- An operand comes next. -/
  | want
  | have (e : Expr)
  /-- A name comes next, behind a point. -/
  | member (target : Expr)
  /-- The type of an object or an array comes next. -/
  | created
  /-- Arguments come next. -/
  | called (callee : Callee)

def ofWord (s : String) : Mode :=
  if s = "this" then .have .self
  else if s = "super" then .called .superclass
  else if s = "new" then .created
  else .have (.name s)

def behind (e : Expr) (s : String) (frames : List Frame) : Option (Mode × List Frame) :=
  match s, frames with
  | ")", .paren :: fs => some (.have e, fs)
  | ")", .passed callee args :: fs => some (.have (callee.build (args ++ [e])), fs)
  | "\x7d", .passed callee args :: fs => some (.have (callee.build (args ++ [e])), fs)
  | ",", .passed callee args :: fs => some (.want, .passed callee (args ++ [e]) :: fs)
  | "]", .indexed target :: fs => some (.have (.index target e), fs)
  | "?", fs => some (.want, .tested e :: fs)
  | ":", .tested cond :: fs => some (.want, .chosen cond e :: fs)
  | ".", fs => some (.member e, fs)
  | "[", fs => some (.want, .indexed e :: fs)
  | "(", fs => (Callee.ofOperand? e).map fun callee => (.want, .passed callee [] :: fs)
  | "++", fs => some (.have (.unary .postInc e), fs)
  | "--", fs => some (.have (.unary .postDec e), fs)
  | s, fs =>
      match BinaryOp.ofSymbol? s, AssignOp.ofSymbol? s with
      | some op, _ => some (.want, .left op e :: fs)
      | none, some op => some (.want, .stored op e :: fs)
      | none, none => none

def infront (s : String) (frames : List Frame) : Option (Mode × List Frame) :=
  match s, frames with
  | "(", fs => some (.want, .paren :: fs)
  | ")", .passed callee [] :: fs => some (.have (callee.build []), fs)
  | "\x7d", .passed callee [] :: fs => some (.have (callee.build []), fs)
  | s, fs => (UnaryOp.ofSymbol? s).map fun op => (.want, .sign op :: fs)

def step : Mode → List Frame → Lexeme → Option (Mode × List Frame)
  | mode, frames, .blank => some (mode, frames)
  | .want, frames, .word s => some (ofWord s, frames)
  | .want, frames, .literal value => some (.have (.lit value), frames)
  | .want, frames, .symbol s => infront s frames
  | .have e, frames, .symbol s =>
      let reduced := reduce (Lexeme.symbol s).level e frames
      behind reduced.1 s reduced.2
  | .member target, frames, .word s => some (.have (.field target s), frames)
  | .created, frames, .word s => some (.called (.new s), frames)
  | .called (.new cls), frames, .symbol "[" => some (.called (.newArray cls), frames)
  | .called (.newArray elemType), frames, .symbol "]" =>
      some (.called (.newArray elemType), frames)
  | .called callee, frames, .symbol s =>
      if s = "(" ∨ s = "\x7b" then some (.want, .passed callee [] :: frames) else none
  | _, _, _ => none

def finish : Mode → List Frame → Option Expr
  | .have e, frames =>
      match reduce 1 e frames with
      | (e, []) => some e
      | (_, _ :: _) => none
  | _, _ => none

def read (mode : Mode) (frames : List Frame) : List Lexeme → Option Expr
  | [] => finish mode frames
  | l :: row => (step mode frames l).bind fun next => read next.1 next.2 row

/-! ## Finishing frames -/

open Lexeme (bracketed commaSeparated spaced)

variable {mode : Mode} {frames frames' : List Frame} {row rest : List Lexeme} {e x y : Expr}
  {k p : Nat}

theorem Frame.strength_le (f : Frame) : f.strength ≤ 14 := by
  cases f with
  | left op _ => exact Nat.le_trans op.precedence_bounds.2 (by decide)
  | sign _ | stored _ _ | tested _ | chosen _ _ | paren | indexed _ | passed _ _ =>
      simp [strength]

theorem reduce_of_lt (h : ∀ f ∈ frames.head?, f.strength < p) :
    reduce p e frames = (e, frames) := by
  cases frames with
  | nil => rfl
  | cons f fs =>
      have hlt := h f rfl
      unfold reduce
      rw [if_neg (by omega)]

theorem reduce_fill {f : Frame} (h : p ≤ f.strength) :
    reduce p e (f :: frames) = reduce p (f.fill e) frames := by
  rw [reduce, if_pos h]

theorem reduce_sixteen : reduce 16 e frames = (e, frames) :=
  reduce_of_lt fun f _ => Nat.lt_of_le_of_lt f.strength_le (by decide)

def levelOf : List Lexeme → Nat
  | [] => 1
  | .blank :: row => levelOf row
  | l :: _ => l.level

/-- What is read depends on the operand and the frames only as far as they are finished. -/
theorem read_reduce (h : reduce (levelOf row) x frames = reduce (levelOf row) y frames') :
    read (.have x) frames row = read (.have y) frames' row := by
  -- The induction only passes over blanks; the first other lexeme settles it.
  induction row with
  | nil =>
      unfold levelOf at h
      simp only [read, finish, h]
  | cons l row ih =>
      cases l with
      | blank => exact ih h
      | word _ | literal _ => rfl
      | symbol s =>
          have hlevel : levelOf (.symbol s :: row) = (Lexeme.symbol s).level := rfl
          rw [hlevel] at h
          simp only [read, step, h]

/-- An operand finishes a frame that binds at least as strongly as what follows. -/
theorem read_fill {f : Frame} (h : levelOf row ≤ f.strength) :
    read (.have e) (f :: frames) row = read (.have (f.fill e)) frames row :=
  read_reduce (reduce_fill h)

/-! ## Operators -/

theorem behind_binary (op : BinaryOp) :
    behind e op.symbol frames = some (.want, .left op e :: frames) := by
  cases op <;> rfl

theorem behind_assign (op : AssignOp) :
    behind e op.symbol frames = some (.want, .stored op e :: frames) := by
  cases op <;> rfl

/-! ## Operands in their places -/

/-- Operators of at least the given strength do not finish the last frame.  Above the strength of
all binary operators nothing is asked, since only signs and postfix operators are written there
without parentheses. -/
def Guarded (k : Nat) (frames : List Frame) : Prop :=
  ∀ f ∈ frames.head?, f.strength < max 3 k ∨ 12 < k

theorem Guarded.mono {k' : Nat} (h : Guarded k frames) (hle : k ≤ k') : Guarded k' frames := by
  intro f hf
  have hlast := h f hf
  omega

theorem Guarded.push {f : Frame} (h : f.strength < max 3 k) : Guarded k (f :: frames) := by
  intro g hg
  obtain rfl := Option.some.inj hg
  exact .inl h

theorem guarded_of_lt (h : 12 < k) : Guarded k frames :=
  fun _ _ => .inr h

theorem Guarded.reduce_eq (h : Guarded k frames) (hle : max 3 k ≤ 12) (hp : max 3 k ≤ p) :
    reduce p e frames = (e, frames) := by
  refine reduce_of_lt fun f hf => ?_
  have hlast := h f hf
  omega

/-- Reading the row of the expression gives the expression, whatever finishes no more of it than
its place allows. -/
def ReadsBack (e : Expr) : Prop :=
  ∀ (k : Nat) (frames : List Frame) (rest : List Lexeme), Guarded k frames →
    levelOf rest ≤ max k e.precedence →
      read .want frames (e.lexemes k ++ rest) = read (.have e) frames rest

theorem read_symbol {s : String} (hs : (Lexeme.symbol s).level = 16)
    (hbehind : behind e s frames = some (mode, frames')) :
    read (.have e) frames (.symbol s :: row) = read mode frames' row := by
  have hreduce : reduce (Lexeme.symbol s).level e frames = (e, frames) := by
    rw [hs]
    exact reduce_sixteen
  simp only [read, step, hreduce, hbehind, Option.bind_some]

theorem read_next {s : String} (h : ReadsBack e) (hguarded : Guarded k frames)
    (hs : (Lexeme.symbol s).level ≤ max k e.precedence)
    (hreduce : reduce (Lexeme.symbol s).level e frames = (e, frames))
    (hbehind : behind e s frames = some (mode, frames')) :
    read .want frames (e.lexemes k ++ .symbol s :: rest) = read mode frames' rest := by
  rw [h k frames (.symbol s :: rest) hguarded hs]
  simp only [read, step, hreduce, hbehind, Option.bind_some]

theorem read_spaced {s : String} (h : ReadsBack e) (hguarded : Guarded k frames)
    (hs : (Lexeme.symbol s).level ≤ k)
    (hreduce : reduce (Lexeme.symbol s).level e frames = (e, frames))
    (hbehind : behind e s frames = some (.want, frames')) :
    read .want frames (e.lexemes k ++ spaced s ++ rest) = read .want frames' rest := by
  rw [List.append_assoc,
    h k frames (spaced s ++ rest) hguarded (Nat.le_trans hs (Nat.le_max_left _ _))]
  simp only [spaced, List.cons_append, List.nil_append, read, step, hreduce, hbehind,
    Option.bind_some]

theorem read_operand {s : String} (h : ReadsBack e) (hs : (Lexeme.symbol s).level = 16)
    (hbehind : behind e s frames = some (mode, frames')) :
    read .want frames (e.lexemes 16 ++ .symbol s :: rest) = read mode frames' rest := by
  refine read_next h (guarded_of_lt (by decide)) ?_ ?_ hbehind
  · exact Nat.le_trans (Nat.le_of_eq hs) (Nat.le_max_left _ _)
  · rw [hs]
    exact reduce_sixteen

theorem read_enclosed {s : String} {f : Frame} (h : ReadsBack e) (hf : f.strength = 0)
    (hs : (Lexeme.symbol s).level = 1)
    (hbehind : behind e s (f :: frames) = some (mode, frames')) :
    read .want (f :: frames) (e.lexemes 1 ++ .symbol s :: rest) = read mode frames' rest := by
  refine read_next h (.push (by omega)) ?_ (reduce_of_lt fun g hg => ?_) hbehind
  · exact Nat.le_trans (Nat.le_of_eq hs) (Nat.le_max_left _ _)
  · obtain rfl := Option.some.inj hg
    omega

theorem closes_cases {s : String} (hs : s ∈ [")", "\x7d"]) : s = ")" ∨ s = "\x7d" := by
  simpa using hs

theorem behind_close {callee : Callee} {args : List Expr} {s : String} (hs : s ∈ [")", "\x7d"]) :
    behind e s (.passed callee args :: frames) =
      some (.have (callee.build (args ++ [e])), frames) := by
  rcases closes_cases hs with rfl | rfl <;> rfl

theorem read_arguments {callee : Callee} {args done : List Expr} {s : String}
    (hargs : ∀ e ∈ args, ReadsBack e) (hs : s ∈ [")", "\x7d"]) (hdone : args = [] → done = []) :
    read .want (.passed callee done :: frames)
        (commaSeparated (Expr.rows args) ++ .symbol s :: rest) =
      read (.have (callee.build (done ++ args))) frames rest := by
  have hlevel : (Lexeme.symbol s).level = 1 := by
    rcases closes_cases hs with rfl | rfl <;> decide
  induction args generalizing done with
  | nil =>
      obtain rfl := hdone rfl
      rcases closes_cases hs with rfl | rfl <;> rfl
  | cons e args ih =>
      have he := hargs e List.mem_cons_self
      cases args with
      | nil => exact read_enclosed he rfl hlevel (behind_close hs)
      | cons e' args =>
          have hmore : read .want (.passed callee (done ++ [e]) :: frames)
                (commaSeparated (Expr.rows (e' :: args)) ++ .symbol s :: rest) =
              read (.have (callee.build (done ++ [e] ++ e' :: args))) frames rest :=
            ih (fun e'' he'' => hargs e'' (List.mem_cons_of_mem e he'')) nofun
          rw [List.append_assoc, List.singleton_append] at hmore
          calc read .want (.passed callee done :: frames)
                (commaSeparated (Expr.rows (e :: e' :: args)) ++ .symbol s :: rest)
            _ = read .want (.passed callee done :: frames) (e.lexemes 1 ++ .symbol "," :: .blank ::
                  (commaSeparated (Expr.rows (e' :: args)) ++ .symbol s :: rest)) := by
                simp [Expr.rows, commaSeparated]
            _ = read .want (.passed callee (done ++ [e]) :: frames)
                  (commaSeparated (Expr.rows (e' :: args)) ++ .symbol s :: rest) :=
                read_enclosed he rfl rfl rfl
            _ = read (.have (callee.build (done ++ e :: e' :: args))) frames rest := hmore

/-- It is enough to read the row of the expression without parentheses. -/
theorem readsBack_of_lexemes {e : Expr}
    (h : ∀ frames rest, Guarded e.precedence frames → levelOf rest ≤ e.precedence →
      read .want frames (e.lexemes 0 ++ rest) = read (.have e) frames rest) : ReadsBack e := by
  intro k frames rest hguarded hrest
  rw [Expr.lexemes_eq]
  unfold Expr.parenthesized
  split
  · have hparen : Guarded e.precedence (.paren :: frames) :=
      .push (Nat.lt_of_lt_of_le (by decide : 0 < 3) (Nat.le_max_left _ _))
    calc read .want frames (bracketed "(" (e.lexemes 0) ")" ++ rest)
      _ = read .want (.paren :: frames) (e.lexemes 0 ++ .symbol ")" :: rest) := by
          simp [bracketed, read, step, infront]
      _ = read (.have e) (.paren :: frames) (.symbol ")" :: rest) :=
          h _ _ hparen e.one_le_precedence
      _ = read (.have e) frames rest := rfl
  · rename_i hstrong
    have hle : k ≤ e.precedence := by simpa using hstrong
    exact h frames rest (hguarded.mono hle) (by omega)

theorem ofWord_eq {s : String} (hs : s ∉ ["this", "super", "new"]) :
    ofWord s = .have (.name s) := by
  simp only [List.mem_cons, List.not_mem_nil, or_false, not_or] at hs
  unfold ofWord
  rw [if_neg hs.1, if_neg hs.2.1, if_neg hs.2.2]

theorem read_passed {args : List Expr} (callee : Callee) {s : String}
    (hargs : ∀ e ∈ args, ReadsBack e) (hs : s ∈ [")", "\x7d"]) :
    read .want (.passed callee [] :: frames)
        (commaSeparated (Expr.rows args) ++ [.symbol s] ++ rest) =
      read (.have (callee.build args)) frames rest := by
  rw [List.append_assoc]
  exact read_arguments hargs hs fun _ => rfl

theorem read_called {args : List Expr} (callee : Callee)
    (hcallee : Callee.ofOperand? e = some callee) (hargs : ∀ e ∈ args, ReadsBack e) :
    read (.have e) frames (bracketed "(" (commaSeparated (Expr.rows args)) ")" ++ rest) =
      read (.have (callee.build args)) frames rest := by
  have hbehind : behind e "(" frames = some (.want, .passed callee [] :: frames) :=
    congrArg (Option.map _) hcallee
  exact (read_symbol rfl hbehind).trans (read_passed callee hargs (by decide))

/-! ## Every kind of expression -/

open Code.Expr (lexemes parenthesized precedence receiverLexemes rows)

theorem read_sign {operand : Expr} (op : UnaryOp) (h : ReadsBack operand)
    (hrest : levelOf rest ≤ 14) :
    read .want (.sign op :: frames) (operand.lexemes 14 ++ rest) =
      read (.have (.unary op operand)) frames rest := by
  have hoperand : levelOf rest ≤ max 14 operand.precedence :=
    Nat.le_trans hrest (Nat.le_max_left _ _)
  calc read .want (.sign op :: frames) (operand.lexemes 14 ++ rest)
    _ = read (.have operand) (.sign op :: frames) rest :=
        h 14 _ rest (guarded_of_lt (by decide)) hoperand
    _ = read (.have (.unary op operand)) frames rest := read_fill hrest

namespace ReadsBack

variable {target operand left right cond ifTrue ifFalse receiver value position : Expr}
  {args : List Expr}

theorem name {ident : String} (h : ident ∉ ["this", "super", "new"]) : ReadsBack (.name ident) := by
  refine readsBack_of_lexemes fun frames rest _ _ => ?_
  show read (ofWord ident) frames rest = _
  rw [ofWord_eq h]

theorem field {member : String} (h : ReadsBack target) : ReadsBack (.field target member) := by
  refine readsBack_of_lexemes fun frames rest _ _ => ?_
  calc read .want frames ((Expr.field target member).lexemes 0 ++ rest)
    _ = read .want frames (target.lexemes 16 ++ .symbol "." :: .word member :: rest) := by
        simp [lexemes, parenthesized]
    _ = read (.member target) frames (.word member :: rest) := read_operand h rfl rfl
    _ = read (.have (.field target member)) frames rest := rfl

theorem index (h : ReadsBack target) (hposition : ReadsBack position) :
    ReadsBack (.index target position) := by
  refine readsBack_of_lexemes fun frames rest _ _ => ?_
  calc read .want frames ((Expr.index target position).lexemes 0 ++ rest)
    _ = read .want frames (target.lexemes 16 ++ .symbol "[" ::
          (position.lexemes 1 ++ .symbol "]" :: rest)) := by
        simp [lexemes, parenthesized, bracketed]
    _ = read .want (.indexed target :: frames) (position.lexemes 1 ++ .symbol "]" :: rest) :=
        read_operand h rfl rfl
    _ = read (.have (.index target position)) frames rest := read_enclosed hposition rfl rfl rfl

theorem assign (op : AssignOp) (h : ReadsBack target) (hvalue : ReadsBack value) :
    ReadsBack (.assign op target value) := by
  refine readsBack_of_lexemes fun frames rest _ hrest => ?_
  calc read .want frames ((Expr.assign op target value).lexemes 0 ++ rest)
    _ = read .want frames (target.lexemes 16 ++ spaced op.symbol ++ (value.lexemes 1 ++ rest)) := by
        simp [lexemes, parenthesized]
    _ = read .want (.stored op target :: frames) (value.lexemes 1 ++ rest) := by
        refine read_spaced h (guarded_of_lt (by decide)) ?_ ?_ (behind_assign op)
        · exact Nat.le_of_eq op.level_symbol
        · rw [op.level_symbol]
          exact reduce_sixteen
    _ = read (.have value) (.stored op target :: frames) rest :=
        hvalue 1 _ rest (.push (by simp [Frame.strength]))
          (Nat.le_trans hrest (Nat.le_max_left _ _))
    _ = read (.have (.assign op target value)) frames rest := read_fill hrest

theorem unary (op : UnaryOp) (h : ReadsBack operand) : ReadsBack (.unary op operand) := by
  refine readsBack_of_lexemes fun frames rest _ hrest => ?_
  cases op with
  | neg => exact read_sign .neg h hrest
  | not => exact read_sign .not h hrest
  | preInc => exact read_sign .preInc h hrest
  | preDec => exact read_sign .preDec h hrest
  | postInc =>
      calc read .want frames ((Expr.unary .postInc operand).lexemes 0 ++ rest)
        _ = read .want frames (operand.lexemes 16 ++ .symbol "++" :: rest) :=
            congrArg _ (List.append_assoc _ _ _)
        _ = read (.have (.unary .postInc operand)) frames rest := read_operand h rfl rfl
  | postDec =>
      calc read .want frames ((Expr.unary .postDec operand).lexemes 0 ++ rest)
        _ = read .want frames (operand.lexemes 16 ++ .symbol "--" :: rest) :=
            congrArg _ (List.append_assoc _ _ _)
        _ = read (.have (.unary .postDec operand)) frames rest := read_operand h rfl rfl

theorem binary (op : BinaryOp) (hleft : ReadsBack left) (hright : ReadsBack right) :
    ReadsBack (.binary op left right) := by
  refine readsBack_of_lexemes fun frames rest hguarded hrest => ?_
  have hbounds := op.precedence_bounds
  simp only [precedence] at hguarded hrest
  calc read .want frames ((Expr.binary op left right).lexemes 0 ++ rest)
    _ = read .want frames (left.lexemes op.precedence ++ spaced op.symbol ++
          (right.lexemes (op.precedence + 1) ++ rest)) := by
        simp [lexemes, parenthesized]
    _ = read .want (.left op left :: frames) (right.lexemes (op.precedence + 1) ++ rest) := by
        refine read_spaced hleft hguarded ?_ ?_ (behind_binary op)
        · exact Nat.le_of_eq op.level_symbol
        · rw [op.level_symbol]
          exact hguarded.reduce_eq (by omega) (by omega)
    _ = read (.have right) (.left op left :: frames) rest := by
        refine hright _ _ rest (.push ?_) (by omega)
        exact Nat.lt_of_lt_of_le (Nat.lt_succ_self _) (Nat.le_max_right _ _)
    _ = read (.have (.binary op left right)) frames rest := read_fill hrest

theorem conditional (hcond : ReadsBack cond) (htrue : ReadsBack ifTrue)
    (hfalse : ReadsBack ifFalse) : ReadsBack (.conditional cond ifTrue ifFalse) := by
  refine readsBack_of_lexemes fun frames rest hguarded hrest => ?_
  have hguarded : Guarded 3 frames := hguarded.mono (by simp [precedence])
  calc read .want frames ((Expr.conditional cond ifTrue ifFalse).lexemes 0 ++ rest)
    _ = read .want frames (cond.lexemes 3 ++ spaced "?" ++
          (ifTrue.lexemes 1 ++ spaced ":" ++ (ifFalse.lexemes 2 ++ rest))) := by
        simp [lexemes, parenthesized]
    _ = read .want (.tested cond :: frames)
          (ifTrue.lexemes 1 ++ spaced ":" ++ (ifFalse.lexemes 2 ++ rest)) :=
        read_spaced hcond hguarded (Nat.le_refl 3)
          (hguarded.reduce_eq (by decide) (Nat.le_refl 3)) rfl
    _ = read .want (.chosen cond ifTrue :: frames) (ifFalse.lexemes 2 ++ rest) :=
        read_spaced htrue (.push (by simp [Frame.strength])) (Nat.le_refl 1) rfl rfl
    _ = read (.have ifFalse) (.chosen cond ifTrue :: frames) rest :=
        hfalse 2 _ rest (.push (by simp [Frame.strength]))
          (Nat.le_trans hrest (Nat.le_max_left _ _))
    _ = read (.have (.conditional cond ifTrue ifFalse)) frames rest := read_fill hrest

theorem call {method : String} (h : method ∉ ["this", "super", "new"])
    (hargs : ∀ e ∈ args, ReadsBack e) : ReadsBack (.call none method args) := by
  refine readsBack_of_lexemes fun frames rest _ _ => ?_
  show read (ofWord method) frames _ = _
  rw [ofWord_eq h]
  exact read_called (.method none method) rfl hargs

theorem callOn {method : String} (h : ReadsBack receiver) (hargs : ∀ e ∈ args, ReadsBack e) :
    ReadsBack (.call (some receiver) method args) := by
  refine readsBack_of_lexemes fun frames rest _ _ => ?_
  calc read .want frames ((Expr.call (some receiver) method args).lexemes 0 ++ rest)
    _ = read .want frames (receiver.lexemes 16 ++ .symbol "." :: .word method ::
          (bracketed "(" (commaSeparated (rows args)) ")" ++ rest)) := by
        simp [lexemes, parenthesized, receiverLexemes]
    _ = read (.member receiver) frames (.word method ::
          (bracketed "(" (commaSeparated (rows args)) ")" ++ rest)) := read_operand h rfl rfl
    _ = read (.have (.field receiver method)) frames
          (bracketed "(" (commaSeparated (rows args)) ")" ++ rest) := rfl
    _ = read (.have (.call (some receiver) method args)) frames rest :=
        read_called (.method (some receiver) method) rfl hargs

end ReadsBack

/-- The row of an expression without reserved words as names reads back. -/
theorem readsBack {e : Expr} (h : e.Every Expr.UnreservedHere) : ReadsBack e := by
  induction e using Expr.childInduction with
  | step e ih =>
      have hchild : ∀ e' ∈ e.children, ReadsBack e' := fun e' he' => ih e' he' (h.child he')
      have hhere := h.here
      cases e with
      | lit value => exact readsBack_of_lexemes fun _ _ _ _ => rfl
      | name ident => exact .name (hhere ident List.mem_cons_self)
      | self => exact readsBack_of_lexemes fun _ _ _ _ => rfl
      | field target _ => exact .field (hchild target (by simp [Expr.children]))
      | index target position =>
          exact .index (hchild target (by simp [Expr.children]))
            (hchild position (by simp [Expr.children]))
      | assign op target value =>
          exact .assign op (hchild target (by simp [Expr.children]))
            (hchild value (by simp [Expr.children]))
      | unary op operand => exact .unary op (hchild operand (by simp [Expr.children]))
      | binary op left right =>
          exact .binary op (hchild left (by simp [Expr.children]))
            (hchild right (by simp [Expr.children]))
      | conditional cond ifTrue ifFalse =>
          exact .conditional (hchild cond (by simp [Expr.children]))
            (hchild ifTrue (by simp [Expr.children])) (hchild ifFalse (by simp [Expr.children]))
      | call receiver method args =>
          have hargs : ∀ e ∈ args, ReadsBack e :=
            fun e he => hchild e (by simp [Expr.children, he])
          cases receiver with
          | none => exact .call (hhere method List.mem_cons_self) hargs
          | some receiver => exact .callOn (hchild receiver (by simp [Expr.children])) hargs
      | new cls args =>
          exact readsBack_of_lexemes fun _ _ _ _ => read_passed (.new cls) hchild (by decide)
      | newArray elemType elements =>
          exact readsBack_of_lexemes fun _ _ _ _ =>
            read_passed (.newArray elemType) hchild (by decide)
      | superCall args =>
          exact readsBack_of_lexemes fun _ _ _ _ => read_passed .superclass hchild (by decide)
      | selfCall args =>
          exact readsBack_of_lexemes fun _ _ _ _ => read_called .self rfl hchild

end Reader

end Code
end TraceWeaving
