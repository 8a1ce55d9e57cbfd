import TraceWeaving.Code.Build

/-!
# Expressions as lexemes

An expression is written as a row of lexemes.  An operand that binds more loosely
than its place asks for is put in parentheses; the places differ in the binding
strength they ask for, so that the grouping of the tree is kept.
-/

namespace TraceWeaving
namespace Code

inductive Lexeme where
  | blank
  /-- A name, a type or a reserved word. -/
  | word (s : String)
  | literal (value : Literal)
  /-- An operator or a bracket, comma, dot, colon or question mark. -/
  | symbol (s : String)
  deriving DecidableEq

namespace Literal

def source : Literal → String
  | int n => Text.intText n.toInt
  | long n => Text.intText n.toInt ++ "L"
  | bool true => "true"
  | bool false => "false"
  | str s => Text.literal s
  | null => "null"

end Literal

namespace Lexeme

def text : Lexeme → String
  | blank => " "
  | word s => s
  | literal value => value.source
  | symbol s => s

def textOf (row : List Lexeme) : String :=
  row.foldl (fun written lexeme => written ++ lexeme.text) ""

def commaSeparated : List (List Lexeme) → List Lexeme
  | [] => []
  | [row] => row
  | row :: rest => row ++ [symbol ",", blank] ++ commaSeparated rest

def bracketed (isOpen : String) (row : List Lexeme) (isClose : String) : List Lexeme :=
  symbol isOpen :: row ++ [symbol isClose]

def spaced (operator : String) : List Lexeme :=
  [blank, symbol operator, blank]

end Lexeme

namespace Expr

def precedence : Expr → Nat
  | assign .. => 1
  | conditional .. => 2
  | binary op _ _ => op.precedence
  | unary op _ => if op.isPostfix then 15 else 14
  | _ => 16

def parenthesized (needed : Bool) (row : List Lexeme) : List Lexeme :=
  if needed then Lexeme.bracketed "(" row ")" else row

mutual

/-- The lexemes of an expression in a place that asks for at least the given binding
strength. -/
def lexemes (strength : Nat) (e : Expr) : List Lexeme :=
  parenthesized (e.precedence < strength) <|
    match e with
    | lit value => [.literal value]
    | name ident => [.word ident]
    | self => [.word "this"]
    | field target member => lexemes 16 target ++ [.symbol ".", .word member]
    | index target position =>
        lexemes 16 target ++ Lexeme.bracketed "[" (lexemes 1 position) "]"
    | assign op target value =>
        lexemes 16 target ++ Lexeme.spaced op.symbol ++ lexemes 1 value
    | unary op operand =>
        if op.isPostfix then lexemes 16 operand ++ [.symbol op.symbol]
        else .symbol op.symbol :: lexemes 14 operand
    | binary op left right =>
        lexemes op.precedence left ++ Lexeme.spaced op.symbol
          ++ lexemes (op.precedence + 1) right
    | conditional cond ifTrue ifFalse =>
        lexemes 3 cond ++ Lexeme.spaced "?" ++ lexemes 1 ifTrue ++ Lexeme.spaced ":"
          ++ lexemes 2 ifFalse
    | call receiver method args =>
        receiverLexemes receiver ++ .word method
          :: Lexeme.bracketed "(" (Lexeme.commaSeparated (rows args)) ")"
    | new cls args =>
        [.word "new", .blank, .word cls]
          ++ Lexeme.bracketed "(" (Lexeme.commaSeparated (rows args)) ")"
    | newArray elemType elements =>
        [.word "new", .blank, .word elemType, .symbol "[", .symbol "]"]
          ++ Lexeme.bracketed "\x7b" (Lexeme.commaSeparated (rows elements)) "\x7d"
    | superCall args =>
        .word "super" :: Lexeme.bracketed "(" (Lexeme.commaSeparated (rows args)) ")"
    | selfCall args =>
        .word "this" :: Lexeme.bracketed "(" (Lexeme.commaSeparated (rows args)) ")"

def receiverLexemes : Option Expr → List Lexeme
  | some receiver => lexemes 16 receiver ++ [.symbol "."]
  | none => []

def rows : List Expr → List (List Lexeme)
  | [] => []
  | e :: rest => lexemes 1 e :: rows rest

end

def sourceAt (strength : Nat) (e : Expr) : String :=
  Lexeme.textOf (e.lexemes strength)

def source (e : Expr) : String :=
  e.sourceAt 0

end Expr

end Code
end TraceWeaving
