import TraceWeaving.Json.Basic
import TraceWeaving.Text.Numeral

/-!
# Tokens of a JSON text

The text is read character by character by a machine whose mode says what is open:
nothing, a word (a number or one of `null`, `true` and `false`), a string, or an
escape inside a string.  Strings are gathered as code units, so that the two halves
of a surrogate pair can be joined at the closing quote.
-/

namespace TraceWeaving
namespace Json

inductive Token where
  | beginArray
  | endArray
  | beginObject
  | endObject
  | comma
  | colon
  | scalar (value : Json)
  /-- A quoted string; `none` when it holds half of a surrogate pair. -/
  | quoted (content : Option String)

namespace Token

inductive Mode where
  | plain
  | word (letters : List Char)
  | string (units : List Nat)
  | escape (units : List Nat)
  | hex (units : List Nat) (digits : List Char)

/-! ## Numbers -/

def skipDigits? (cs : List Char) : Option (List Char) :=
  match cs with
  | c :: rest => if Text.isDigit c then some (rest.dropWhile Text.isDigit) else none
  | [] => none

/-- The rest after an integer part, which has no leading zero. -/
def skipIntegerPart? : List Char → Option (List Char)
  | '0' :: rest => some rest
  | cs => skipDigits? cs

def skipFraction? : List Char → Option (List Char)
  | '.' :: rest => skipDigits? rest
  | cs => some cs

def skipExponentSign : List Char → List Char
  | '+' :: rest => rest
  | '-' :: rest => rest
  | cs => cs

def skipExponent? : List Char → Option (List Char)
  | 'e' :: rest => skipDigits? (skipExponentSign rest)
  | 'E' :: rest => skipDigits? (skipExponentSign rest)
  | cs => some cs

/-- A number without its sign: an integer if it has neither fraction nor exponent. -/
def magnitude? (cs : List Char) : Option (Option Nat) := do
  let rest ← skipIntegerPart? cs
  if rest.isEmpty then return some (Text.digitsValue cs)
  let rest ← skipFraction? rest
  let rest ← skipExponent? rest
  if rest.isEmpty then return none else failure

/-- Minus zero is not an integer. -/
def number? (cs : List Char) : Option Json :=
  match cs with
  | '-' :: digits => (magnitude? digits).map fun
      | some (n + 1) => .int (-(n + 1 : Nat))
      | _ => .real (String.ofList cs)
  | digits => (magnitude? digits).map fun
      | some n => .int n
      | none => .real (String.ofList cs)

def ofWord? (cs : List Char) : Option Token :=
  if cs = ['n', 'u', 'l', 'l'] then some (.scalar .null)
  else if cs = ['t', 'r', 'u', 'e'] then some (.scalar (.bool true))
  else if cs = ['f', 'a', 'l', 's', 'e'] then some (.scalar (.bool false))
  else (number? cs).map .scalar

/-! ## Strings -/

def isHighSurrogate (unit : Nat) : Bool :=
  0xd800 ≤ unit && unit < 0xdc00

def isLowSurrogate (unit : Nat) : Bool :=
  0xdc00 ≤ unit && unit < 0xe000

/-- Joins surrogate pairs; there is no result when half of a pair stands alone. -/
def decodeUnits : List Nat → Option (List Char)
  | [] => some []
  | high :: low :: rest =>
      if isHighSurrogate high then
        if isLowSurrogate low then
          (decodeUnits rest).map
            (Char.ofNat (0x10000 + (high - 0xd800) * 0x400 + (low - 0xdc00)) :: ·)
        else none
      else if isLowSurrogate high then none
      else (decodeUnits (low :: rest)).map (Char.ofNat high :: ·)
  | [unit] =>
      if isHighSurrogate unit || isLowSurrogate unit then none
      else some [Char.ofNat unit]

def hexDigit? (c : Char) : Option Nat :=
  if Text.isDigit c then some (Text.digitValue c)
  else if 'a' ≤ c ∧ c ≤ 'f' then some (c.toNat - 'a'.toNat + 10)
  else if 'A' ≤ c ∧ c ≤ 'F' then some (c.toNat - 'A'.toNat + 10)
  else none

def hexValue? (digits : List Char) : Option Nat :=
  digits.foldlM (fun value c => (hexDigit? c).map (value * 16 + ·)) 0

def escapedUnit? (c : Char) : Option Nat :=
  if c = '"' ∨ c = '\\' ∨ c = '/' then some c.toNat
  else if c = 'b' then some 8
  else if c = 'f' then some 12
  else if c = 'n' then some 10
  else if c = 'r' then some 13
  else if c = 't' then some 9
  else none

/-! ## The machine -/

def isSpace (c : Char) : Bool :=
  c = ' ' || c = '\n' || c = '\r' || c = '\t'

def isWordChar (c : Char) : Bool :=
  c.isAlphanum || c = '+' || c = '-' || c = '.'

def ofMark? (c : Char) : Option Token :=
  if c = '[' then some .beginArray
  else if c = ']' then some .endArray
  else if c = '\x7b' then some .beginObject
  else if c = '\x7d' then some .endObject
  else if c = ',' then some .comma
  else if c = ':' then some .colon
  else none

def stepPlain (c : Char) (tokens : List Token) : Option (Mode × List Token) :=
  if isSpace c then some (.plain, tokens)
  else if c = '"' then some (.string [], tokens)
  else if isWordChar c then some (.word [c], tokens)
  else (ofMark? c).map fun token => (.plain, token :: tokens)

/-- One character; tokens are gathered last first. -/
def step : Mode × List Token → Char → Option (Mode × List Token)
  | (.plain, tokens), c => stepPlain c tokens
  | (.word letters, tokens), c =>
      if isWordChar c then some (.word (c :: letters), tokens)
      else (ofWord? letters.reverse).bind fun token => stepPlain c (token :: tokens)
  | (.string units, tokens), c =>
      if c = '"' then
        some (.plain, .quoted ((decodeUnits units.reverse).map String.ofList) :: tokens)
      else if c = '\\' then some (.escape units, tokens)
      else if c.toNat < 0x20 then none
      else some (.string (c.toNat :: units), tokens)
  | (.escape units, tokens), c =>
      if c = 'u' then some (.hex units [], tokens)
      else (escapedUnit? c).map fun unit => (.string (unit :: units), tokens)
  | (.hex units digits, tokens), c =>
      match digits with
      | [d₃, d₂, d₁] =>
          (hexValue? [d₁, d₂, d₃, c]).map fun unit => (.string (unit :: units), tokens)
      | _ => some (.hex units (c :: digits), tokens)

def finish : Mode × List Token → Option (List Token)
  | (.plain, tokens) => some tokens.reverse
  | (.word letters, tokens) =>
      (ofWord? letters.reverse).map fun token => (token :: tokens).reverse
  | _ => none

def scan? (cs : List Char) : Option (List Token) :=
  (cs.foldlM step (.plain, [])).bind finish

end Token
end Json
end TraceWeaving
