import TraceWeaving.Text.Printable
import TraceWeaving.Text.Numeral

/-!
# Quoted text

Two ways of writing a text between double quotes.  `literal` is the form of a
string literal in source code, where only the quote, the backslash and the three
common line characters are escaped.  `displayed` is the form used when a value is
shown to a reader, where every character that would not be visible is escaped as
well.
-/

namespace TraceWeaving
namespace Text

def between (quote body : String) : String :=
  quote ++ body ++ quote

def escapeWith (escape : Char → List Char) (s : String) : String :=
  String.ofList (s.toList.flatMap escape)

def literalChar (c : Char) : List Char :=
  if c = '"' then ['\\', '"']
  else if c = '\\' then ['\\', '\\']
  else if c = '\n' then ['\\', 'n']
  else if c = '\r' then ['\\', 'r']
  else if c = '\t' then ['\\', 't']
  else [c]

def literal (s : String) : String :=
  between "\"" (escapeWith literalChar s)

/-- The code point in lower-case hexadecimal, without padding. -/
def codePointText (c : Char) : List Char :=
  ['\\', 'u', '\x7b'] ++ Nat.toDigits 16 c.toNat ++ ['\x7d']

def displayedChar (c : Char) : List Char :=
  if c = '\x00' then ['\\', '0']
  else if c = '"' ∨ c = '\\' ∨ c = '\n' ∨ c = '\r' ∨ c = '\t' then literalChar c
  else if isPrintable c then [c]
  else codePointText c

def displayed (s : String) : String :=
  between "\"" (escapeWith displayedChar s)

def joined (separator : String) : List String → String
  | [] => ""
  | [s] => s
  | s :: rest => s ++ separator ++ joined separator rest

/-- The part of a dotted name after its last dot. -/
def lastSegment (s : String) : String :=
  String.ofList (s.toList.reverse.takeWhile (· ≠ '.')).reverse

end Text
end TraceWeaving
