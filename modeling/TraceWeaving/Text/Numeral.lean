/-!
# Decimal numerals

Writing integers in decimal, and reading the numerals that fit a 64-bit word.  A
numeral is one or more ASCII digits; a signed numeral may start with `+` or `-`, an
unsigned one with `+` only.
-/

namespace TraceWeaving
namespace Text

def natText (n : Nat) : String :=
  String.ofList (Nat.toDigits 10 n)

def intText (n : Int) : String :=
  if n < 0 then "-" ++ natText n.natAbs else natText n.natAbs

def isDigit (c : Char) : Bool :=
  '0' ≤ c && c ≤ '9'

def digitValue (c : Char) : Nat :=
  c.toNat - '0'.toNat

def digitsValue (cs : List Char) : Nat :=
  cs.foldl (fun value c => value * 10 + digitValue c) 0

def readDigits? (cs : List Char) : Option Nat :=
  if cs.isEmpty || !cs.all isDigit then none else some (digitsValue cs)

def uint64OfNat? (n : Nat) : Option UInt64 :=
  if n < 18446744073709551616 then some (UInt64.ofNat n) else none

def int64OfInt? (n : Int) : Option Int64 :=
  if -9223372036854775808 ≤ n ∧ n < 9223372036854775808 then some (Int64.ofInt n) else none

def readUInt64? (s : String) : Option UInt64 :=
  match s.toList with
  | '+' :: digits => (readDigits? digits).bind uint64OfNat?
  | digits => (readDigits? digits).bind uint64OfNat?

def readInt64? (s : String) : Option Int64 :=
  match s.toList with
  | '+' :: digits => (readDigits? digits).bind fun n => int64OfInt? n
  | '-' :: digits => (readDigits? digits).bind fun n => int64OfInt? (-n)
  | digits => (readDigits? digits).bind fun n => int64OfInt? n

end Text
end TraceWeaving
