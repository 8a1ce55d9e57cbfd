/-!
# Blank characters

The characters with the Unicode property `White_Space`, and the text that is left
when they are removed from both ends.
-/

namespace TraceWeaving
namespace Text

def blankRanges : List (Nat × Nat) :=
  [(0x9, 0xd), (0x20, 0x20), (0x85, 0x85), (0xa0, 0xa0), (0x1680, 0x1680),
   (0x2000, 0x200a), (0x2028, 0x2029), (0x202f, 0x202f), (0x205f, 0x205f),
   (0x3000, 0x3000)]

def isBlank (c : Char) : Bool :=
  blankRanges.any fun range => range.1 ≤ c.toNat && c.toNat ≤ range.2

def dropWhileEnd {α : Type} (p : α → Bool) (xs : List α) : List α :=
  (xs.reverse.dropWhile p).reverse

def trim (s : String) : String :=
  String.ofList (dropWhileEnd isBlank (s.toList.dropWhile isBlank))

end Text
end TraceWeaving
