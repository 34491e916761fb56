/-!
# Blank text

The characters with the Unicode property `White_Space`, and the texts made of them.
-/

namespace Pushdown.Text

/-- The ranges of the property `White_Space`, in order. -/
def blankRanges : List (Nat × Nat) :=
  [(0x09, 0x0d), (0x20, 0x20), (0x85, 0x85), (0xa0, 0xa0), (0x1680, 0x1680), (0x2000, 0x200a),
   (0x2028, 0x2029), (0x202f, 0x202f), (0x205f, 0x205f), (0x3000, 0x3000)]

/-- Whether the character is in one of the ranges. -/
def isBlankChar (c : Char) : Bool :=
  blankRanges.any fun (first, last) => first ≤ c.toNat && c.toNat ≤ last

/-- A text is blank when nothing is left of it once blanks are trimmed. -/
def isBlank (s : String) : Bool := s.toList.all isBlankChar

end Pushdown.Text
