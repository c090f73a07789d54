/-!
# Blank characters

The Unicode property White_Space: 25 characters in ten ranges.

**Results.**
* `isBlank_of_isWhitespace`: the ASCII blanks are among them.
-/

namespace Allotment

namespace Text

/-- The ranges of the property, ascending and apart. -/
def blankRanges : List (Nat × Nat) :=
  [(0x09, 0x0D), (0x20, 0x20), (0x85, 0x85), (0xA0, 0xA0), (0x1680, 0x1680),
    (0x2000, 0x200A), (0x2028, 0x2029), (0x202F, 0x202F), (0x205F, 0x205F), (0x3000, 0x3000)]

/-- The character is white space. -/
def isBlank (c : Char) : Bool := blankRanges.any fun r => r.1 ≤ c.toNat && c.toNat ≤ r.2

theorem isBlank_of_isWhitespace (c : Char) (h : c.isWhitespace = true) : isBlank c = true := by
  simp [Char.isWhitespace] at h
  rcases h with ((h | h) | h) | h <;> subst h <;> decide

/-- The text from its first character that is not blank. -/
def trimLeft (cs : List Char) : List Char := cs.dropWhile isBlank

/-- The text holds nothing but blanks. -/
def allBlank (s : String) : Bool := s.toList.all isBlank

end Text

end Allotment
