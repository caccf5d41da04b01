import LangCheck.Text.Ranges

/-!
# Blank characters

The 25 characters with the property White_Space.  They separate tokens, and they are what is cut
off at both ends of a line that is shown.
-/

namespace LangCheck.Text

/-- The ranges of the characters with the property White_Space. -/
def blankRanges : Ranges :=
  [(0x9, 0xD), (0x20, 0x20), (0x85, 0x85), (0xA0, 0xA0), (0x1680, 0x1680), (0x2000, 0x200A),
    (0x2028, 0x2029), (0x202F, 0x202F), (0x205F, 0x205F), (0x3000, 0x3000)]

example : (blankRanges.map fun (first, last) => last + 1 - first).sum = 25 := by decide

/-- Whether a character is blank. -/
def isBlank (c : Char) : Bool := blankRanges.covers c.toNat

/-- The text without the blank characters at its two ends. -/
def trim (s : List Char) : List Char :=
  ((s.dropWhile isBlank).reverse.dropWhile isBlank).reverse

end LangCheck.Text
