/-!
# Classes of characters as lists of ranges

A class of characters that a standard defines is written down as a list of ranges of code points.
-/

namespace LangCheck.Text

/-- A class of characters: the ranges of its code points, each with its first and last member. -/
abbrev Ranges := List (Nat × Nat)

/-- Whether a code point lies in one of the ranges. -/
def Ranges.covers (ranges : Ranges) (code : Nat) : Bool :=
  ranges.any fun (first, last) => first ≤ code && code ≤ last

/-- A code point is covered exactly when some range holds it. -/
theorem Ranges.covers_iff {ranges : Ranges} {code : Nat} :
    ranges.covers code = true ↔ ∃ r ∈ ranges, r.1 ≤ code ∧ code ≤ r.2 := by
  simp [covers]

end LangCheck.Text
