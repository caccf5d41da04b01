import LangCheck.Text.Blank

/-!
# The lines of a source text

A text is cut into lines at its newlines.  A line is looked up by its number, counted from 1, and
is given without the carriage returns at its end.
-/

namespace LangCheck

/-- The pieces of a text between its newlines; there is one more of them than there are newlines. -/
def linesOf : List Char → List (List Char)
  | [] => [[]]
  | c :: cs =>
    if c = '\n' then [] :: linesOf cs
    else match linesOf cs with
      | [] => [[c]]
      | line :: rest => (c :: line) :: rest

/-- The text without the carriage returns at its end. -/
def dropReturns (s : List Char) : List Char := (s.reverse.dropWhile (· == '\r')).reverse

/-- The text of a line, counted from 1, without its line end; nothing if there is no such line. -/
def lineText (source : String) (line : UInt32) : Option String :=
  if line = 0 then none
  else (linesOf source.toList)[line.toNat - 1]?.map fun text => String.ofList (dropReturns text)

/-- The number of newlines in a text, in the arithmetic of line numbers. -/
def newlines (s : List Char) : UInt32 := UInt32.ofNat (s.count '\n')

theorem linesOf_ne_nil (s : List Char) : linesOf s ≠ [] := by
  cases s with
  | nil => simp [linesOf]
  | cons c cs =>
    simp only [linesOf]
    split
    · simp
    · split <;> simp

/-- There is one more line than there are newlines. -/
theorem length_linesOf (s : List Char) : (linesOf s).length = s.count '\n' + 1 := by
  induction s with
  | nil => rfl
  | cons c cs ih =>
    simp only [linesOf]
    split
    · next h => subst h; simp [ih]
    · next h =>
      cases hl : linesOf cs with
      | nil => exact absurd hl (linesOf_ne_nil cs)
      | cons line rest =>
        have : c ≠ '\n' := h
        simp_all

end LangCheck
