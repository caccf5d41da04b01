import LangCheck.Source.Lines
import LangCheck.Source.Position

/-!
# Walking through a source

A scanner stands at some place of a source and knows the line of that place.  It moves forward by
a number of bytes of the source's encoding.
-/

namespace LangCheck

/-- A place in a source. -/
structure Scanner where
  /-- The text from the place on. -/
  rest : List Char
  /-- The line of the place. -/
  line : UInt32
  /-- The name of the source's file. -/
  file : String
deriving DecidableEq, Repr, Inhabited

namespace Scanner

/-- The start of a source. -/
def start (source file : String) : Scanner := ⟨source.toList, 1, file⟩

/-- Whether nothing is left of the source. -/
def atEnd (s : Scanner) : Bool := s.rest.isEmpty

/-- The text that is left of the source. -/
def remainder (s : Scanner) : String := String.ofList s.rest

/-- The line of the place, as a span. -/
def here (s : Scanner) : Span := .onLine s.line s.file

/-- Splits a text after the given number of bytes, or at its end if it is shorter.  A place inside a
character is none. -/
def splitBytes : Nat → List Char → Option (List Char × List Char)
  | 0, s => some ([], s)
  | _ + 1, [] => some ([], [])
  | bytes + 1, c :: cs =>
    if bytes + 1 < c.utf8Size then none
    else (splitBytes (bytes + 1 - c.utf8Size) cs).map fun (passed, rest) => (c :: passed, rest)

/-- Moves forward by a number of bytes, but not past the end, and counts the newlines on the way. -/
def advance? (s : Scanner) (bytes : Nat) : Option Scanner :=
  (splitBytes bytes s.rest).map fun (passed, rest) =>
    { s with rest := rest, line := s.line + newlines passed }

end Scanner

end LangCheck
