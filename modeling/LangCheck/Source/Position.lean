/-!
# Positions in a source file

A position is a line of a named file, and a span is the stretch between two positions.  Nothing in
the language depends on columns, so none are kept.
-/

namespace LangCheck

/-- A line of a source file.  Lines are counted from 1 in 32-bit words. -/
structure Position where
  /-- The line, counted from 1. -/
  line : UInt32
  /-- The name of the file. -/
  file : String
deriving DecidableEq, Repr, Inhabited

/-- The stretch of a source file from one position to another, both included. -/
structure Span where
  /-- Where the stretch begins. -/
  start : Position
  /-- Where the stretch ends. -/
  stop : Position
deriving DecidableEq, Repr, Inhabited

namespace Span

/-- The line on which a span begins, which is the line that messages about it name. -/
def line (s : Span) : UInt32 := s.start.line

/-- The span that covers one line only. -/
def onLine (line : UInt32) (file : String) : Span := ⟨⟨line, file⟩, ⟨line, file⟩⟩

@[simp] theorem line_onLine (line : UInt32) (file : String) : (onLine line file).line = line := rfl

end Span

/-- The file name of a source that was not read from a file. -/
def interactiveFile : String := "shell"

end LangCheck
