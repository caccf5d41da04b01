import LangCheck.Text.Blank

/-!
# Lexical classes

Each class of fragments is given by a function that tells how many characters at the front of a text
form the longest fragment of that class, or nothing if no such fragment starts there.
-/

namespace LangCheck.Lexeme

/-- Whether a character can begin a word. -/
def isWordStart (c : Char) : Bool := c.isAlpha || c == '_'

/-- Whether a character can continue a word. -/
def isWordChar (c : Char) : Bool := c.isAlphanum || c == '_'

/-- The number of characters at the front that satisfy a condition. -/
def run (p : Char → Bool) (s : List Char) : Nat := (s.takeWhile p).length

/-- A word: a letter or underscore, followed by letters, underscores and digits. -/
def word? : List Char → Option Nat
  | c :: cs => if isWordStart c then some (run isWordChar cs + 1) else none
  | [] => none

/-- The fraction of a number: a point and at least one digit, or nothing at all. -/
def fraction : List Char → Nat
  | '.' :: cs => if run Char.isDigit cs = 0 then 0 else run Char.isDigit cs + 1
  | _ => 0

/-- The exponent of a number: `e` or `E`, perhaps a sign, and at least one digit, or nothing. -/
def exponent : List Char → Nat
  | e :: s :: cs =>
    if e = 'e' ∨ e = 'E' then
      if s = '+' ∨ s = '-' then
        if run Char.isDigit cs = 0 then 0 else run Char.isDigit cs + 2
      else if run Char.isDigit (s :: cs) = 0 then 0 else run Char.isDigit (s :: cs) + 1
    else 0
  | _ => 0

/-- A number: digits, perhaps a fraction, perhaps an exponent. -/
def number? (s : List Char) : Option Nat :=
  let whole := run Char.isDigit s
  if whole = 0 then none
  else
    let broken := whole + fraction (s.drop whole)
    some (broken + exponent (s.drop broken))

/-- A run of blank characters. -/
def blank? (s : List Char) : Option Nat :=
  if run Text.isBlank s = 0 then none else some (run Text.isBlank s)

/-- The number of characters at the front that can stand inside a string literal: all but quotes,
backslashes and newlines, and a backslash together with the character after it on its line. -/
def quotedRun : List Char → Nat
  | '\\' :: c :: cs => if c = '\n' then 0 else quotedRun cs + 2
  | c :: cs => if c = '"' ∨ c = '\\' ∨ c = '\n' then 0 else quotedRun cs + 1
  | [] => 0

/-- A string literal with its closing quote. -/
def closedQuote? : List Char → Option Nat
  | '"' :: cs => if cs[quotedRun cs]? = some '"' then some (quotedRun cs + 2) else none
  | _ => none

/-- A string literal without its closing quote. -/
def openQuote? : List Char → Option Nat
  | '"' :: cs => some (quotedRun cs + 1)
  | _ => none

/-- A comment that runs to the end of its line. -/
def lineComment? : List Char → Option Nat
  | '/' :: '/' :: cs => some (run (· != '\n') cs + 2)
  | _ => none

/-- The number of characters up to and including the first `*/`. -/
def commentEnd? : List Char → Option Nat
  | '*' :: '/' :: _ => some 2
  | _ :: cs => (commentEnd? cs).map (· + 1)
  | [] => none

/-- A comment between `/*` and the next `*/`. -/
def blockComment? : List Char → Option Nat
  | '/' :: '*' :: cs => (commentEnd? cs).map (· + 2)
  | _ => none

/-- A comment that is opened by `/*`, up to the end of the text. -/
def openComment? : List Char → Option Nat
  | '/' :: '*' :: cs => some (cs.length + 2)
  | _ => none

/-- A fragment with a fixed spelling. -/
def spelled? (spelling : List Char) (s : List Char) : Option Nat :=
  if spelling.isPrefixOf s then some spelling.length else none

end LangCheck.Lexeme
