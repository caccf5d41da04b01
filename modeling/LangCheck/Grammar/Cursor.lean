import LangCheck.Grammar.Error
import LangCheck.Token.Basic

/-!
# Walking through a list of tokens

A cursor stands at a token of a list that ends with the end of the input, and never moves past an
end of input.  A parser reads a value from the cursor on; it moves the cursor, and when it fails it
leaves the cursor where it failed.
-/

namespace LangCheck.Grammar

/-- A place in a list of tokens. -/
structure Cursor where
  /-- Where the token before the place ends. -/
  passed : Position
  /-- The tokens from the place on, without the one that ends the list. -/
  ahead : List Token
  /-- The text of the token that ends the list. -/
  endText : String
  /-- The span of the token that ends the list. -/
  endSpan : Span
deriving DecidableEq, Repr, Inhabited

namespace Cursor

/-- The start of a list of tokens.  If the list does not end with an end of input, one is added on
the line on which the last token ends. -/
def start (tokens : List Token) (file : String) : Cursor :=
  match tokens.getLast? with
  | none => ⟨⟨1, file⟩, [], "EOF", .onLine 1 file⟩
  | some last =>
    if last.kind = .endOfInput then ⟨⟨1, file⟩, tokens.dropLast, last.text, last.span⟩
    else ⟨⟨1, file⟩, tokens, "EOF", .onLine last.span.stop.line file⟩

/-- The token that ends the list. -/
def finish (c : Cursor) : Token := ⟨.endOfInput, c.endText, c.endSpan⟩

/-- The token some places ahead, or the one that ends the list. -/
def peek (c : Cursor) (offset : Nat) : Token := c.ahead[offset]?.getD c.finish

/-- The token at the cursor. -/
def current (c : Cursor) : Token := c.ahead.headD c.finish

/-- The kind of the token at the cursor. -/
def kind (c : Cursor) : Kind := c.current.kind

/-- Where the token at the cursor begins. -/
def position (c : Cursor) : Position := c.current.span.start

/-- Whether the cursor is not at an end of input. -/
def hasTokens (c : Cursor) : Bool := c.kind != .endOfInput

/-- The cursor behind the current token; an end of input is not passed. -/
def next (c : Cursor) : Cursor :=
  match c.ahead with
  | [] => c
  | t :: rest =>
    if t.kind = .endOfInput then c else { c with passed := t.span.stop, ahead := rest }

/-- The error for a token that does not fit. -/
def unexpected (c : Cursor) : SyntaxError :=
  let t := c.current
  ⟨if t.isMalformed then .malformed t.text else .unexpected t.text, t.span.start⟩

/-- The error for a token that does not fit, with a hint at what would.  A malformed fragment is
reported as such. -/
def misplaced (c : Cursor) (hint : String) : SyntaxError :=
  let t := c.current
  ⟨if t.isMalformed then .malformed t.text else .misplaced t.text hint, t.span.start⟩

@[simp] theorem finish_kind (c : Cursor) : c.finish.kind = .endOfInput := rfl

theorem peek_zero (c : Cursor) : c.peek 0 = c.current := by
  cases h : c.ahead <;> simp [peek, current, h]

end Cursor

/-- A function that reads a value from the cursor on. -/
abbrev Parser := EStateM SyntaxError Cursor

/-- The kind of the current token. -/
def currentKind : Parser Kind := fun c => .ok c.kind c

/-- The kind of the token some places ahead. -/
def peekKind (offset : Nat) : Parser Kind := fun c => .ok (c.peek offset).kind c

/-- Where the current token begins. -/
def position : Parser Position := fun c => .ok c.position c

/-- Where the token before the cursor ends. -/
def passed : Parser Position := fun c => .ok c.passed c

/-- Passes the current token and returns it. -/
def advance : Parser Token := fun c => .ok c.current c.next

/-- Fails, because the current token does not fit. -/
def unexpected {α : Type} : Parser α := fun c => .error c.unexpected c

/-- Fails with a hint at what would have fitted. -/
def misplaced {α : Type} (hint : String) : Parser α := fun c => .error (c.misplaced hint) c

/-- Passes a token of the given kind.  At another token it fails with the given error, or if that
token is malformed, because of that. -/
def expectOr (kind : Kind) (error : SyntaxError) : Parser Token := fun c =>
  if c.kind = kind then .ok c.current c.next
  else if c.kind = .malformed then .error c.unexpected c
  else .error error c

/-- Passes a token of the given kind, and fails at another. -/
def expect (kind : Kind) : Parser Token := fun c => expectOr kind c.unexpected c

/-- Passes a token of the given kind, and fails at another with a hint. -/
def expectHinted (kind : Kind) (hint : String) : Parser Token := fun c =>
  expectOr kind (c.misplaced hint) c

/-- Runs a parser with a bound on the number of tokens from the cursor on. -/
def withRoom {α : Type} (p : Nat → Parser α) : Parser α := fun c => p c.ahead.length c

end LangCheck.Grammar
