import LangCheck.Source.Position
import LangCheck.Token.Kind

/-!
# Tokens

A token is a kind, a text and the span of the fragment that it was read from.  A token listing has
one entry for each token, the end of the input left out.
-/

namespace LangCheck

/-- A token of a source. -/
structure Token where
  /-- What the token is to the grammar. -/
  kind : Kind
  /-- The fragment as written, or the denoted text if the token is a string literal. -/
  text : String
  /-- Where the token was read. -/
  span : Span
deriving DecidableEq, Repr, Inhabited

namespace Token

/-- The token that ends an input. -/
def endOfInput (line : UInt32) (file : String) : Token := ⟨.endOfInput, "EOF", .onLine line file⟩

/-- Whether the token is a malformed fragment. -/
def isMalformed (t : Token) : Bool := t.kind == .malformed

/-- The entry of a token in a listing: its kind, its text and its line. -/
def entry (t : Token) : String :=
  "<" ++ t.kind.label ++ ", \"" ++ t.text ++ "\", " ++ toString t.span.line ++ ">"

/-- The listing of the tokens: their entries, each followed by a newline. -/
def listing (tokens : List Token) : String :=
  String.join ((tokens.filter (·.kind != .endOfInput)).map fun t => t.entry ++ "\n")

end Token

end LangCheck
