import LangCheck.Source.Lines
import LangCheck.Source.Position
import LangCheck.Text.Quoted

/-!
# Syntax errors

Parsing stops at the first token that does not fit.  The error tells what is wrong with that token
and where it stands, and it can be shown together with its line of the source.
-/

namespace LangCheck

/-- What is wrong with a token. -/
inductive SyntaxFault where
  /-- The token is a malformed fragment. -/
  | malformed (token : String)
  /-- The token does not fit here. -/
  | unexpected (token : String)
  /-- The token does not fit here, with a hint at what would. -/
  | misplaced (token hint : String)
  /-- The token is a name where a type is expected. -/
  | unknownType (name : String)
deriving DecidableEq, Repr, Inhabited

namespace SyntaxFault

/-- The name under which a fault is shown. -/
def title : SyntaxFault → String
  | malformed _ => "UnrecognisedToken"
  | unexpected _ => "UnexpectedToken"
  | misplaced _ _ => "UnexpectedTokenDetailed"
  | unknownType _ => "UnknownType"

/-- What a fault says. -/
def message : SyntaxFault → String
  | malformed token => "unrecognised token: " ++ Text.quote token
  | unexpected token => "unexpected token: " ++ Text.quote token
  | misplaced token hint => "unexpected token (" ++ hint ++ "): " ++ Text.quote token
  | unknownType name => "unknown type " ++ name ++ " found"

/-- The token that a fault is about. -/
def token : SyntaxFault → String
  | malformed token | unexpected token | misplaced token _ | unknownType token => token

end SyntaxFault

/-- Advice that may go with an error. -/
inductive Tip where
  | none
  | suggestion (text : String)
deriving DecidableEq, Repr, Inhabited

/-- The text of a tip. -/
def Tip.render : Tip → String
  | none => ""
  | suggestion text => text

/-- The advice that goes with a fault. -/
def SyntaxFault.tip : SyntaxFault → Tip
  | malformed token => .suggestion ("Malformed input `" ++ token ++ "`")
  | unexpected token =>
    .suggestion ("Unexpected token: `" ++ token ++ "`, did you miss a semicolon?")
  | misplaced token hint => .suggestion ("Unexpected token: `" ++ token ++ "`, " ++ hint)
  | unknownType name =>
    .suggestion ("Unknown type `" ++ name ++
      "`, expected one of int, float, double, string, bool, void")

/-- The error at which parsing stops. -/
structure SyntaxError where
  /-- What is wrong. -/
  fault : SyntaxFault
  /-- Where the token begins that is at fault. -/
  position : Position
deriving DecidableEq, Repr, Inhabited

namespace SyntaxError

/-- What an error says, with its line. -/
def message (e : SyntaxError) : String :=
  e.fault.message ++ " (L" ++ toString e.position.line ++ ")"

/-- The first line of an error that is shown: its name, and its tip if it has one. -/
def heading (e : SyntaxError) : String :=
  match e.fault.tip with
  | .none => "Error: " ++ e.fault.title
  | tip => "Error: " ++ e.fault.title ++ " (" ++ tip.render ++ ")"

/-- An error shown with its line of the source, in a frame as wide as the line number.  A line that
the source does not have is shown as an empty one. -/
def display (e : SyntaxError) (source path : String) : String :=
  let number := toString e.position.line
  let shown := Text.trim ((lineText source e.position.line).getD "").toList
  let rim := String.ofList (List.replicate (number.length + 1) ' ') ++ "|"
  String.join ([e.heading, "-> " ++ path, rim, number ++ " | " ++ String.ofList shown, rim].map
    (· ++ "\n"))

end SyntaxError

end LangCheck
