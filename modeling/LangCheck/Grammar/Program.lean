import LangCheck.Grammar.Statement
import LangCheck.Syntax.Program
import LangCheck.Token.Lexer

/-!
# Reading programs

A program is read item by item up to the first end of input.  An item begins with a type and a name;
a parenthesis behind them tells a function from a global variable.
-/

namespace LangCheck.Grammar

/-- Reads a parameter. -/
def parameter (t : Tables) : Parser Parameter := do
  let start ← position
  let ty ← type t
  let name ← expectHinted .name "expected parameter name"
  return ⟨name.text, ty, ⟨start, name.span.stop⟩⟩

/-- Reads parameters, at least one, if no more than `room` tokens are left. -/
def parametersWithin (t : Tables) (room : Nat) : Parser (List Parameter) :=
  match room with
  | 0 => unexpected
  | room + 1 => do
    let first ← parameter t
    if (← currentKind) = .comma then
      let _ ← advance
      return first :: (← parametersWithin t room)
    else
      return [first]

/-- Reads a list of parameters in parentheses. -/
def parameters (t : Tables) : Parser (List Parameter) := do
  let _ ← expect .openParen
  let given ← if (← currentKind) = .closeParen then pure []
    else withRoom fun room => parametersWithin t (room + 1)
  let _ ← expect .closeParen
  return given

/-- Reads the initialiser of a global variable: a literal, or a minus sign and a number. -/
def globalValue : Parser Literal := do
  if (← currentKind) = .minus ∧ (← peekKind 1) = .number then
    let _ ← advance
    let number ← advance
    return .number ("-" ++ number.text)
  else
    literal

/-- Reads an item. -/
def item (t : Tables) : Parser Item := do
  let start ← position
  let isConst ← constMark
  let ty ← type t
  let name ← expectHinted .name "expected identifier after type"
  if (← currentKind) = .openParen then
    if isConst then
      misplaced "functions cannot be declared const"
    else
      let given ← parameters t
      let body ← block t
      return .function ⟨name.text, ty, given, body, ⟨start, body.span.stop⟩⟩
  else
    let value ← if (← currentKind) = .assign then
        let _ ← advance
        some <$> globalValue
      else
        pure none
    let close ← expect .semicolon
    return .global ⟨name.text, ty, isConst, value, ⟨start, close.span.stop⟩⟩

/-- Reads items up to the end of the input, if no more than `room` tokens are left. -/
def itemsWithin (t : Tables) (room : Nat) : Parser (List Item) :=
  match room with
  | 0 => return []
  | room + 1 => do
    if (← currentKind) = .endOfInput then
      return []
    else
      let first ← item t
      return first :: (← itemsWithin t room)

/-- Reads a program. -/
def program (t : Tables) : Parser Program := do
  let start ← position
  let items ← withRoom (itemsWithin t)
  return ⟨items, ⟨start, ← position⟩⟩

end LangCheck.Grammar

namespace LangCheck

/-- The program that a list of tokens spells, or the error at the first token that does not fit. -/
def Program.ofTokens (tokens : List Token) (file : String) : Except SyntaxError Program :=
  match Grammar.program .standard (.start tokens file) with
  | .ok p _ => .ok p
  | .error e _ => .error e

/-- The program that a source spells, or the error at the first token that does not fit. -/
def Program.ofSource (source file : String) : Except SyntaxError Program :=
  ofTokens (tokenize source file) file

end LangCheck
