import LangCheck.Source.Position
import LangCheck.Syntax.Ty
import LangCheck.Text.Quoted

/-!
# Expressions

The tree of an expression, with the span of each node, and its text, which is how the values of
initialised variables are reported.
-/

namespace LangCheck

/-- The operators between two operands. -/
inductive BinaryOp where
  | add | subtract | multiply | divide | modulo
  | less | lessEqual | greater | greaterEqual
  | equal | notEqual
  | and | or
deriving DecidableEq, Repr, Inhabited

namespace BinaryOp

/-- Whether the operator compares or connects truth values, so that its result is a `bool`. -/
def isBoolean : BinaryOp → Bool
  | add | subtract | multiply | divide | modulo => false
  | less | lessEqual | greater | greaterEqual | equal | notEqual | and | or => true

/-- The symbol of the operator. -/
def symbol : BinaryOp → String
  | add => "+"
  | subtract => "-"
  | multiply => "*"
  | divide => "/"
  | modulo => "%"
  | less => "<"
  | lessEqual => "<="
  | greater => ">"
  | greaterEqual => ">="
  | equal => "=="
  | notEqual => "!="
  | and => "&&"
  | or => "||"

/-- The operator that a token stands for between two operands. -/
def ofKind? : Kind → Option BinaryOp
  | .plus => some add
  | .minus => some subtract
  | .star => some multiply
  | .slash => some divide
  | .percent => some modulo
  | .less => some less
  | .lessEqual => some lessEqual
  | .greater => some greater
  | .greaterEqual => some greaterEqual
  | .equal => some equal
  | .notEqual => some notEqual
  | .and => some and
  | .or => some or
  | _ => none

end BinaryOp

/-- The operators of one operand. -/
inductive UnaryOp where
  | not
  | negate
  | preIncrement
  | preDecrement
  | postIncrement
  | postDecrement
deriving DecidableEq, Repr, Inhabited

namespace UnaryOp

/-- The text of the operator applied to an operand. -/
def render : UnaryOp → String → String
  | not, operand => "!" ++ operand
  | negate, operand => "-" ++ operand
  | preIncrement, operand => "++" ++ operand
  | preDecrement, operand => "--" ++ operand
  | postIncrement, operand => operand ++ "++"
  | postDecrement, operand => operand ++ "--"

end UnaryOp

/-- A literal. -/
inductive Literal where
  /-- A number, as it is written. -/
  | number (text : String)
  /-- The text that a string literal denotes. -/
  | string (text : String)
  /-- A truth value. -/
  | bool (value : Bool)
deriving DecidableEq, Repr, Inhabited

namespace Literal

/-- Whether the literal is a number. -/
def isNumber : Literal → Bool
  | number _ => true
  | _ => false

/-- Whether the literal is a string. -/
def isString : Literal → Bool
  | string _ => true
  | _ => false

/-- The text of a literal. -/
def render : Literal → String
  | number text => text
  | string text => Text.quote text
  | bool true => "true"
  | bool false => "false"

/-- The type of a literal.  A number with a point or an exponent is a `float`. -/
def ty : Literal → Ty
  | number text =>
    if text.toList.any (fun c => c == '.' || c == 'e' || c == 'E') then .float else .int
  | string _ => .string
  | bool _ => .bool

end Literal

/-- An expression. -/
inductive Expr where
  | binary (op : BinaryOp) (left right : Expr) (span : Span)
  | unary (op : UnaryOp) (operand : Expr) (span : Span)
  | literal (value : Literal) (span : Span)
  /-- A variable. -/
  | symbol (name : String) (span : Span)
  /-- A function, always called by its name. -/
  | call (callee : String) (arguments : List Expr) (span : Span)
  /-- An expression in parentheses. -/
  | group (inner : Expr) (span : Span)
deriving Repr, Inhabited

/-- A call of a function, as it stands alone in a statement. -/
structure Call where
  /-- The name of the function. -/
  callee : String
  /-- What the function is applied to. -/
  arguments : List Expr
  /-- From the name to the closing parenthesis. -/
  span : Span
deriving Repr, Inhabited

namespace Expr

/-- The span of an expression. -/
def span : Expr → Span
  | binary _ _ _ span | unary _ _ span | literal _ span | symbol _ span | call _ _ span
  | group _ span => span

mutual

/-- The text of an expression. -/
def render : Expr → String
  | binary op left right _ => left.render ++ " " ++ op.symbol ++ " " ++ right.render
  | unary op operand _ => op.render operand.render
  | literal value _ => value.render
  | symbol name _ => name
  | call callee arguments _ => callee ++ "(" ++ ", ".intercalate (renderAll arguments) ++ ")"
  | group inner _ => "(" ++ inner.render ++ ")"

/-- The texts of several expressions. -/
def renderAll : List Expr → List String
  | [] => []
  | e :: es => e.render :: renderAll es

end

end Expr

namespace Call

/-- The call as an expression. -/
def toExpr (c : Call) : Expr := .call c.callee c.arguments c.span

/-- The text of a call. -/
def render (c : Call) : String := c.toExpr.render

end Call

end LangCheck
