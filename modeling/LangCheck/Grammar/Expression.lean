import LangCheck.Grammar.Cursor
import LangCheck.Grammar.Tables

/-!
# Reading types and expressions

An expression starts with an operand, a parenthesis or a sign, and goes on as long as the next token
is an operator that binds more tightly than what surrounds the expression.

The recursion is bounded by the number of tokens from the cursor on: every step of it passes a
token, and without any token left there is nothing to read.
-/

namespace LangCheck.Grammar

/-! ## Pieces that read no expression themselves -/

/-- Reads a word that names a type. -/
def primitiveType : Parser Ty := do
  match Ty.ofKind? (← currentKind) with
  | some ty =>
    let _ ← advance
    return ty
  | none => misplaced "expected a type"

/-- Reads a type.  A name in its place is an unknown type. -/
def type (t : Tables) : Parser Ty := fun c =>
  match t.ty c.kind with
  | some _ => primitiveType c
  | none =>
    if c.kind = .name then .error ⟨.unknownType c.current.text, c.position⟩ c
    else misplaced "expected a type" c

/-- The literal that a token is. -/
def literalOf? (token : Token) : Option Literal :=
  match token.kind with
  | .number => some (.number token.text)
  | .text => some (.string token.text)
  | .trueWord => some (.bool true)
  | .falseWord => some (.bool false)
  | _ => none

/-- Reads a literal. -/
def literal : Parser Literal := fun c =>
  match literalOf? c.current with
  | some value => .ok value c.next
  | none => misplaced "expected a literal value" c

/-- The operator that a token is in front of its operand. -/
def signOf : Kind → UnaryOp
  | .not => .not
  | .minus => .negate
  | .plusPlus => .preIncrement
  | _ => .preDecrement

/-- The operator that a token is behind its operand. -/
def stepOf (kind : Kind) : UnaryOp :=
  if kind = .plusPlus then .postIncrement else .postDecrement

/-! ## The productions, given how their parts are read -/

/-- Reads a call. -/
def callWith (arguments : Parser (List Expr)) : Parser Call := do
  let name ← expect .name
  let _ ← expect .openParen
  let given ← if (← currentKind) = .closeParen then pure [] else arguments
  let close ← expect .closeParen
  return ⟨name.text, given, ⟨name.span.start, close.span.stop⟩⟩

/-- Reads a literal, a variable or a call. -/
def operandWith (arguments : Parser (List Expr)) : Parser Expr := do
  match ← currentKind with
  | .name =>
    if (← peekKind 1) = .openParen then
      return (← callWith arguments).toExpr
    else
      let token ← advance
      return .symbol token.text token.span
  | .number | .text | .trueWord | .falseWord =>
    let span := (← get).current.span
    return .literal (← literal) span
  | _ => unexpected

/-- Reads an expression in parentheses. -/
def groupWith (inner : Parser Expr) : Parser Expr := do
  let opened ← expect .openParen
  let e ← inner
  let close ← expect .closeParen
  return .group e ⟨opened.span.start, close.span.stop⟩

/-- Reads an operator in front of its operand. -/
def signWith (operand : Parser Expr) : Parser Expr := do
  let token ← advance
  let e ← operand
  return .unary (signOf token.kind) e ⟨token.span.start, e.span.stop⟩

/-- Reads a binary operator and its right operand. -/
def binaryWith (left : Expr) (right : Parser Expr) : Parser Expr := do
  match BinaryOp.ofKind? (← currentKind) with
  | some op =>
    let _ ← advance
    let e ← right
    return .binary op left e ⟨left.span.start, e.span.stop⟩
  | none => unexpected

/-- Reads an increment or decrement behind its operand. -/
def step (left : Expr) : Parser Expr := do
  let token ← advance
  return .unary (stepOf token.kind) left ⟨left.span.start, token.span.stop⟩

/-! ## The recursion -/

mutual

/-- Reads an expression whose operators bind more tightly than `power`, if no more than `room`
tokens are left. -/
def expressionWithin (t : Tables) (room : Nat) (power : Power) : Parser Expr :=
  match room with
  | 0 => unexpected
  | room + 1 => do
    let left ← match t.opening (← currentKind) with
      | some .operand => operandWith (argumentsWithin t room)
      | some .group => groupWith (expressionWithin t room .default)
      | some .sign => signWith (expressionWithin t room .unary)
      | none => unexpected
    continuationWithin t room power left

/-- Goes on reading behind `left`. -/
def continuationWithin (t : Tables) (room : Nat) (power : Power) (left : Expr) : Parser Expr :=
  match room with
  | 0 => pure left
  | room + 1 => do
    match t.continuation (← currentKind) with
    | some (next, form) =>
      if next ≤ power then return left
      else
        let longer ← match form with
          | .binary => binaryWith left (expressionWithin t room next)
          | .step => step left
        continuationWithin t room power longer
    | none => return left

/-- Reads the arguments of a call, at least one. -/
def argumentsWithin (t : Tables) (room : Nat) : Parser (List Expr) :=
  match room with
  | 0 => unexpected
  | room + 1 => do
    let first ← expressionWithin t room .default
    if (← currentKind) = .comma then
      let _ ← advance
      return first :: (← argumentsWithin t room)
    else
      return [first]

end

/-! ## Reading from the cursor on -/

/-- Reads an expression whose operators bind more tightly than `power`. -/
def expression (t : Tables) (power : Power) : Parser Expr :=
  withRoom fun room => expressionWithin t room power

/-- Reads the arguments of a call, at least one. -/
def arguments (t : Tables) : Parser (List Expr) :=
  withRoom fun room => argumentsWithin t (room + 1)

/-- Reads a call. -/
def call (t : Tables) : Parser Call := callWith (arguments t)

/-- Reads a literal, a variable or a call. -/
def operand (t : Tables) : Parser Expr := operandWith (arguments t)

/-- Reads an expression in parentheses. -/
def group (t : Tables) : Parser Expr := groupWith (expression t .default)

/-- Reads an operator in front of its operand. -/
def sign (t : Tables) : Parser Expr := signWith (expression t .unary)

/-- Reads a binary operator and its right operand. -/
def binary (t : Tables) (left : Expr) (power : Power) : Parser Expr :=
  binaryWith left (expression t power)

end LangCheck.Grammar
