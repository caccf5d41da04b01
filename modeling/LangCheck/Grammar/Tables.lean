import LangCheck.Syntax.Expr

/-!
# What a token can begin or continue

The grammar is driven by the kind of the current token: tables tell which statement it begins, how
an expression may start with it, how it continues an expression and how tightly it binds then, and
which type it names.
-/

namespace LangCheck.Grammar

/-- How tightly an operator binds its operands, from loose to tight. -/
inductive Power where
  /-- No operator at all. -/
  | default
  | logicalOr
  | logicalAnd
  | equality
  | relational
  | additive
  | multiplicative
  | unary
  | suffix
  | primary
deriving DecidableEq, Repr, Inhabited

/-- The place of a power in the order from loose to tight. -/
def Power.rank : Power → Nat
  | default => 0
  | logicalOr => 1
  | logicalAnd => 2
  | equality => 3
  | relational => 4
  | additive => 5
  | multiplicative => 6
  | unary => 7
  | suffix => 8
  | primary => 9

instance : LE Power := ⟨fun a b => a.rank ≤ b.rank⟩

instance : LT Power := ⟨fun a b => a.rank < b.rank⟩

instance (a b : Power) : Decidable (a ≤ b) := inferInstanceAs (Decidable (a.rank ≤ b.rank))

instance (a b : Power) : Decidable (a < b) := inferInstanceAs (Decidable (a.rank < b.rank))

/-- How an expression starts. -/
inductive Opening where
  /-- With a literal, a variable or a call. -/
  | operand
  /-- With a parenthesis. -/
  | group
  /-- With an operator in front of its operand. -/
  | sign
deriving DecidableEq, Repr, Inhabited

/-- How an expression goes on. -/
inductive Continuation where
  /-- With an operator and a second operand. -/
  | binary
  /-- With an increment or decrement behind its operand. -/
  | step
deriving DecidableEq, Repr, Inhabited

/-- Which statement begins. -/
inductive StmtForm where
  | declaration
  /-- An assignment or a call. -/
  | named
  | conditional
  | whileLoop
  | forLoop
  | returning
deriving DecidableEq, Repr, Inhabited

/-- What the kind of a token tells the parser. -/
structure Tables where
  /-- The statement that a token begins. -/
  statement : Kind → Option StmtForm
  /-- How an expression starts with a token. -/
  opening : Kind → Option Opening
  /-- How an expression goes on with a token, and how tightly the token binds then. -/
  continuation : Kind → Option (Power × Continuation)
  /-- The type that a token names. -/
  ty : Kind → Option Ty

namespace Tables

/-- The tables without any entry. -/
def empty : Tables := ⟨fun _ => none, fun _ => none, fun _ => none, fun _ => none⟩

/-- The power of a binary operator. -/
def powerOf : BinaryOp → Power
  | .or => .logicalOr
  | .and => .logicalAnd
  | .equal | .notEqual => .equality
  | .less | .lessEqual | .greater | .greaterEqual => .relational
  | .add | .subtract => .additive
  | .multiply | .divide | .modulo => .multiplicative

/-- The tables of the language. -/
def standard : Tables where
  statement
    | .constWord | .intWord | .floatWord | .doubleWord | .stringWord | .boolWord | .voidWord =>
      some .declaration
    | .name => some .named
    | .ifWord => some .conditional
    | .whileWord => some .whileLoop
    | .forWord => some .forLoop
    | .returnWord => some .returning
    | _ => none
  opening
    | .number | .text | .trueWord | .falseWord | .name => some .operand
    | .openParen => some .group
    | .not | .minus | .plusPlus | .minusMinus => some .sign
    | _ => none
  continuation kind :=
    match BinaryOp.ofKind? kind with
    | some op => some (powerOf op, .binary)
    | none => if kind = .plusPlus ∨ kind = .minusMinus then some (.suffix, .step) else none
  ty := Ty.ofKind?

end Tables

end LangCheck.Grammar
