import LangCheck.Syntax.Expr

/-!
# Statements

The statements of a function's body.  The header of a `for` holds statements too: in a program that
was read from tokens the first is a declaration or an assignment, and the other an assignment.
-/

namespace LangCheck

/-- The declaration of a local variable. -/
structure VarDecl where
  /-- The name of the variable. -/
  name : String
  /-- Its type. -/
  ty : Ty
  /-- Whether it is constant. -/
  isConst : Bool
  /-- Its initialiser, if any. -/
  value : Option Expr
  /-- The span of the declaration, the semicolon left out. -/
  span : Span
deriving Repr, Inhabited

/-- The operators that change a variable. -/
inductive AssignOp where
  | assign | add | subtract | multiply | divide | modulo
  | increment | decrement
deriving DecidableEq, Repr, Inhabited

/-- Whether the operator assigns the value of an expression, perhaps combined with the value
before. -/
def AssignOp.takesValue : AssignOp → Bool
  | assign | add | subtract | multiply | divide | modulo => true
  | increment | decrement => false

/-- An assignment. -/
structure Assignment where
  /-- The name of the variable that changes. -/
  target : String
  /-- How it changes. -/
  op : AssignOp
  /-- The expression behind the operator, if any. -/
  value : Option Expr
  /-- The span of the assignment, the semicolon left out. -/
  span : Span
deriving Repr, Inhabited

/-- A list of statements in braces. -/
structure BlockOf (σ : Type) where
  /-- The statements, in order. -/
  body : List σ
  /-- From the opening to the closing brace. -/
  span : Span
deriving Repr, Inhabited

/-- A statement. -/
inductive Stmt where
  | declaration (d : VarDecl)
  | assignment (a : Assignment)
  | call (c : Call)
  /-- An `if`.  One that follows an `else` directly is the only statement of the else block. -/
  | conditional (condition : Expr) (thenBlock : BlockOf Stmt) (elseBlock : Option (BlockOf Stmt))
      (span : Span)
  | whileLoop (condition : Expr) (body : BlockOf Stmt) (span : Span)
  | forLoop (init : Option Stmt) (condition : Option Expr) (update : Option Stmt)
      (body : BlockOf Stmt) (span : Span)
  | returning (value : Option Expr) (span : Span)
deriving Repr, Inhabited

/-- A block of statements. -/
abbrev Block := BlockOf Stmt

namespace Stmt

/-- The span of a statement. -/
def span : Stmt → Span
  | declaration d => d.span
  | assignment a => a.span
  | call c => c.span
  | conditional _ _ _ span | whileLoop _ _ span | forLoop _ _ _ _ span | returning _ span => span

/-- Whether a statement is a `return`. -/
def isReturn : Stmt → Bool
  | returning _ _ => true
  | _ => false

end Stmt

end LangCheck
