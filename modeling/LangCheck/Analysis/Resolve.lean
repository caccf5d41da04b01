import LangCheck.Scope.Basic

/-!
# The type of an expression

The type of an expression in a scope.  Comparisons and logical operators yield `bool`; arithmetic
yields the widest type of its operands, and `float` where that makes no sense.
-/

namespace LangCheck

/-- The type of an arithmetic operation on operands of two types. -/
def Ty.arithmetic (left right : Ty) : Ty :=
  if left = .string ∨ right = .string then .string
  else if left = .double ∨ right = .double then .double
  else if left = .float ∨ right = .float then .float
  else if left = .int ∧ right = .int then .int
  else .float

/-- The type of an expression.  It is unknown if a name that decides it is. -/
def Scope.typeOf (s : Scope) : Expr → Ty
  | .binary op left right _ =>
    if op.isBoolean then .bool else .arithmetic (s.typeOf left) (s.typeOf right)
  | .unary op operand _ => if op = .not then .bool else s.typeOf operand
  | .literal value _ => value.ty
  | .symbol name _ => ((s.findVariable? name).map (·.ty)).getD .unknown
  | .call callee _ _ => ((s.findFunction? callee).map (·.returns)).getD .unknown
  | .group inner _ => s.typeOf inner

end LangCheck
