import LangCheck.Token.Kind

/-!
# Types

The types of the language are primitive.  The type of an expression whose names cannot be resolved
is unknown; such an expression is accepted everywhere, because its cause is reported by itself.
-/

namespace LangCheck

/-- The types of the language, and the type of what cannot be resolved. -/
inductive Ty where
  | int
  | float
  | double
  | string
  | bool
  | void
  | unknown
deriving DecidableEq, Repr, Inhabited

namespace Ty

/-- The name of a type, as it is written and reported. -/
def name : Ty → String
  | int => "int"
  | float => "float"
  | double => "double"
  | string => "string"
  | bool => "bool"
  | void => "void"
  | unknown => "unknown"

/-- The type that a word names. -/
def ofKind? : Kind → Option Ty
  | .intWord => some int
  | .floatWord => some float
  | .doubleWord => some double
  | .stringWord => some string
  | .boolWord => some bool
  | .voidWord => some void
  | _ => none

/-- Whether a value of type `source` may be used where one of type `target` is expected.  Numbers
widen from `int` over `float` to `double`, a `bool` is taken for an `int`, and a `string` only for
itself. -/
def accepts (target source : Ty) : Bool :=
  target == source || source == unknown ||
    match target, source with
    | double, float | double, int | float, int | int, bool => true
    | _, _ => false

/-- The words that name types are those that the grammar calls so. -/
theorem isSome_ofKind? (kind : Kind) : (ofKind? kind).isSome = kind.isTypeWord := by
  cases kind <;> rfl

end Ty

end LangCheck
