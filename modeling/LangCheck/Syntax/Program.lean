import LangCheck.Syntax.Stmt

/-!
# Programs

A program is a list of global declarations and function definitions, in the order of the source.
-/

namespace LangCheck

/-- The declaration of a global variable.  Its initialiser, if any, is a literal. -/
structure GlobalDecl where
  /-- The name of the variable. -/
  name : String
  /-- Its type. -/
  ty : Ty
  /-- Whether it is constant. -/
  isConst : Bool
  /-- Its initialiser, if any. -/
  value : Option Literal
  /-- From the first word to the semicolon. -/
  span : Span
deriving Repr, Inhabited

/-- A parameter of a function. -/
structure Parameter where
  /-- The name of the parameter. -/
  name : String
  /-- Its type. -/
  ty : Ty
  /-- From its type to its name. -/
  span : Span
deriving Repr, Inhabited

/-- The definition of a function. -/
structure FunctionDef where
  /-- The name of the function. -/
  name : String
  /-- The type of its result. -/
  returns : Ty
  /-- Its parameters, in order. -/
  parameters : List Parameter
  /-- Its body. -/
  body : Block
  /-- From the type of the result to the closing brace. -/
  span : Span
deriving Repr, Inhabited

/-- An item at the top level of a program. -/
inductive Item where
  | global (decl : GlobalDecl)
  | function (definition : FunctionDef)
deriving Repr, Inhabited

/-- The function that an item defines, if it defines one. -/
def Item.function? : Item → Option FunctionDef
  | global _ => none
  | function definition => some definition

/-- A program. -/
structure Program where
  /-- The items, in order. -/
  items : List Item
  /-- From the first token to the end of the input. -/
  span : Span
deriving Repr, Inhabited

/-- The function definitions of a program, in order. -/
def Program.functions (p : Program) : List FunctionDef := p.items.filterMap Item.function?

end LangCheck
