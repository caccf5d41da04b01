import LangCheck.Scope.Table
import LangCheck.Syntax.Program

/-!
# What is visible in a program

There are two tiers of variables: the globals, and the locals of the function that is looked at.
Blocks have no tier of their own.  Functions are visible everywhere.
-/

namespace LangCheck

/-- A declared variable. -/
structure Variable where
  /-- The name of the variable. -/
  name : String
  /-- Its type. -/
  ty : Ty
  /-- The text of its initialiser, kept for reports. -/
  value : Option String
  /-- Whether it is constant. -/
  isConst : Bool
deriving DecidableEq, Repr, Inhabited

instance : Named Variable := ⟨Variable.name⟩

/-- A parameter as a signature records it. -/
structure Formal where
  /-- The name of the parameter. -/
  name : String
  /-- Its type. -/
  ty : Ty
deriving DecidableEq, Repr, Inhabited

/-- A parameter as it is reported: its type and its name. -/
def Formal.render (p : Formal) : String := p.ty.name ++ " " ++ p.name

/-- What is known of a function. -/
structure Signature where
  /-- The name of the function. -/
  name : String
  /-- The type of its result. -/
  returns : Ty
  /-- Its parameters in order, repeated names included. -/
  parameters : List Formal
  /-- Whether the function calls itself. -/
  isRecursive : Bool
  /-- Whether it is the function with which a program starts. -/
  isMain : Bool
  /-- The variables that its body declares. -/
  locals : List Variable
  /-- The control structures of its body, each with its line. -/
  controls : List String
deriving DecidableEq, Repr, Inhabited

instance : Named Signature := ⟨Signature.name⟩

/-- The name of the function with which a program starts. -/
def mainName : String := "main"

namespace Signature

/-- What is known of a function before its body is looked at. -/
def ofHeader (name : String) (returns : Ty) (parameters : List Formal) : Signature :=
  ⟨name, returns, parameters, false, name == mainName, [], []⟩

/-- What the header of a definition tells. -/
def ofDefinition (f : FunctionDef) : Signature :=
  ofHeader f.name f.returns (f.parameters.map fun p => ⟨p.name, p.ty⟩)

/-- The types of the parameters, in order. -/
def parameterTypes (s : Signature) : List Ty := s.parameters.map (·.ty)

end Signature

/-- The variables of one tier. -/
abbrev Variables := Table Variable

/-- The functions of a program. -/
abbrev Functions := Table Signature

/-- The tables of a whole program. -/
structure SymbolTables where
  /-- The global variables. -/
  globals : Variables
  /-- The functions. -/
  functions : Functions
deriving Inhabited

/-- What is visible from some place of a program. -/
structure Scope where
  /-- The global variables. -/
  globals : Variables
  /-- The functions. -/
  functions : Functions
  /-- The local variables, inside a function. -/
  locals : Option Variables
deriving Inhabited

namespace Scope

/-- The variable of a name.  Locals hide globals. -/
def findVariable? (s : Scope) (name : String) : Option Variable :=
  (s.locals.bind (·.find? name)).or (s.globals.find? name)

/-- The function of a name. -/
def findFunction? (s : Scope) (name : String) : Option Signature := s.functions.find? name

end Scope

namespace SymbolTables

/-- The tables of a program that declares nothing. -/
def empty : SymbolTables := ⟨.empty, .empty⟩

/-- What is visible with the given local variables. -/
def scope (t : SymbolTables) (locals : Option Variables) : Scope :=
  ⟨t.globals, t.functions, locals⟩

end SymbolTables

end LangCheck
