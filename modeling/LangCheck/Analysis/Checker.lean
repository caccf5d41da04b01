import LangCheck.Analysis.Walk

/-!
# Analysing a program

All functions are known before any body is looked at, so a call may stand before the definition of
what it calls.  Globals become known one by one, so a function sees those that are declared before
it.  Of several definitions of a name the first counts, and the others are reported.
-/

namespace LangCheck

namespace Checker

/-- What is visible outside functions. -/
def scope (c : Checker) : Scope := c.tables.scope none

/-- Makes a function known, unless its name is taken. -/
def registerHeader (c : Checker) (f : FunctionDef) : Checker :=
  { c with tables.functions := c.tables.functions.declareOrKeep (.ofDefinition f) }

/-- Makes the functions of a program known. -/
def registerHeaders (c : Checker) (p : Program) : Checker := p.functions.foldl registerHeader c

/-! ## Globals -/

/-- What is wrong with the literal that initialises a global variable. -/
def literalErrors (target : Ty) : Option Literal → List SemanticError
  | none => []
  | some value =>
    if value.isString ∧ target ≠ .string then [.stringInitializer target]
    else if value.isNumber ∧ target = .string then [.numberInitializer]
    else []

/-- The variable that a global declaration declares. -/
def global (d : GlobalDecl) : Variable := ⟨d.name, d.ty, d.value.map (·.render), d.isConst⟩

/-- Checks a global declaration.  If its name is taken, nothing else is looked at. -/
def checkGlobal (c : Checker) (d : GlobalDecl) : Checker :=
  match c.tables.globals.declare (global d) with
  | .error e => c.report d.span.line (.duplicateGlobal e.name)
  | .ok globals =>
    (literalErrors d.ty d.value).foldl (·.report d.span.line ·)
      { c with tables.globals := globals }

/-! ## Functions -/

/-- The error of a definition whose function was defined before. -/
def redefinition (name : String) : SemanticError :=
  if name = mainName then .mainDefinedMultipleTimes else .duplicateFunction name

/-- The main function takes no parameters, and the analysis notes that there is one. -/
def enterMain (c : Checker) (f : FunctionDef) : Checker :=
  let c := { c with hasMain := true }
  if f.parameters.isEmpty then c else c.report f.span.line .mainWithParameters

/-- Declares a parameter as a local variable; a repeated name is reported. -/
def enterParameter (w : Walk) (p : Parameter) : Walk :=
  match w.frame with
  | none => w
  | some f =>
    match f.declareParameter ⟨p.name, p.ty⟩ with
    | .ok f' => { w with frame := some f' }
    | .error e => w.report p.span.line (.duplicateParameter e.name)

/-- A function with a result ends with a `return`.  Only the last statement of its body is looked
at, not every path. -/
def checkEnd (c : Checker) (f : FunctionDef) : Checker :=
  if f.returns = .void ∨ f.body.body.getLast?.any Stmt.isReturn then c
  else c.report f.span.stop.line (.missingReturn f.name f.returns)

/-- Walks through a function that was not reached before; the frame of the result holds all that is
known of it then. -/
def walkFunction (c : Checker) (f : FunctionDef) : Walk :=
  let c := { c with reached := f.name :: c.reached }
  let signature := (c.tables.functions.find? f.name).getD (.ofDefinition f)
  let c := if signature.isMain then c.enterMain f else c
  let w := (f.parameters.foldl enterParameter ⟨c, some (.ofSignature signature)⟩).block f.body
  { w with checker := w.checker.checkEnd f }

/-- Puts what is known of a function into the tables. -/
def leave (c : Checker) (name : String) : Option Frame → Checker
  | none => c
  | some f => { c with tables.functions := c.tables.functions.replace name f.signature }

/-- Checks a function definition.  If its name is taken, its body is not looked at. -/
def checkFunction (c : Checker) (f : FunctionDef) : Checker :=
  if f.name ∈ c.reached then c.report f.span.line (redefinition f.name)
  else
    let w := c.walkFunction f
    w.checker.leave f.name w.frame

/-- Checks an item. -/
def checkItem (c : Checker) : Item → Checker
  | .global d => c.checkGlobal d
  | .function f => c.checkFunction f

/-! ## The whole program -/

/-- A program needs a main function. -/
def checkMain (c : Checker) (p : Program) : Checker :=
  if c.hasMain then c else c.report p.span.line .missingMain

end Checker

/-- What the analysis of a program found out. -/
structure Analysis where
  /-- The global variables, in the order of their declaration. -/
  globals : List Variable
  /-- The functions, in the order of their first definition. -/
  functions : List Signature
  /-- What is wrong, in the order in which it was found. -/
  diagnostics : List Diagnostic
deriving DecidableEq, Repr, Inhabited

/-- The result of an analysis that has seen all items of a program. -/
def Checker.finish (c : Checker) (p : Program) : Analysis :=
  let c := c.checkMain p
  ⟨c.tables.globals.toList, c.tables.functions.toList, c.diagnostics⟩

/-- The analysis of a program. -/
def Program.analyse (p : Program) : Analysis :=
  (p.items.foldl Checker.checkItem (Checker.empty.registerHeaders p)).finish p

namespace Analysis

/-- Whether anything is wrong. -/
def hasErrors (a : Analysis) : Bool := !a.diagnostics.isEmpty

/-- What is wrong in one family of rules. -/
def diagnosticsOf (a : Analysis) (family : Family) : List Diagnostic :=
  a.diagnostics.filter (·.family = family)

/-- The global variable of a name. -/
def global? (a : Analysis) (name : String) : Option Variable := a.globals.find? (·.name = name)

/-- The function of a name. -/
def function? (a : Analysis) (name : String) : Option Signature := a.functions.find? (·.name = name)

end Analysis

end LangCheck
