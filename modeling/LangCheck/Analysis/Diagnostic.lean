import LangCheck.Syntax.Ty

/-!
# Diagnostics

What the analysis of a program can find wrong with it.  Findings do not stop the analysis; each
names a line and belongs to one family of rules.
-/

namespace LangCheck

/-- The families of rules. -/
inductive Family where
  | duplicateDeclaration
  | undeclaredReference
  | typeMismatch
  | constViolation
  | arityMismatch
  | structuralViolation
deriving DecidableEq, Repr, Inhabited

/-- A rule that a program breaks. -/
inductive SemanticError where
  | duplicateGlobal (name : String)
  | duplicateLocal (name : String)
  | duplicateParameter (name : String)
  | duplicateFunction (name : String)
  | undeclaredVariable (name : String)
  | undefinedFunction (name : String)
  /-- A string initialises a global variable of another type. -/
  | stringInitializer (target : Ty)
  /-- A number initialises a global variable of type `string`. -/
  | numberInitializer
  | initializerMismatch (name : String) (expected received : Ty)
  | assignmentMismatch (name : String) (expected received : Ty)
  /-- An argument does not fit; arguments are counted from 1. -/
  | argumentTypeMismatch (function : String) (place : Nat) (expected received : Ty)
  | returnTypeMismatch (expected received : Ty)
  | constAssignment (name : String)
  | argumentCountMismatch (function : String) (expected received : Nat)
  | missingMain
  | mainDefinedMultipleTimes
  | mainWithParameters
  | mainCalled
  | returnOutsideFunction
  /-- A function with a result does not end with a `return`. -/
  | missingReturn (function : String) (returns : Ty)
  | voidReturnsValue (function : String)
  | missingReturnValue (function : String) (returns : Ty)
deriving DecidableEq, Repr, Inhabited

namespace SemanticError

/-- The family of the rule that is broken. -/
def family : SemanticError → Family
  | duplicateGlobal _ | duplicateLocal _ | duplicateParameter _ | duplicateFunction _ =>
    .duplicateDeclaration
  | undeclaredVariable _ | undefinedFunction _ => .undeclaredReference
  | stringInitializer _ | numberInitializer | initializerMismatch .. | assignmentMismatch ..
  | argumentTypeMismatch .. | returnTypeMismatch .. => .typeMismatch
  | constAssignment _ => .constViolation
  | argumentCountMismatch .. => .arityMismatch
  | missingMain | mainDefinedMultipleTimes | mainWithParameters | mainCalled
  | returnOutsideFunction | missingReturn .. | voidReturnsValue _ | missingReturnValue .. =>
    .structuralViolation

/-- What the finding says. -/
def message : SemanticError → String
  | duplicateGlobal name => "Variabila globala '" ++ name ++ "' este deja definita"
  | duplicateLocal name => "Variabila locala '" ++ name ++ "' este redeclarata"
  | duplicateParameter name => "Parametrul '" ++ name ++ "' este duplicat"
  | duplicateFunction name => "Functia '" ++ name ++ "' este deja definita"
  | undeclaredVariable name => "Variabila '" ++ name ++ "' nu este declarata"
  | undefinedFunction name => "Functia '" ++ name ++ "' nu este definita."
  | stringInitializer target =>
    "Nu se poate initializa tipul '" ++ target.name ++ "' cu un string"
  | numberInitializer => "Nu se poate initializa tipul 'string' cu un numar"
  | initializerMismatch name expected received =>
    "Nu se poate converti '" ++ received.name ++ "' la '" ++ expected.name ++
      "' in initializarea variabilei '" ++ name ++ "'"
  | assignmentMismatch name expected received =>
    "Tip incompatibil la atribuire pentru '" ++ name ++ "'. Asteptat: " ++ expected.name ++
      ", Primit: " ++ received.name
  | argumentTypeMismatch function place expected received =>
    "Argumentul " ++ toString place ++ " al functiei '" ++ function ++
      "' este incompatibil. Asteptat: '" ++ expected.name ++ "', Primit: '" ++ received.name ++ "'."
  | returnTypeMismatch expected received =>
    "Tip returnat incompatibil. Asteptat: '" ++ expected.name ++ "', Gasit: '" ++ received.name ++
      "'."
  | constAssignment name => "Nu se poate modifica variabila constanta '" ++ name ++ "'"
  | argumentCountMismatch function expected received =>
    "Functia '" ++ function ++ "' asteapta " ++ toString expected ++
      " argumente, dar a primit " ++ toString received ++ "."
  | missingMain => "Programul nu contine o functie 'main'"
  | mainDefinedMultipleTimes => "Functia 'main' este definita multiplu"
  | mainWithParameters => "Functia 'main' nu trebuie sa aiba parametri"
  | mainCalled => "Functia 'main' nu poate fi apelata explicit."
  | returnOutsideFunction => "Instructiunea 'return' folosita in afara unei functii."
  | missingReturn function returns =>
    "Functia '" ++ function ++ "' (tip " ++ returns.name ++
      ") nu se incheie cu o instructiune return."
  | voidReturnsValue function =>
    "Functia '" ++ function ++ "' este de tip void si nu poate returna o valoare."
  | missingReturnValue function returns =>
    "Functia '" ++ function ++ "' trebuie sa returneze o valoare de tip '" ++ returns.name ++ "'."

end SemanticError

/-- A broken rule and the line that it is reported on. -/
structure Diagnostic where
  /-- The line. -/
  line : UInt32
  /-- The rule that is broken. -/
  error : SemanticError
deriving DecidableEq, Repr, Inhabited

namespace Diagnostic

/-- The family of the rule that is broken. -/
def family (d : Diagnostic) : Family := d.error.family

/-- What a diagnostic says, with its line. -/
def render (d : Diagnostic) : String :=
  "Eroare Semantica (L" ++ toString d.line ++ "): " ++ d.error.message

end Diagnostic

end LangCheck
