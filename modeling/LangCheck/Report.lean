import LangCheck.Analysis.Checker
import LangCheck.Token.Basic

/-!
# Reports

The results of an analysis as lists of lines: the globals, the functions with what their bodies
declare, and the diagnostics.
-/

namespace LangCheck.Report

/-- The lines of a report as one text, each of them ended by a newline. -/
def unlines (lines : List String) : String := String.join (lines.map (· ++ "\n"))

/-- A truth value in a report. -/
def flag (value : Bool) : String := if value then "True" else "False"

/-- The recorded text of an initialiser in a report. -/
def valueText (value : Option String) : String := value.getD "null"

/-- The line of a global variable. -/
def globalLine (v : Variable) : String :=
  "Nume: " ++ v.name ++ ", Tip: " ++ v.ty.name ++ ", Valoare: " ++ valueText v.value ++
    ", Const: " ++ flag v.isConst

/-- The line of a local variable. -/
def localLine (v : Variable) : String :=
  "    - " ++ v.ty.name ++ " " ++ v.name ++ " (= " ++ valueText v.value ++ ")"

/-- The line that closes the lines of a function. -/
def separator : String := "------------------------------------------------"

/-- The lines of a function. -/
def functionLines (s : Signature) : List String :=
  ["Functie: " ++ s.name ++ " (Tip: " ++ (if s.isMain then "Main" else "Non-Main") ++
      ", Recursiva: " ++ flag s.isRecursive ++ ")",
    "  Return: " ++ s.returns.name,
    "  Parametri: " ++ ", ".intercalate (s.parameters.map Formal.render),
    "  Variabile Locale:"] ++ s.locals.map localLine ++
  ["  Structuri Control:"] ++ s.controls.map ("    - " ++ ·) ++ [separator]

/-- The report on global variables. -/
def globals (vs : List Variable) : String := unlines (vs.map globalLine)

/-- The report on functions. -/
def functions (ss : List Signature) : String := unlines (ss.flatMap functionLines)

/-- The report on diagnostics. -/
def diagnostics (ds : List Diagnostic) : String := unlines (ds.map Diagnostic.render)

end LangCheck.Report
