import LangCheck.Analysis.Checker
import LangCheck.Grammar.Program

/-!
# The journal of an analysis

Every stage leaves a record of what it did.  The records of a stage are told from what it was given
and what it returned, so the stages themselves know nothing of them.
-/

namespace LangCheck

/-- The stages that leave records. -/
inductive Stage where
  | lexing
  | parsing
  | analysing
deriving DecidableEq, Repr, Inhabited

/-- How important a record is. -/
inductive Level where
  | debug
  | trace
deriving DecidableEq, Repr, Inhabited

/-- A record of something that happened. -/
inductive Event where
  /-- A source was cut into tokens, the end of the input among them. -/
  | tokenized (file : String) (tokens : Nat)
  /-- A program was read. -/
  | parsed (items : Nat) (file : String)
  /-- The headers of functions became known. -/
  | registered (functions : Nat)
  /-- The walk through a function began. -/
  | entered (function : String)
  /-- Something wrong was found. -/
  | found (diagnostic : Diagnostic)
  /-- The walk through a function ended. -/
  | left (function : String) (locals : Nat) (isRecursive : Bool)
  /-- The analysis ended. -/
  | concluded (globals functions diagnostics : Nat)
deriving DecidableEq, Repr, Inhabited

namespace Event

/-- The stage that leaves a record. -/
def stage : Event → Stage
  | tokenized .. => .lexing
  | parsed .. => .parsing
  | registered _ | entered _ | found _ | left .. | concluded .. => .analysing

/-- The importance of a record. -/
def level : Event → Level
  | found _ => .trace
  | _ => .debug

/-- The text of a record. -/
def text : Event → String
  | tokenized file tokens => "tokenized " ++ file ++ " into " ++ toString tokens ++ " tokens"
  | parsed items file => "parsed " ++ toString items ++ " top-level items from " ++ file
  | registered functions => "registered " ++ toString functions ++ " function headers"
  | entered function => "checking function `" ++ function ++ "`"
  | found diagnostic => diagnostic.render
  | left function locals isRecursive =>
    "finished `" ++ function ++ "`: " ++ toString locals ++ " locals, recursive: " ++
      toString isRecursive
  | concluded globals functions diagnostics =>
    "analysis finished: " ++ toString globals ++ " globals, " ++ toString functions ++
      " functions, " ++ toString diagnostics ++ " diagnostics"

end Event

namespace Journal

/-- The record of cutting a source into tokens. -/
def ofTokens (tokens : List Token) (file : String) : List Event := [.tokenized file tokens.length]

/-- The record of reading a program; a failure leaves none. -/
def ofParse (result : Except SyntaxError Program) (file : String) : List Event :=
  match result with
  | .ok p => [.parsed p.items.length file]
  | .error _ => []

/-- The records of what was found between two states of the analysis. -/
def ofFindings (before after : Checker) : List Event :=
  (after.diagnostics.drop before.diagnostics.length).map .found

/-- The record of making the headers of a program known. -/
def ofHeaders (after : Checker) : List Event := [.registered after.tables.functions.size]

/-- The records of checking an item. -/
def ofItem (before : Checker) (item : Item) : List Event :=
  let findings := ofFindings before (before.checkItem item)
  match item with
  | .global _ => findings
  | .function f =>
    if f.name ∈ before.reached then findings
    else match (before.walkFunction f).frame with
      | none => findings
      | some frame =>
        [.entered f.name] ++ findings ++
          [.left f.name frame.signature.locals.length frame.signature.isRecursive]

/-- The records of checking items, in order. -/
def ofItems (before : Checker) : List Item → List Event
  | [] => []
  | item :: items => ofItem before item ++ ofItems (before.checkItem item) items

/-- The records of the end of an analysis. -/
def ofFinish (before : Checker) (p : Program) : List Event :=
  let after := before.finish p
  ofFindings before (before.checkMain p) ++
    [.concluded after.globals.length after.functions.length after.diagnostics.length]

/-- The records of the analysis of a program. -/
def ofAnalysis (p : Program) : List Event :=
  let start := Checker.empty.registerHeaders p
  ofHeaders start ++ ofItems start p.items ++
    ofFinish (p.items.foldl Checker.checkItem start) p

end Journal

end LangCheck
