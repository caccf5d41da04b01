import LangCheck.Grammar.Program
import LangCheck.Proofs.Analysis.Sites

/-!
# Modifications of constant variables

A variable is modified by an assignment of its own, and by an increment or a decrement inside any
expression (`Modification`).  The analysis reports the modifications of constant variables that stand
as statements, each once and in order, and it reports none of those inside expressions.  The main
result (`Program.diagnosticsOf_constViolation`) says so: the reports are one for each modification
exactly in the programs in which no expression modifies a constant variable.
-/

namespace LangCheck

/-! ## Modifications -/

/-- Where a modification stands. -/
inductive Modification.Site where
  /-- A statement of its own, or the first or last part of the header of a `for`. -/
  | statement
  /-- Inside an expression. -/
  | expression
deriving DecidableEq, Repr, Inhabited

/-- A modification of a variable. -/
structure Modification where
  /-- Where it stands. -/
  site : Modification.Site
  /-- The name of the variable. -/
  name : String
  /-- Its line. -/
  line : UInt32
deriving DecidableEq, Repr, Inhabited

namespace Modification

/-- Whether the modification is a statement. -/
def isStatement (m : Modification) : Bool := m.site = .statement

/-- The report of a modification of a constant variable. -/
def violation (m : Modification) : Diagnostic := ⟨m.line, .constAssignment m.name⟩

end Modification

/-- The variable that an expression is, perhaps in parentheses. -/
def Expr.symbol? : Expr → Option String
  | .symbol name _ => some name
  | .group inner _ => inner.symbol?
  | _ => none

/-- Whether an operator changes the variable that it is applied to. -/
def UnaryOp.modifies : UnaryOp → Bool
  | not | negate => false
  | preIncrement | preDecrement | postIncrement | postDecrement => true

/-- The modification that a node of an expression makes, its parts left out. -/
def Expr.modification? : Expr → Option Modification
  | .unary op operand span =>
    if op.modifies then operand.symbol?.map (⟨.expression, ·, span.line⟩) else none
  | _ => none

namespace Step

/-- The modification that a step is. -/
def assigned : Step → List Modification
  | assign a => [⟨.statement, a.target, a.span.line⟩]
  | _ => []

/-- The modifications of a step, those inside its expression included. -/
def modifications (s : Step) : List Modification :=
  s.assigned ++ (nodesOf s.value?).filterMap Expr.modification?

end Step

/-- A name denotes a constant variable. -/
def Context.isConstant (Γ : Context) (name : String) : Bool :=
  (Γ.findVariable? name).any (·.isConst)

namespace Program

/-- The modifications of constant variables in a function whose name no item before it has, in the order
of the walk. -/
def constantsModifiedAt (p : Program) (before : List Item) : Item → List Modification
  | .global _ => []
  | .function f =>
    if f.name ∈ functionNames before then []
    else flatMapPast (fun past step => step.modifications.filter fun m =>
      (p.context before f (past ++ [step])).isConstant m.name) [] f.steps

/-- The modifications of constant variables in a program, in the order of the walk. -/
def constantsModified (p : Program) : List Modification :=
  flatMapPast p.constantsModifiedAt [] p.items

end Program

/-! ## Which findings are about constant variables -/

/-- The findings about modifications of constant variables. -/
def constViolations (ds : List Diagnostic) : List Diagnostic :=
  ds.filter (·.family = .constViolation)

section Violations

variable {ds es : List Diagnostic} {s : Scope} {f : Signature}

@[simp] lemma constViolations_append :
    constViolations (ds ++ es) = constViolations ds ++ constViolations es := by
  simp [constViolations]

lemma constViolations_eq_nil (h : ∀ d ∈ ds, d.family ≠ .constViolation) : constViolations ds = [] := by
  simpa [constViolations, List.filter_eq_nil_iff] using h

lemma constViolations_allOn_eq_nil {line : UInt32} {errors : List SemanticError}
    (h : ∀ error ∈ errors, error.family ≠ .constViolation) :
    constViolations (Diagnostic.allOn line errors) = [] := by
  refine constViolations_eq_nil fun d hd => ?_
  obtain ⟨error, herror, rfl⟩ := List.mem_map.1 hd
  exact h error herror

/-- Only rules about assignments are about constant variables. -/
lemma family_of_reports {c : Construct} {error : SemanticError} (hc : c ≠ .assignment)
    (h : c.reports error) : error.family ≠ .constViolation := by
  cases error with
  | constAssignment name =>
    cases c <;> first | exact absurd rfl hc | cases h
  | _ => simp [SemanticError.family]

lemma Construct.dropped_of_ne_assignment {c : Construct} (hc : c ≠ .assignment) :
    c.Dropped fun error => error.family = .constViolation :=
  fun _ h => decide_eq_false (family_of_reports hc h)

/-- No rule about a node of an expression is about modifications. -/
lemma constViolations_findings (nodes : List Expr) : constViolations (s.findings nodes) = [] := by
  refine constViolations_eq_nil fun d hd => ?_
  rcases reports_of_mem_findings hd with h | h
  · exact family_of_reports (by decide) h
  · exact family_of_reports (by decide) h

end Violations

/-! ## What is reported -/

section Reported

variable {Γ Δ : Context}

/-- Of what is wrong with an assignment itself, the modification of a constant variable is reported
once. -/
lemma constViolations_assignmentErrors (a : Assignment) (line : UInt32) :
    constViolations (Diagnostic.allOn line (Γ.scope.assignmentErrors a)) =
      if Γ.isConstant a.target then [⟨line, .constAssignment a.target⟩] else [] := by
  rcases ht : Γ.findVariable? a.target with _ | v
  · simp [Scope.assignmentErrors, Context.isConstant, ht, constViolations, Diagnostic.family,
      SemanticError.family]
  obtain ⟨mismatches, hsplit, hmismatch⟩ := exists_assignmentErrors (Context.findVariable?_scope.trans ht)
  have hfamily : ∀ error ∈ mismatches, error.family ≠ .constViolation := by
    intro error herror
    obtain ⟨received, rfl⟩ := hmismatch error herror
    simp [SemanticError.family]
  rw [hsplit, Diagnostic.allOn_append, constViolations_append, constViolations_allOn_eq_nil hfamily,
    List.append_nil, Context.isConstant, ht, Context.name_of_findVariable? ht]
  by_cases hconst : v.isConst = true <;>
    simp [hconst, constViolations, Diagnostic.family, SemanticError.family]

/-- Of the modifications of constant variables in a step, those that are statements are reported, and
nothing else of this family. -/
lemma constViolations_stepFindings (sig : Signature) (step : Step) :
    constViolations (stepFindings Δ.scope Γ.scope sig step) =
      (step.assigned.filter fun m => Γ.isConstant m.name).map Modification.violation := by
  have hassigned : (step.assignment?.toList.flatMap fun a =>
      constViolations (Diagnostic.allOn a.span.line (Γ.scope.assignmentErrors a))) =
      (step.assigned.filter fun m => Γ.isConstant m.name).map Modification.violation := by
    cases step with
    | assign a =>
      refine (List.append_nil _).trans ((constViolations_assignmentErrors a _).trans ?_)
      by_cases hconst : Γ.isConstant a.target = true <;>
        simp [hconst, Step.assigned, Modification.violation]
    | _ => rfl
  calc constViolations (stepFindings Δ.scope Γ.scope sig step)
      = (step.assignment?.toList.flatMap fun a =>
          constViolations (Diagnostic.allOn a.span.line (Γ.scope.assignmentErrors a))) ++
          constViolations (Γ.scope.findings (nodesOf step.value?)) :=
        filter_stepFindings (Construct.dropped_of_ne_assignment (by decide))
          (Construct.dropped_of_ne_assignment (by decide)) sig step
    _ = (step.assigned.filter fun m => Γ.isConstant m.name).map Modification.violation := by
        rw [constViolations_findings, List.append_nil, hassigned]

/-- The modifications of a step that are statements are the step itself. -/
lemma filter_isStatement_modifications (step : Step) :
    step.modifications.filter Modification.isStatement = step.assigned := by
  have hnodes : ∀ m ∈ (nodesOf step.value?).filterMap Expr.modification?, m.isStatement = false := by
    intro m hm
    obtain ⟨e, -, he⟩ := List.mem_filterMap.1 hm
    cases e with
    | unary op operand span =>
      simp only [Expr.modification?] at he
      split at he
      · obtain ⟨name, -, rfl⟩ := Option.map_eq_some_iff.1 he
        rfl
      · cases he
    | _ => cases he
  have hnil : ((nodesOf step.value?).filterMap Expr.modification?).filter
      Modification.isStatement = [] :=
    List.filter_eq_nil_iff.2 fun m hm => by simp [hnodes m hm]
  rw [Step.modifications, List.filter_append, hnil, List.append_nil]
  cases step <;> rfl

lemma constantsModified_eq_flatMap (p : Program) :
    p.constantsModified = p.sites.flatMap fun s =>
      s.step.modifications.filter fun m => (s.context p).isConstant m.name := by
  rw [Program.constantsModified, Program.sites, flatMap_flatMapPast]
  refine flatMapPast_congr fun before item rest _ => ?_
  cases item with
  | global d => rfl
  | function f =>
    simp only [Program.constantsModifiedAt, Item.sites]
    split
    · rfl
    · rw [flatMap_flatMapPast]
      exact flatMapPast_congr fun past step rest _ => by simp [Site.context]

/-- The reports of modifications are those of the modifications that are statements, in order. -/
lemma constViolations_findings_program (p : Program) :
    constViolations p.findings =
      (p.constantsModified.filter Modification.isStatement).map Modification.violation := by
  have hsites : constViolations p.findings =
      p.sites.flatMap fun s => constViolations (s.findings p) := by
    rw [← p.diagnostics_analyse]
    exact p.filter_diagnostics_analyse fun c hc =>
      Construct.dropped_of_ne_assignment (by rintro rfl; cases hc)
  rw [hsites, constantsModified_eq_flatMap, List.filter_flatMap, List.map_flatMap]
  congr 1
  funext s
  rw [List.filter_comm, filter_isStatement_modifications]
  exact constViolations_stepFindings _ s.step

end Reported

/-- The modifications of constant variables that are statements are reported, each once and in order,
and those inside expressions are not.  So there is one report for each modification exactly if no
expression modifies a constant variable, and in a program in which nothing is found only expressions
modify constant variables. -/
theorem Program.diagnosticsOf_constViolation (p : Program) :
    p.analyse.diagnosticsOf .constViolation =
        (p.constantsModified.filter Modification.isStatement).map Modification.violation ∧
      ((p.analyse.diagnosticsOf .constViolation).length = p.constantsModified.length ↔
        ∀ m ∈ p.constantsModified, m.site = .statement) ∧
      (p.analyse.hasErrors = false → ∀ m ∈ p.constantsModified, m.site = .expression) := by
  have hreports : p.analyse.diagnosticsOf .constViolation =
      (p.constantsModified.filter Modification.isStatement).map Modification.violation := by
    rw [Analysis.diagnosticsOf, p.diagnostics_analyse]
    exact constViolations_findings_program p
  refine ⟨hreports, ?_, fun hnone m hm => ?_⟩
  · rw [hreports, List.length_map, List.length_filter_eq_length_iff]
    simp [Modification.isStatement]
  · have hnil : p.analyse.diagnosticsOf .constViolation = [] := by
      have : p.analyse.diagnostics = [] := by simpa [Analysis.hasErrors] using hnone
      rw [Analysis.diagnosticsOf, this, List.filter_nil]
    rw [hreports, List.map_eq_nil_iff, List.filter_eq_nil_iff] at hnil
    have hsite := hnil m hm
    cases hm : m.site with
    | statement => simp [Modification.isStatement, hm] at hsite
    | expression => rfl

/-- The initialiser of `z` increments the constant `y`, and nothing is reported. -/
theorem constViolation_of_initializer_not_reported :
    (Program.ofSource "void main() { const int y = 3; int z = y++; }" interactiveFile).map
        (fun p => (p.constantsModified, p.analyse.diagnostics)) =
      .ok ([⟨.expression, "y", 1⟩], []) := by
  decide +kernel

end LangCheck
