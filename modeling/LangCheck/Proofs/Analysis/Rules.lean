import LangCheck.Proofs.Analysis.Outcome

/-!
# Which rules are checked where

Each rule is about certain constructs of the language (`Construct.reports`), and what is found at a
construct breaks a rule about it.  So it is enough to look at the table to see that a rule cannot be
broken somewhere.
-/

namespace LangCheck

/-- The constructs that rules are about. -/
inductive Construct where
  /-- The declaration of a global variable. -/
  | globalVariable
  /-- The definition of a function, its parameters and its body left out. -/
  | function
  | parameter
  /-- The declaration of a local variable. -/
  | localVariable
  | assignment
  | returning
  /-- A variable inside an expression. -/
  | symbol
  | call
  /-- The program as a whole. -/
  | program
deriving DecidableEq, Repr, Inhabited

namespace Construct

/-- Whether a rule is about a construct. -/
def reports : Construct → SemanticError → Bool
  | globalVariable, .duplicateGlobal _ | globalVariable, .stringInitializer _
  | globalVariable, .numberInitializer => true
  | function, .duplicateFunction _ | function, .mainDefinedMultipleTimes
  | function, .mainWithParameters | function, .missingReturn _ _ => true
  | parameter, .duplicateParameter _ => true
  | localVariable, .duplicateLocal _ | localVariable, .initializerMismatch _ _ _ => true
  | assignment, .undeclaredVariable _ | assignment, .constAssignment _
  | assignment, .assignmentMismatch _ _ _ => true
  | returning, .voidReturnsValue _ | returning, .missingReturnValue _ _
  | returning, .returnTypeMismatch _ _ | returning, .returnOutsideFunction => true
  | symbol, .undeclaredVariable _ => true
  | call, .mainCalled | call, .undefinedFunction _ | call, .argumentCountMismatch _ _ _
  | call, .argumentTypeMismatch _ _ _ _ => true
  | program, .missingMain => true
  | _, _ => false

/-- The constructs inside the body of a function. -/
def isInner : Construct → Bool
  | localVariable | assignment | returning | symbol | call => true
  | globalVariable | function | parameter | program => false

end Construct

open Construct

variable {s : Scope} {error : SemanticError} {d : Diagnostic}

/-! ## Nodes -/

/-- What can be wrong with an argument of a call is its type. -/
lemma eq_of_mem_argumentErrors {callee : String} {types : List Ty} {first : ℕ}
    {arguments : List Expr} (h : error ∈ s.argumentErrors callee first types arguments) :
    ∃ place expected received, error = .argumentTypeMismatch callee place expected received := by
  induction types generalizing first arguments with
  | nil => simp [Scope.argumentErrors] at h
  | cons expected types ih =>
    cases arguments with
    | nil => simp [Scope.argumentErrors] at h
    | cons argument arguments =>
      simp only [Scope.argumentErrors] at h
      split at h
      · exact ih h
      · rcases List.mem_cons.1 h with rfl | h
        · exact ⟨_, _, _, rfl⟩
        · exact ih h

/-- What can be wrong with a call: it calls the main function or one that there is not, or its arguments
do not fit in number or type. -/
lemma eq_of_mem_callErrors {callee : String} {arguments : List Expr}
    (h : error ∈ s.callErrors callee arguments) :
    error = .mainCalled ∨ error = .undefinedFunction callee ∨
      (∃ expected received, error = .argumentCountMismatch callee expected received) ∨
      ∃ place expected received, error = .argumentTypeMismatch callee place expected received := by
  unfold Scope.callErrors at h
  split at h
  · exact .inl (List.mem_singleton.1 h)
  · split at h
    · exact .inr (.inl (List.mem_singleton.1 h))
    · split at h
      · exact .inr (.inr (.inr (eq_of_mem_argumentErrors h)))
      · exact .inr (.inr (.inl ⟨_, _, List.mem_singleton.1 h⟩))

lemma reports_of_mem_callErrors {callee : String} {arguments : List Expr}
    (h : error ∈ s.callErrors callee arguments) : call.reports error := by
  rcases eq_of_mem_callErrors h with rfl | rfl | ⟨_, _, rfl⟩ | ⟨_, _, _, rfl⟩ <;> rfl

lemma reports_of_mem_nodeErrors {e : Expr} (h : error ∈ s.nodeErrors e) :
    symbol.reports error ∨ call.reports error := by
  cases e with
  | symbol name span =>
    simp only [Scope.nodeErrors] at h
    split at h
    · cases h
    · rw [List.mem_singleton.1 h]
      exact Or.inl rfl
  | call callee arguments span => exact Or.inr (reports_of_mem_callErrors h)
  | _ => cases h

lemma reports_of_mem_findings {nodes : List Expr} (h : d ∈ s.findings nodes) :
    symbol.reports d.error ∨ call.reports d.error := by
  obtain ⟨e, -, hd⟩ := List.mem_flatMap.1 h
  obtain ⟨error, herror, rfl⟩ := List.mem_map.1 hd
  exact reports_of_mem_nodeErrors herror

/-! ## Steps -/

lemma reports_of_mem_redeclarationErrors {step : Step} (h : error ∈ s.redeclarationErrors step) :
    localVariable.reports error := by
  cases step with
  | declare d =>
    simp only [Scope.redeclarationErrors] at h
    split at h
    · rw [List.mem_singleton.1 h]
      rfl
    · cases h
  | _ => cases h

lemma reports_of_mem_initializerErrors {d : VarDecl} (h : error ∈ s.initializerErrors d) :
    localVariable.reports error := by
  unfold Scope.initializerErrors at h
  split at h
  · cases h
  · dsimp only at h
    split at h
    · cases h
    · rw [List.mem_singleton.1 h]
      rfl

/-- An assignment to a variable that is declared can break the rule about constant variables and, behind
it, the one about the type of what is assigned. -/
lemma exists_assignmentErrors {a : Assignment} {v : Variable} (hv : s.findVariable? a.target = some v) :
    ∃ mismatches : List SemanticError,
      s.assignmentErrors a = (if v.isConst then [.constAssignment v.name] else []) ++ mismatches ∧
      ∀ error ∈ mismatches, ∃ received, error = .assignmentMismatch v.name v.ty received := by
  simp only [Scope.assignmentErrors, hv]
  refine ⟨_, rfl, fun error herror => ?_⟩
  split at herror
  · split at herror
    · cases herror
    · exact ⟨_, List.mem_singleton.1 herror⟩
  · cases herror

lemma reports_of_mem_assignmentErrors {a : Assignment} (h : error ∈ s.assignmentErrors a) :
    assignment.reports error := by
  rcases hv : s.findVariable? a.target with _ | v
  · rw [Scope.assignmentErrors, hv] at h
    rw [List.mem_singleton.1 h]
    rfl
  · obtain ⟨mismatches, hsplit, hmismatch⟩ := exists_assignmentErrors hv
    rw [hsplit] at h
    rcases List.mem_append.1 h with h | h
    · split at h
      · rw [List.mem_singleton.1 h]
        rfl
      · cases h
    · obtain ⟨received, rfl⟩ := hmismatch error h
      rfl

lemma reports_of_mem_returnErrors {f : Signature} {value : Option Expr}
    (h : error ∈ s.returnErrors f value) : returning.reports error := by
  unfold Scope.returnErrors at h
  dsimp only at h
  split at h <;> split at h
  · cases h
  · rw [List.mem_singleton.1 h]
    rfl
  · rw [List.mem_singleton.1 h]
    rfl
  · split at h
    · cases h
    · rw [List.mem_singleton.1 h]
      rfl

/-- What is found in a step breaks a rule about a construct inside a body. -/
lemma exists_reports_of_mem_stepFindings {after : Scope} {f : Signature} {step : Step}
    (h : d ∈ stepFindings s after f step) : ∃ c : Construct, c.isInner ∧ c.reports d.error := by
  rcases List.mem_append.1 h with h | h
  · obtain ⟨error, herror, rfl⟩ := List.mem_map.1 h
    rcases List.mem_append.1 herror with h | h
    · exact ⟨localVariable, rfl, reports_of_mem_redeclarationErrors h⟩
    · cases step with
      | declare d => exact ⟨localVariable, rfl, reports_of_mem_initializerErrors h⟩
      | assign a => exact ⟨assignment, rfl, reports_of_mem_assignmentErrors h⟩
      | returning value line => exact ⟨returning, rfl, reports_of_mem_returnErrors h⟩
      | _ => cases h
  · rcases reports_of_mem_findings h with h | h
    · exact ⟨symbol, rfl, h⟩
    · exact ⟨call, rfl, h⟩

/-! ## Items -/

lemma reports_of_mem_literalErrors {ty : Ty} {value : Option Literal}
    (h : error ∈ Checker.literalErrors ty value) : globalVariable.reports error := by
  unfold Checker.literalErrors at h
  split at h
  · cases h
  · split at h
    · rw [List.mem_singleton.1 h]
      rfl
    · split at h
      · rw [List.mem_singleton.1 h]
        rfl
      · cases h

lemma reports_redefinition (name : String) : function.reports (Checker.redefinition name) := by
  unfold Checker.redefinition
  split <;> rfl

lemma reports_of_mem_parameterFindings {past : List Parameter} {q : Parameter}
    (h : d ∈ parameterFindings past q) : parameter.reports d.error := by
  unfold parameterFindings at h
  split at h
  · rw [List.mem_singleton.1 h]
    rfl
  · cases h

lemma reports_of_mem_headFindings {f : FunctionDef} (h : d ∈ f.headFindings) :
    function.reports d.error := by
  unfold FunctionDef.headFindings at h
  split at h
  · rw [List.mem_singleton.1 h]
    rfl
  · cases h

lemma reports_of_mem_endFindings {f : FunctionDef} (h : d ∈ f.endFindings) :
    function.reports d.error := by
  unfold FunctionDef.endFindings at h
  split at h
  · cases h
  · rw [List.mem_singleton.1 h]
    rfl

/-- What is found at an item does not break a rule about the program as a whole. -/
lemma exists_reports_of_mem_itemFindings {p : Program} {before : List Item} {item : Item}
    (h : d ∈ p.itemFindings before item) : ∃ c : Construct, c ≠ program ∧ c.reports d.error := by
  cases item with
  | global decl =>
    refine ⟨globalVariable, by decide, ?_⟩
    simp only [Program.itemFindings] at h
    split at h
    · rw [List.mem_singleton.1 h]
      rfl
    · obtain ⟨error, herror, rfl⟩ := List.mem_map.1 h
      exact reports_of_mem_literalErrors herror
  | function f =>
    simp only [Program.itemFindings] at h
    split at h
    · rw [List.mem_singleton.1 h]
      exact ⟨function, by decide, reports_redefinition f.name⟩
    · rcases List.mem_append.1 h with h | h
      · rcases List.mem_append.1 h with h | h
        · rcases List.mem_append.1 h with h | h
          · exact ⟨function, by decide, reports_of_mem_headFindings h⟩
          · obtain ⟨past, q, rest, -, hd⟩ := mem_flatMapPast.1 h
            exact ⟨parameter, by decide, reports_of_mem_parameterFindings hd⟩
        · obtain ⟨past, step, rest, -, hd⟩ := mem_flatMapPast.1 h
          obtain ⟨c, hinner, hc⟩ := exists_reports_of_mem_stepFindings hd
          refine ⟨c, ?_, hc⟩
          rintro rfl
          cases hinner
      · exact ⟨function, by decide, reports_of_mem_endFindings h⟩

/-- A missing main function is not found at any item. -/
lemma error_ne_missingMain {p : Program} {before items : List Item}
    (h : d ∈ flatMapPast p.itemFindings before items) : d.error ≠ .missingMain := by
  obtain ⟨past, item, rest, -, hd⟩ := mem_flatMapPast.1 h
  obtain ⟨c, hc, hreports⟩ := exists_reports_of_mem_itemFindings hd
  intro heq
  rw [heq] at hreports
  cases c <;> first | exact absurd rfl hc | cases hreports

end LangCheck
