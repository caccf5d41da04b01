import LangCheck.Proofs.Analysis.Declarations
import LangCheck.Proofs.Analysis.Rules
import LangCheck.Proofs.Grammar.Words

/-!
# The names that an analysis tells

A finding tells at most one name (`SemanticError.name?`).  It is a word of the construct at which the finding
is made, or the name of the function around it, so every name that a diagnostic tells is a word of the
program (`Program.mem_words_of_mem_findings`).
-/

namespace LangCheck

/-- The name that a finding tells. -/
def SemanticError.name? : SemanticError → Option String
  | .duplicateGlobal name | .duplicateLocal name | .duplicateParameter name | .duplicateFunction name
  | .undeclaredVariable name | .undefinedFunction name | .initializerMismatch name _ _
  | .assignmentMismatch name _ _ | .argumentTypeMismatch name _ _ _ | .constAssignment name
  | .argumentCountMismatch name _ _ | .missingReturn name _ | .voidReturnsValue name
  | .missingReturnValue name _ => some name
  | .stringInitializer _ | .numberInitializer | .returnTypeMismatch _ _ | .missingMain
  | .mainDefinedMultipleTimes | .mainWithParameters | .mainCalled | .returnOutsideFunction => none

variable {s : Scope} {error : SemanticError} {d : Diagnostic} {name : String}

/-! ## Nodes and steps -/

/-- Where an error is the only one, the name that it tells is known. -/
lemma name_of_mem_singleton {only : SemanticError} {own : String} (h : error ∈ [only])
    (hown : only.name? = some own) (hname : error.name? = some name) : name = own := by
  rw [List.mem_singleton.1 h, hown] at hname
  exact (Option.some.inj hname).symm

/-- What is wrong with a call tells no other name than that of what is called. -/
lemma name_of_mem_callErrors {callee : String} {arguments : List Expr}
    (h : error ∈ s.callErrors callee arguments) (hname : error.name? = some name) : name = callee := by
  rcases eq_of_mem_callErrors h with rfl | rfl | ⟨_, _, rfl⟩ | ⟨_, _, _, rfl⟩
  · cases hname
  all_goals exact (Option.some.inj hname).symm

lemma word?_of_mem_nodeErrors {e : Expr} (h : error ∈ s.nodeErrors e)
    (hname : error.name? = some name) : e.word? = some name := by
  cases e with
  | symbol used span =>
    simp only [Scope.nodeErrors] at h
    split at h
    · cases h
    · rwa [List.mem_singleton.1 h] at hname
  | call callee arguments span => exact congrArg some (name_of_mem_callErrors h hname).symm
  | _ => cases h

lemma mem_words_of_mem_nodeFindings {nodes : List Expr} (h : d ∈ s.findings nodes)
    (hname : d.error.name? = some name) : name ∈ nodes.filterMap Expr.word? := by
  obtain ⟨e, he, hd⟩ := List.mem_flatMap.1 h
  obtain ⟨error, herror, rfl⟩ := List.mem_map.1 hd
  exact List.mem_filterMap.2 ⟨e, he, word?_of_mem_nodeErrors herror hname⟩

lemma name?_of_mem_redeclarationErrors {step : Step} (h : error ∈ s.redeclarationErrors step) :
    error.name? = step.name? := by
  cases step with
  | declare d =>
    simp only [Scope.redeclarationErrors] at h
    split at h
    · rw [List.mem_singleton.1 h]
      rfl
    · cases h
  | _ => cases h

lemma name?_of_mem_initializerErrors {d : VarDecl} (h : error ∈ s.initializerErrors d) :
    error.name? = some d.name := by
  unfold Scope.initializerErrors at h
  split at h
  · cases h
  · dsimp only at h
    split at h
    · cases h
    · rw [List.mem_singleton.1 h]
      rfl

/-- What is wrong with an assignment tells its target, since the variable that is found has this name. -/
lemma name?_of_mem_assignmentErrors {Γ : Context} {a : Assignment}
    (h : error ∈ Γ.scope.assignmentErrors a) : error.name? = some a.target := by
  rcases hv : Γ.scope.findVariable? a.target with _ | v
  · rw [Scope.assignmentErrors, hv] at h
    rw [List.mem_singleton.1 h]
    rfl
  · have hname : v.name = a.target := Γ.name_of_findVariable? ((Γ.findVariable?_scope).symm.trans hv)
    obtain ⟨mismatches, hsplit, hmismatch⟩ := exists_assignmentErrors hv
    rw [hsplit] at h
    rw [← hname]
    rcases List.mem_append.1 h with h | h
    · split at h
      · rw [List.mem_singleton.1 h]
        rfl
      · cases h
    · obtain ⟨received, rfl⟩ := hmismatch error h
      rfl

lemma name_of_mem_returnErrors {f : Signature} {value : Option Expr}
    (h : error ∈ s.returnErrors f value) (hname : error.name? = some name) : name = f.name := by
  unfold Scope.returnErrors at h
  dsimp only at h
  split at h <;> split at h
  · cases h
  · exact name_of_mem_singleton h rfl hname
  · exact name_of_mem_singleton h rfl hname
  · split at h
    · cases h
    · rw [List.mem_singleton.1 h] at hname
      cases hname

/-- What is found in a step tells words of the step and the name of the function. -/
lemma mem_words_of_mem_stepFindings {Γ : Context} {f : Signature} {step : Step}
    (h : d ∈ stepFindings s Γ.scope f step) (hname : d.error.name? = some name) :
    name = f.name ∨ name ∈ step.words := by
  rcases List.mem_append.1 h with h | h
  · obtain ⟨error, herror, rfl⟩ := List.mem_map.1 h
    have hown (h : error.name? = step.name?) : name ∈ step.words := by
      refine List.mem_append_left _ ?_
      rw [← h, hname]
      exact List.mem_singleton_self name
    rcases List.mem_append.1 herror with h | h
    · exact Or.inr (hown (name?_of_mem_redeclarationErrors h))
    · cases step with
      | declare d => exact Or.inr (hown (name?_of_mem_initializerErrors h))
      | assign a => exact Or.inr (hown (name?_of_mem_assignmentErrors h))
      | returning value line => exact Or.inl (name_of_mem_returnErrors h hname)
      | _ => cases h
  · exact Or.inr (List.mem_append_right _ (mem_words_of_mem_nodeFindings h hname))

/-! ## Items -/

variable {p : Program} {before : List Item}

lemma Item.name_mem_words (f : FunctionDef) : f.name ∈ (Item.function f).words := List.mem_cons_self

lemma Item.mem_words_of_mem_parameters {f : FunctionDef} {q : Parameter} (hq : q ∈ f.parameters) :
    q.name ∈ (Item.function f).words :=
  List.mem_cons_of_mem _ (List.mem_append_left _ (List.mem_map_of_mem hq))

lemma Item.mem_words_of_mem_steps {f : FunctionDef} {step : Step} {word : String} (hs : step ∈ f.steps)
    (hw : word ∈ step.words) : word ∈ (Item.function f).words :=
  List.mem_cons_of_mem _ (List.mem_append_right _ (List.mem_flatMap.2 ⟨step, hs, hw⟩))

lemma name_of_mem_globalFindings {g : GlobalDecl} (h : d ∈ p.itemFindings before (.global g))
    (hname : d.error.name? = some name) : name = g.name := by
  simp only [Program.itemFindings] at h
  split at h
  · rw [List.mem_singleton.1 h] at hname
    exact (Option.some.inj hname).symm
  · -- what is wrong with a literal tells no name
    obtain ⟨error, herror, rfl⟩ := List.mem_map.1 h
    unfold Checker.literalErrors at herror
    split at herror
    · cases herror
    · split_ifs at herror
      · rw [List.mem_singleton.1 herror] at hname
        cases hname
      · rw [List.mem_singleton.1 herror] at hname
        cases hname
      · cases herror

lemma name_of_redefinition {f : FunctionDef} (hname : (Checker.redefinition f.name).name? = some name) :
    name = f.name := by
  unfold Checker.redefinition at hname
  split at hname
  · cases hname
  · exact (Option.some.inj hname).symm

lemma name?_of_mem_headFindings {f : FunctionDef} (h : d ∈ f.headFindings) : d.error.name? = none := by
  unfold FunctionDef.headFindings at h
  split at h
  · rw [List.mem_singleton.1 h]
    rfl
  · cases h

lemma name?_of_mem_parameterFindings {past : List Parameter} {q : Parameter}
    (h : d ∈ parameterFindings past q) : d.error.name? = some q.name := by
  unfold parameterFindings at h
  split at h
  · rw [List.mem_singleton.1 h]
    rfl
  · cases h

lemma name?_of_mem_endFindings {f : FunctionDef} (h : d ∈ f.endFindings) :
    d.error.name? = some f.name := by
  unfold FunctionDef.endFindings at h
  split at h
  · cases h
  · rw [List.mem_singleton.1 h]
    rfl

lemma mem_words_of_mem_functionFindings {f : FunctionDef} (h : d ∈ p.itemFindings before (.function f))
    (hname : d.error.name? = some name) : name ∈ (Item.function f).words := by
  simp only [Program.itemFindings] at h
  split at h
  · rw [List.mem_singleton.1 h] at hname
    rw [name_of_redefinition hname]
    exact Item.name_mem_words f
  · simp only [List.mem_append] at h
    obtain ((h | h) | h) | h := h
    · rw [name?_of_mem_headFindings h] at hname
      cases hname
    · obtain ⟨past, q, hq, hd⟩ := exists_mem_of_mem_flatMapPast h
      rw [name?_of_mem_parameterFindings hd] at hname
      rw [← Option.some.inj hname]
      exact Item.mem_words_of_mem_parameters hq
    · obtain ⟨past, step, hstep, hd⟩ := exists_mem_of_mem_flatMapPast h
      rcases mem_words_of_mem_stepFindings hd hname with rfl | hw
      · exact Item.name_mem_words f
      · exact Item.mem_words_of_mem_steps hstep hw
    · rw [name?_of_mem_endFindings h] at hname
      rw [← Option.some.inj hname]
      exact Item.name_mem_words f

lemma mem_words_of_mem_itemFindings {item : Item} (h : d ∈ p.itemFindings before item)
    (hname : d.error.name? = some name) : name ∈ item.words := by
  cases item with
  | global g =>
    rw [name_of_mem_globalFindings h hname]
    exact List.mem_cons_self
  | function f => exact mem_words_of_mem_functionFindings h hname

/-- Every name that a finding tells is a word of the program. -/
theorem Program.mem_words_of_mem_findings (h : d ∈ p.findings) (hname : d.error.name? = some name) :
    name ∈ p.words := by
  rcases List.mem_append.1 h with h | h
  · obtain ⟨past, item, hitem, hd⟩ := exists_mem_of_mem_flatMapPast h
    exact List.mem_flatMap.2 ⟨item, hitem, mem_words_of_mem_itemFindings hd hname⟩
  · unfold Program.mainFindings at h
    split at h
    · cases h
    · rw [List.mem_singleton.1 h] at hname
      cases hname

end LangCheck
