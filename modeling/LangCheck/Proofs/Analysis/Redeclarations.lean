import LangCheck.Proofs.Analysis.Declarations
import LangCheck.Proofs.Analysis.Sites

/-!
# Names that are declared again

A name can be declared again in four places: among the global variables, among the functions, among the
parameters of a function and among its local variables, which must not repeat a parameter either.  The
declarations with a name that is taken are listed by one function for all four (`repeats`).  The main
result (`Program.redeclarations_analyse`) says that the diagnostics of each of these kinds are one for each
such declaration, in the order of the source, where of several definitions of a function only the first is
looked into.
-/

namespace LangCheck

/-! ## The kinds of redeclarations -/

/-- What can be wrong with the declarations of names. -/
inductive Redeclaration where
  | global
  /-- A function other than the main one is defined again. -/
  | function
  /-- The main function is defined again. -/
  | main
  /-- There is no main function. -/
  | noMain
  | parameter
  | localVariable
deriving DecidableEq, Repr, Inhabited

/-- The kind of redeclaration that an error is about. -/
def SemanticError.redeclaration? : SemanticError → Option Redeclaration
  | duplicateGlobal _ => some .global
  | duplicateFunction _ => some .function
  | mainDefinedMultipleTimes => some .main
  | missingMain => some .noMain
  | duplicateParameter _ => some .parameter
  | duplicateLocal _ => some .localVariable
  | _ => none

/-- The diagnostics about one kind of redeclaration, in order. -/
def Analysis.redeclarations (a : Analysis) (kind : Redeclaration) : List Diagnostic :=
  a.diagnostics.filter fun d => d.error.redeclaration? = some kind

/-- The elements of a list whose names are taken: by others that are given, or by an element before
them. -/
def repeats {α : Type} (name : α → String) (taken : List String) (xs : List α) : List α :=
  flatMapPast (fun past x => if name x ∈ taken ++ past.map name then [x] else []) [] xs

/-! ## What is found at an item -/

/-- What is found at an item of redeclarations, given the items before it. -/
def Item.redeclarations (before : List Item) : Item → List Diagnostic
  | .global d =>
    if d.name ∈ (before.filterMap Item.global?).map (·.name) then
      [⟨d.span.line, .duplicateGlobal d.name⟩]
    else []
  | .function f =>
    if f.name ∈ functionNames before then [⟨f.span.line, Checker.redefinition f.name⟩]
    else
      ((repeats (·.name) [] f.parameters).map fun q => ⟨q.span.line, .duplicateParameter q.name⟩) ++
        (repeats (·.name) (f.parameters.map (·.name)) f.declarations).map fun d =>
          ⟨d.span.line, .duplicateLocal d.name⟩

section Found

variable {kind : Redeclaration} {p : Program} {before : List Item}

/-- Rules about the inside of bodies, other than those about declarations, are not about
redeclarations. -/
lemma Construct.dropped_of_inner {c : Construct} (hinner : c.isInner = true)
    (hlocal : c ≠ .localVariable) : c.Dropped fun error => error.redeclaration? = some kind := by
  intro error h
  cases c with
  | localVariable => exact absurd rfl hlocal
  | globalVariable | function | parameter | program => cases hinner
  | _ => cases error <;> first | rfl | cases h

/-- The initialiser of a variable declares nothing. -/
lemma redeclaration?_of_mem_initializerErrors {s : Scope} {d : VarDecl} {error : SemanticError}
    (h : error ∈ s.initializerErrors d) : error.redeclaration? = none := by
  unfold Scope.initializerErrors at h
  split at h
  · cases h
  · dsimp only at h
    split at h
    · cases h
    · rw [List.mem_singleton.1 h]
      rfl

/-- The literal that initialises a global variable declares nothing. -/
lemma redeclaration?_of_mem_literalErrors {ty : Ty} {value : Option Literal} {error : SemanticError}
    (h : error ∈ Checker.literalErrors ty value) : error.redeclaration? = none := by
  unfold Checker.literalErrors at h
  split at h
  · cases h
  · split at h
    · rw [List.mem_singleton.1 h]
      rfl
    · split at h
      · rw [List.mem_singleton.1 h]
        rfl
      · cases h

/-- What else is wrong with a step than that it declares a name again. -/
lemma filter_redeclaration_stepErrors {s : Scope} {sig : Signature} (step : Step) :
    ((Diagnostic.allOn step.line (s.stepErrors sig step)).filter
      fun d => d.error.redeclaration? = some kind) = [] := by
  cases step with
  | declare d =>
    refine List.filter_eq_nil_iff.2 fun x hx => ?_
    obtain ⟨error, herror, rfl⟩ := List.mem_map.1 hx
    simp [redeclaration?_of_mem_initializerErrors herror]
  | assign a =>
    exact (Construct.dropped_of_inner (c := .assignment) rfl (by decide)).filter_allOn
      fun _ h => reports_of_mem_assignmentErrors h
  | returning value line =>
    exact (Construct.dropped_of_inner (c := .returning) rfl (by decide)).filter_allOn
      fun _ h => reports_of_mem_returnErrors h
  | _ => rfl

lemma filter_redeclaration_findings (s : Scope) (nodes : List Expr) :
    ((s.findings nodes).filter fun d => d.error.redeclaration? = some kind) = [] := by
  refine List.filter_eq_nil_iff.2 fun d hd => ?_
  have hdropped {c : Construct} (hinner : c.isInner = true) (hlocal : c ≠ .localVariable) :
      c.Dropped fun error => error.redeclaration? = some kind :=
    Construct.dropped_of_inner hinner hlocal
  rcases reports_of_mem_findings hd with h | h
  · simpa using hdropped rfl (by decide) _ h
  · simpa using hdropped rfl (by decide) _ h

/-- In a step, the declaration of a name that is taken is all there is to find of redeclarations. -/
lemma filter_redeclaration_stepFindings {f : FunctionDef} {past : List Step} {after : Scope}
    {sig : Signature} (s : Step) :
    ((stepFindings (p.context before f past).scope after sig s).filter
        fun d => d.error.redeclaration? = some kind) =
      (s.declaration?.toList.flatMap fun d =>
        if d.name ∈ f.parameters.map (·.name) ++ (past.filterMap Step.declaration?).map (·.name) then
          [(⟨d.span.line, .duplicateLocal d.name⟩ : Diagnostic)]
        else []).filter fun d => d.error.redeclaration? = some kind := by
  rw [stepFindings, Diagnostic.allOn_append, List.filter_append, List.filter_append,
    filter_redeclaration_findings, filter_redeclaration_stepErrors, List.append_nil, List.append_nil]
  cases s with
  | declare d =>
    rw [Context.redeclarationErrors_scope, names_locals_context, List.map_filterMap,
      apply_ite (Diagnostic.allOn _), Step.declaration?, Option.toList_some, List.flatMap_singleton]
    rfl
  | _ => rfl

/-- In a body, the declarations of names that are taken are all there is to find of redeclarations. -/
lemma filter_redeclaration_bodyFindings (f : FunctionDef) :
    ((p.bodyFindings before f).filter fun d => d.error.redeclaration? = some kind) =
      ((repeats (·.name) (f.parameters.map (·.name)) f.declarations).map fun d =>
        (⟨d.span.line, .duplicateLocal d.name⟩ : Diagnostic)).filter
          fun d => d.error.redeclaration? = some kind := by
  rw [Program.bodyFindings, filter_flatMapPast, repeats, FunctionDef.declarations,
    ← List.filterMap_nil (f := Step.declaration?), flatMapPast_filterMap, map_flatMapPast,
    filter_flatMapPast]
  refine flatMapPast_congr fun past s rest _ => ?_
  rw [filter_redeclaration_stepFindings, List.map_flatMap]
  congr 3
  funext d
  split <;> rfl

/-- The parameters of a function whose names are taken are what is found at its parameters. -/
lemma flatMapPast_parameterFindings (qs : List Parameter) :
    flatMapPast parameterFindings [] qs =
      (repeats (·.name) [] qs).map fun q => ⟨q.span.line, .duplicateParameter q.name⟩ := by
  rw [repeats, map_flatMapPast]
  refine flatMapPast_congr fun past q rest _ => ?_
  rw [parameterFindings, List.nil_append, apply_ite (List.map _)]
  rfl

/-- At an item, its redeclarations are all there is to find of redeclarations. -/
lemma filter_redeclaration_itemFindings (item : Item) :
    ((p.itemFindings before item).filter fun d => d.error.redeclaration? = some kind) =
      (item.redeclarations before).filter fun d => d.error.redeclaration? = some kind := by
  cases item with
  | global d =>
    have hnames : (globalsOf before).map (·.name) = (before.filterMap Item.global?).map (·.name) := by
      rw [globalsOf_eq_map, List.map_map]
      rfl
    simp only [Program.itemFindings, Item.redeclarations, hnames]
    split
    · rfl
    · refine List.filter_eq_nil_iff.2 fun x hx => ?_
      obtain ⟨error, herror, rfl⟩ := List.mem_map.1 hx
      simp [redeclaration?_of_mem_literalErrors herror]
  | function f =>
    simp only [Program.itemFindings, Item.redeclarations]
    split
    · rfl
    · have hhead : (f.headFindings.filter fun d => d.error.redeclaration? = some kind) = [] := by
        unfold FunctionDef.headFindings
        split <;> rfl
      have hend : (f.endFindings.filter fun d => d.error.redeclaration? = some kind) = [] := by
        unfold FunctionDef.endFindings
        split <;> rfl
      rw [List.filter_append, List.filter_append, List.filter_append, hhead, hend,
        filter_redeclaration_bodyFindings, flatMapPast_parameterFindings, List.filter_append,
        List.nil_append, List.append_nil]

/-- What is found of redeclarations, in the order of the source: item by item, and at the end that there is
no main function. -/
lemma redeclarations_eq_flatMapPast (p : Program) (kind : Redeclaration) :
    p.analyse.redeclarations kind =
      flatMapPast (fun before item => (item.redeclarations before).filter
        fun d => d.error.redeclaration? = some kind) [] p.items ++
      p.mainFindings.filter fun d => d.error.redeclaration? = some kind := by
  rw [Analysis.redeclarations, p.diagnostics_analyse, Program.findings, List.filter_append,
    filter_flatMapPast]
  congr 1
  exact flatMapPast_congr fun before item rest _ => filter_redeclaration_itemFindings item

/-- Behind the items nothing is found but that there is no main function. -/
lemma filter_redeclaration_mainFindings (h : kind ≠ .noMain) :
    (p.mainFindings.filter fun d => d.error.redeclaration? = some kind) = [] := by
  unfold Program.mainFindings
  split
  · rfl
  · simpa [SemanticError.redeclaration?] using Ne.symm h

/-- Of diagnostics that are all of one kind, the choice of a kind keeps all or none. -/
lemma filter_redeclaration_map {α : Type} {report : α → Diagnostic} (own : Redeclaration)
    (h : ∀ x, (report x).error.redeclaration? = some own) (xs : List α) :
    ((xs.map report).filter fun d => d.error.redeclaration? = some kind) =
      if own = kind then xs.map report else [] := by
  by_cases heq : own = kind
  · rw [if_pos heq, List.filter_eq_self]
    intro d hd
    obtain ⟨x, -, rfl⟩ := List.mem_map.1 hd
    simp [h, heq]
  · rw [if_neg heq, List.filter_eq_nil_iff]
    intro d hd
    obtain ⟨x, -, rfl⟩ := List.mem_map.1 hd
    simp [h, heq]

lemma filter_redeclarations_global (d : GlobalDecl) :
    (((Item.global d).redeclarations before).filter fun d => d.error.redeclaration? = some kind) =
      if kind = .global then
        if d.name ∈ (before.filterMap Item.global?).map (·.name) then
          [⟨d.span.line, .duplicateGlobal d.name⟩]
        else []
      else [] := by
  rw [Item.redeclarations]
  cases kind <;> split <;> rfl

/-- What is found of redeclarations at a definition, kind by kind. -/
lemma filter_redeclarations_function (f : FunctionDef) :
    (((Item.function f).redeclarations before).filter fun d => d.error.redeclaration? = some kind) =
      if f.name ∈ functionNames before then
        if kind = (if f.name = mainName then .main else .function) then
          [⟨f.span.line, Checker.redefinition f.name⟩]
        else []
      else if kind = .parameter then
        (repeats (·.name) [] f.parameters).map fun q => ⟨q.span.line, .duplicateParameter q.name⟩
      else if kind = .localVariable then
        (repeats (·.name) (f.parameters.map (·.name)) f.declarations).map fun d =>
          ⟨d.span.line, .duplicateLocal d.name⟩
      else [] := by
  rw [Item.redeclarations]
  split
  · rw [Checker.redefinition]
    cases kind <;> split <;> rfl
  · rw [List.filter_append, filter_redeclaration_map .parameter fun _ => rfl,
      filter_redeclaration_map .localVariable fun _ => rfl]
    cases kind <;> simp

end Found

/-! ## Kind by kind -/

namespace Program

variable (p : Program)

lemma redeclarations_global :
    p.analyse.redeclarations .global =
      (repeats (·.name) [] p.globalDecls).map fun d => ⟨d.span.line, .duplicateGlobal d.name⟩ := by
  rw [redeclarations_eq_flatMapPast, filter_redeclaration_mainFindings (by decide), List.append_nil,
    repeats, globalDecls, ← List.filterMap_nil (f := Item.global?), flatMapPast_filterMap,
    map_flatMapPast]
  refine flatMapPast_congr fun before item rest _ => ?_
  cases item with
  | global d =>
    rw [filter_redeclarations_global, if_pos rfl, Item.global?, Option.toList_some,
      List.flatMap_singleton, apply_ite (List.map _)]
    rfl
  | function f =>
    rw [filter_redeclarations_function]
    split
    · split <;> rfl
    · rfl

/-- The definitions of functions whose names are taken, those of the main function and the others. -/
lemma redeclarations_function (main : Bool) :
    p.analyse.redeclarations (if main then .main else .function) =
      ((repeats (·.name) [] p.functions).filter fun f => (f.name == mainName) == main).map fun f =>
        ⟨f.span.line, Checker.redefinition f.name⟩ := by
  rw [redeclarations_eq_flatMapPast, filter_redeclaration_mainFindings (by cases main <;> decide),
    List.append_nil, repeats, functions, ← List.filterMap_nil (f := Item.function?),
    flatMapPast_filterMap, filter_flatMapPast, map_flatMapPast]
  refine flatMapPast_congr fun before item rest _ => ?_
  cases item with
  | global d =>
    rw [filter_redeclarations_global]
    cases main <;> rfl
  | function f =>
    have hnames : (before.filterMap Item.function?).map (·.name) = functionNames before := rfl
    rw [filter_redeclarations_function, Item.function?, Option.toList_some, List.flatMap_singleton,
      List.nil_append, List.nil_append, hnames]
    by_cases hname : f.name ∈ functionNames before
    · rw [if_pos hname, if_pos hname]
      by_cases hf : f.name = mainName <;> cases main <;> simp [hf]
    · rw [if_neg hname, if_neg hname]
      cases main <;> rfl

/-- What is found inside of functions is found in the first definitions of all names. -/
lemma redeclarations_of_inner {kind : Redeclaration} {inner : FunctionDef → List Diagnostic}
    (hmain : kind ≠ .noMain)
    (hglobal : ∀ before d, ((Item.redeclarations before (.global d)).filter
      fun d => d.error.redeclaration? = some kind) = [])
    (hfunction : ∀ before f, ((Item.redeclarations before (.function f)).filter
      fun d => d.error.redeclaration? = some kind) =
        if f.name ∈ functionNames before then [] else inner f) :
    p.analyse.redeclarations kind = (Table.firsts p.functions).flatMap inner := by
  rw [redeclarations_eq_flatMapPast, filter_redeclaration_mainFindings hmain, List.append_nil,
    Table.firsts, functions, ← List.filterMap_nil (f := Item.function?), flatMapPast_filterMap,
    flatMap_flatMapPast]
  refine flatMapPast_congr fun before item rest _ => ?_
  cases item with
  | global d => exact hglobal before d
  | function f =>
    have hnew : Table.ifNew (before.filterMap Item.function?) f =
        if f.name ∈ functionNames before then [] else [f] := rfl
    rw [hfunction, Item.function?, Option.toList_some, List.flatMap_singleton, List.nil_append, hnew]
    split
    · rfl
    · rw [List.flatMap_singleton]

lemma redeclarations_parameter :
    p.analyse.redeclarations .parameter =
      (Table.firsts p.functions).flatMap fun f =>
        (repeats (·.name) [] f.parameters).map fun q => ⟨q.span.line, .duplicateParameter q.name⟩ := by
  refine p.redeclarations_of_inner (by decide) (fun before d => filter_redeclarations_global d)
    fun before f => ?_
  rw [filter_redeclarations_function]
  split
  · split <;> rfl
  · rfl

lemma redeclarations_localVariable :
    p.analyse.redeclarations .localVariable =
      (Table.firsts p.functions).flatMap fun f =>
        (repeats (·.name) (f.parameters.map (·.name)) f.declarations).map fun d =>
          ⟨d.span.line, .duplicateLocal d.name⟩ := by
  refine p.redeclarations_of_inner (by decide) (fun before d => filter_redeclarations_global d)
    fun before f => ?_
  rw [filter_redeclarations_function]
  split
  · split <;> rfl
  · rfl

lemma redeclarations_noMain :
    p.analyse.redeclarations .noMain =
      if mainName ∈ p.functions.map (·.name) then [] else [⟨p.span.line, .missingMain⟩] := by
  have hitems : flatMapPast (fun before item => (Item.redeclarations before item).filter
      fun d => d.error.redeclaration? = some .noMain) [] p.items = [] := by
    refine flatMapPast_eq_nil_iff.2 fun before item rest _ => ?_
    cases item with
    | global d => exact filter_redeclarations_global d
    | function f =>
      rw [filter_redeclarations_function]
      split
      · split <;> rfl
      · rfl
  have hnames : p.functions.map (·.name) = functionNames p.items := rfl
  rw [redeclarations_eq_flatMapPast, hitems, List.nil_append, mainFindings, hnames]
  split <;> rfl

/-- Redeclarations are accounted for exactly.  There is one diagnostic for each global variable, each
function and each further main function whose name an earlier one has, and in the first definition of each
function one for each parameter that repeats a parameter and for each declaration, at any depth, that
repeats a parameter or an earlier declaration.  Each stands on the line where the redeclaration starts.
That there is no main function is reported once, if it is so. -/
theorem redeclarations_analyse :
    p.analyse.redeclarations .global =
      ((repeats (·.name) [] p.globalDecls).map fun d => ⟨d.span.line, .duplicateGlobal d.name⟩) ∧
    p.analyse.redeclarations .function =
      (((repeats (·.name) [] p.functions).filter fun f => f.name ≠ mainName).map fun f =>
        ⟨f.span.line, .duplicateFunction f.name⟩) ∧
    p.analyse.redeclarations .main =
      (((repeats (·.name) [] p.functions).filter fun f => f.name = mainName).map fun f =>
        ⟨f.span.line, .mainDefinedMultipleTimes⟩) ∧
    p.analyse.redeclarations .noMain =
      (if mainName ∈ p.functions.map (·.name) then [] else [⟨p.span.line, .missingMain⟩]) ∧
    p.analyse.redeclarations .parameter =
      ((Table.firsts p.functions).flatMap fun f =>
        (repeats (·.name) [] f.parameters).map fun q =>
          ⟨q.span.line, .duplicateParameter q.name⟩) ∧
    p.analyse.redeclarations .localVariable =
      (Table.firsts p.functions).flatMap fun f =>
        (repeats (·.name) (f.parameters.map (·.name)) f.declarations).map fun d =>
          ⟨d.span.line, .duplicateLocal d.name⟩ := by
  refine ⟨p.redeclarations_global, ?_, ?_, p.redeclarations_noMain, p.redeclarations_parameter,
    p.redeclarations_localVariable⟩
  · have hchoice : (fun f : FunctionDef => (f.name == mainName) == false) =
        fun f => decide (f.name ≠ mainName) := by
      funext f
      by_cases hf : f.name = mainName <;> simp [hf]
    rw [← hchoice]
    refine (p.redeclarations_function false).trans (List.map_congr_left fun f hf => ?_)
    have hname : f.name ≠ mainName := by simpa using (List.mem_filter.1 hf).2
    rw [Checker.redefinition, if_neg hname]
  · have hchoice : (fun f : FunctionDef => (f.name == mainName) == true) =
        fun f => decide (f.name = mainName) := by
      funext f
      by_cases hf : f.name = mainName <;> simp [hf]
    rw [← hchoice]
    refine (p.redeclarations_function true).trans (List.map_congr_left fun f hf => ?_)
    have hname : f.name = mainName := by simpa using (List.mem_filter.1 hf).2
    rw [Checker.redefinition, if_pos hname]

end Program

end LangCheck
