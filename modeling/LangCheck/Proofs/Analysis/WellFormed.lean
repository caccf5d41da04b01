import LangCheck.Proofs.Analysis.Outcome
import LangCheck.Proofs.Analysis.Typing

/-!
# Well-formed programs

What it means for a program to follow the rules of the language, said of its source alone: names are
declared once, what is used is visible where it is used, values fit the places that they are put into,
and there is a main function.  No table, no walk and no finding occurs in it (`Program.WellFormed`).
The main result (`Program.hasErrors_eq_false_iff`) says that the analysis finds nothing exactly in the
well-formed programs.
-/

namespace LangCheck

/-! ## The rules -/

/-- A literal may initialise a global variable of the given type: a string only one of type `string`,
and a number never one of type `string`. -/
def GlobalDecl.Initialised (d : GlobalDecl) : Prop :=
  (∀ text, d.value = some (.string text) → d.ty = .string) ∧
    ∀ text, d.value = some (.number text) → d.ty ≠ .string

/-- A step of a body is in order, given what is visible when it is taken and the type of the
function's result. -/
def Step.Fits (Γ : Context) (returns : Ty) : Step → Prop
  | .declare d => ∀ e, d.value = some e → ∃ τ, HasType Γ e τ ∧ τ.Widens d.ty
  | .assign a => ∃ v, Γ.findVariable? a.target = some v ∧ v.isConst = false ∧
      ∀ e, a.value = some e → ∃ τ, HasType Γ e τ ∧ (a.op.takesValue = true → τ.Widens v.ty)
  | .evaluate e => ∃ τ, HasType Γ e τ
  | .control _ _ => True
  | .returning none _ => returns = .void
  | .returning (some e) _ => returns ≠ .void ∧ ∃ τ, HasType Γ e τ ∧ τ.Widens returns

namespace FunctionDef

/-- A function of a program follows the rules, given the items before it. -/
structure WellFormed (p : Program) (before : List Item) (f : FunctionDef) : Prop where
  /-- The names of parameters and local variables are pairwise distinct. -/
  names : (f.parameters.map (·.name) ++ f.declarations.map (·.name)).Nodup
  /-- A function with a result ends with a `return`. -/
  ending : f.returns ≠ .void →
    ∃ value span, f.body.body.getLast? = some (.returning value span)
  /-- Each step is in order where it is taken: with the globals before the function, all functions,
  the parameters, and the declarations up to the step itself. -/
  steps : ∀ past step rest, f.steps = past ++ step :: rest →
    step.Fits (p.context before f (past ++ [step])) f.returns

end FunctionDef

namespace Program

/-- A program follows the rules. -/
structure WellFormed (p : Program) : Prop where
  /-- The names of global variables are pairwise distinct. -/
  globalNames : ((globalsOf p.items).map (·.name)).Nodup
  /-- Literals initialise variables that they fit. -/
  literals : ∀ d, .global d ∈ p.items → d.Initialised
  /-- The names of functions are pairwise distinct. -/
  functionNames : (functionNames p.items).Nodup
  /-- There is a main function, and it has no parameters. -/
  main : ∃ f ∈ p.functions, f.name = mainName ∧ f.parameters = []
  /-- Each function follows the rules where it stands. -/
  bodies : ∀ before f after, p.items = before ++ .function f :: after → f.WellFormed p before

/-- No type that a program is annotated with is the unknown one. -/
structure Annotated (p : Program) : Prop where
  globals : ∀ d, .global d ∈ p.items → d.ty ≠ .unknown
  returns : ∀ f ∈ p.functions, f.returns ≠ .unknown
  parameters : ∀ f ∈ p.functions, ∀ q ∈ f.parameters, q.ty ≠ .unknown
  declarations : ∀ f ∈ p.functions, ∀ d ∈ f.declarations, d.ty ≠ .unknown

end Program

/-! ## Steps -/

section Steps

variable {Γ Δ : Context} {f : FunctionDef} {e : Expr} {target : Ty}

/-- An expression has a type that fits exactly when nothing is found in it and the type that the
analysis gives it is accepted. -/
lemma exists_hasType_widens_iff (hΓ : Γ.Known) :
    (∃ τ, HasType Γ e τ ∧ τ.Widens target) ↔
      target.accepts (Γ.scope.typeOf e) = true ∧ Γ.scope.findings e.nodes = [] := by
  constructor
  · rintro ⟨τ, he, hτ⟩
    refine ⟨?_, he.findings_eq_nil⟩
    rw [he.typeOf_eq]
    exact Ty.accepts_iff.2 (Or.inr hτ)
  · rintro ⟨haccepts, hfindings⟩
    obtain ⟨he, hne⟩ := hasType_of_findings_eq_nil hΓ e hfindings
    exact ⟨_, he, (Ty.accepts_iff.1 haccepts).resolve_left hne⟩

lemma declare_fits_iff (hΓ : Γ.Known) (d : VarDecl) :
    Step.Fits Γ f.returns (.declare d) ↔
      Γ.scope.initializerErrors d = [] ∧ Γ.scope.findings (nodesOf d.value) = [] := by
  rcases hv : d.value with _ | e
  · simp [Step.Fits, hv, Scope.initializerErrors]
  · simp [Step.Fits, hv, Scope.initializerErrors, exists_hasType_widens_iff hΓ]

lemma assign_fits_iff (hΓ : Γ.Known) (a : Assignment) :
    Step.Fits Γ f.returns (.assign a) ↔
      Γ.scope.assignmentErrors a = [] ∧ Γ.scope.findings (nodesOf a.value) = [] := by
  rcases ht : Γ.findVariable? a.target with _ | v
  · simp [Step.Fits, ht, Scope.assignmentErrors]
  rcases hv : a.value with _ | e
  · simp [Step.Fits, ht, hv, Scope.assignmentErrors]
  -- only an operator that takes the value compares its type with that of the variable
  rcases hop : a.op.takesValue with _ | _
  · simp [Step.Fits, ht, hv, hop, Scope.assignmentErrors, findings_eq_nil_iff hΓ]
  · simp [Step.Fits, ht, hv, hop, Scope.assignmentErrors, exists_hasType_widens_iff hΓ, and_assoc]

lemma returning_fits_iff (hΓ : Γ.Known) (value : Option Expr) (line : UInt32) :
    Step.Fits Γ f.returns (.returning value line) ↔
      Γ.scope.returnErrors (.ofDefinition f) value = [] ∧
        Γ.scope.findings (nodesOf value) = [] := by
  have hreturns : (Signature.ofDefinition f).returns = f.returns := rfl
  cases value with
  | none => simp [Step.Fits, Scope.returnErrors, hreturns]
  | some e =>
    by_cases hvoid : f.returns = .void <;>
      simp [Step.Fits, Scope.returnErrors, hreturns, hvoid, exists_hasType_widens_iff hΓ]

/-- Nothing is found in a step exactly when it declares no name that is taken and is in order. -/
lemma stepFindings_eq_nil_iff (hΓ : Γ.Known) (step : Step) :
    stepFindings Δ.scope Γ.scope (.ofDefinition f) step = [] ↔
      (∀ d, step = .declare d → d.name ∉ Δ.locals.map (·.name)) ∧ step.Fits Γ f.returns := by
  rw [stepFindings, List.append_eq_nil_iff, Diagnostic.allOn_eq_nil_iff, List.append_eq_nil_iff]
  cases step with
  | declare d =>
    rw [declare_fits_iff hΓ, Context.redeclarationErrors_scope, and_assoc]
    simp [Scope.stepErrors, Step.value?]
  | assign a =>
    rw [assign_fits_iff hΓ]
    simp [Scope.redeclarationErrors, Scope.stepErrors, Step.value?]
  | evaluate e =>
    simp [Scope.redeclarationErrors, Scope.stepErrors, Step.value?, Step.Fits,
      findings_eq_nil_iff hΓ]
  | control word line =>
    simp [Scope.redeclarationErrors, Scope.stepErrors, Step.value?, Step.Fits]
  | returning value line =>
    rw [returning_fits_iff hΓ]
    simp [Scope.redeclarationErrors, Scope.stepErrors, Step.value?]

end Steps

/-! ## Functions -/

section Functions

variable {p : Program} {before after : List Item} {f : FunctionDef} {past : List Step}

lemma Program.mem_functions_iff : f ∈ p.functions ↔ .function f ∈ p.items := by
  constructor
  · intro hf
    obtain ⟨item, hitem, hfunction⟩ := List.mem_filterMap.1 hf
    cases item with
    | global d => cases hfunction
    | function g => rwa [← Option.some.inj hfunction]
  · intro hf
    exact List.mem_filterMap.2 ⟨.function f, hf, rfl⟩

lemma mem_locals_context {v : Variable} (h : v ∈ (p.context before f past).locals) :
    (∃ q ∈ f.parameters, q.ty = v.ty) ∨ ∃ d, .declare d ∈ past ∧ d.ty = v.ty := by
  rcases List.mem_append.1 h with h | h
  · obtain ⟨q, hq, rfl⟩ := List.mem_map.1 h
    exact Or.inl ⟨q, hq, rfl⟩
  · obtain ⟨step, hstep, hv⟩ := List.mem_filterMap.1 h
    cases step with
    | declare d => exact Or.inr ⟨d, hstep, by rw [← Option.some.inj hv]; rfl⟩
    | _ => cases hv

/-- In an annotated program nothing that is visible has an unknown type. -/
lemma Program.Annotated.known (h : p.Annotated) (hp : p.items = before ++ .function f :: after)
    (hpast : ∀ step ∈ past, step ∈ f.steps) : (p.context before f past).Known := by
  have hf : f ∈ p.functions := Program.mem_functions_iff.2 (by simp [hp])
  refine ⟨fun v hv => ?_, h.returns, fun v hv => ?_⟩
  · obtain ⟨item, hitem, hd⟩ := List.mem_filterMap.1 hv
    cases item with
    | global d =>
      rw [← Option.some.inj hd]
      exact h.globals d (by simp [hp, hitem])
    | function g => cases hd
  · rcases mem_locals_context hv with ⟨q, hq, hty⟩ | ⟨d, hd, hty⟩
    · rw [← hty]
      exact h.parameters f hf q hq
    · rw [← hty]
      exact h.declarations f hf d (List.mem_filterMap.2 ⟨.declare d, hpast _ hd, rfl⟩)

lemma flatMapPast_parameterFindings_eq_nil_iff {qs : List Parameter} :
    flatMapPast parameterFindings [] qs = [] ↔ (qs.map (·.name)).Nodup := by
  rw [nodup_map_iff, flatMapPast_eq_nil_iff]
  simp [parameterFindings]

/-- The names of a function are pairwise distinct exactly when those of its parameters are and each
declaration has a name that no local variable in front of it has. -/
lemma nodup_ownNames_iff (p : Program) (before : List Item) (f : FunctionDef) :
    (f.parameters.map (·.name) ++ f.declarations.map (·.name)).Nodup ↔
      (f.parameters.map (·.name)).Nodup ∧
        ∀ (past : List Step) (step : Step) (rest : List Step) (d : VarDecl),
          f.steps = past ++ step :: rest → step = .declare d →
          d.name ∉ (p.context before f past).locals.map (·.name) := by
  have hdeclared : f.declarations.map (·.name) =
      f.steps.filterMap fun s => s.declaration?.map (·.name) := by
    rw [FunctionDef.declarations, List.map_filterMap]
  rw [hdeclared, nodup_append_filterMap_iff]
  refine and_congr_right fun _ => ⟨fun hall past step rest d hsteps hd => ?_,
    fun hall past step rest name hsteps hd => ?_⟩
  · rw [names_locals_context]
    exact hall past step rest d.name hsteps (by rw [hd]; rfl)
  · have hlocals : (p.context before f past).locals.map (·.name) = _ := names_locals_context
    rw [← hlocals]
    cases step with
    | declare d =>
      rw [← Option.some.inj hd]
      exact hall past _ rest d hsteps rfl
    | _ => cases hd

/-- Nothing is found in the body of a function exactly when its declarations have names of their own and
its steps are in order. -/
lemma bodyFindings_eq_nil_iff (h : p.Annotated) (hp : p.items = before ++ .function f :: after) :
    p.bodyFindings before f = [] ↔
      (∀ (past : List Step) (step : Step) (rest : List Step) (d : VarDecl),
        f.steps = past ++ step :: rest → step = .declare d →
        d.name ∉ (p.context before f past).locals.map (·.name)) ∧
      ∀ (past : List Step) (step : Step) (rest : List Step), f.steps = past ++ step :: rest →
        step.Fits (p.context before f (past ++ [step])) f.returns := by
  have hknown : ∀ past step rest, f.steps = past ++ step :: rest →
      (p.context before f (past ++ [step])).Known := by
    intro past step rest hsteps
    refine h.known hp fun s hs => ?_
    rw [hsteps, ← List.singleton_append, ← List.append_assoc]
    exact List.mem_append_left rest hs
  rw [Program.bodyFindings, flatMapPast_eq_nil_iff]
  constructor
  · intro hnil
    refine ⟨fun past step rest d hsteps hd => ?_, fun past step rest hsteps => ?_⟩
    · exact ((stepFindings_eq_nil_iff (hknown past step rest hsteps) step).1
        (hnil past step rest hsteps)).1 d hd
    · exact ((stepFindings_eq_nil_iff (hknown past step rest hsteps) step).1
        (hnil past step rest hsteps)).2
  · rintro ⟨hnames, hfits⟩ past step rest hsteps
    exact (stepFindings_eq_nil_iff (hknown past step rest hsteps) step).2
      ⟨fun d hd => hnames past step rest d hsteps hd, hfits past step rest hsteps⟩

lemma endFindings_eq_nil_iff :
    f.endFindings = [] ↔ (f.returns ≠ .void →
      ∃ value span, f.body.body.getLast? = some (.returning value span)) := by
  have hlast : f.body.body.getLast?.any Stmt.isReturn = true ↔
      ∃ value span, f.body.body.getLast? = some (.returning value span) := by
    rcases f.body.body.getLast? with _ | s
    · simp
    · cases s <;> simp [Stmt.isReturn]
  by_cases hvoid : f.returns = .void <;> simp [FunctionDef.endFindings, hvoid, ← hlast]

end Functions

/-! ## Programs -/

section Programs

variable {p : Program} {before after : List Item} {f : FunctionDef}

lemma literalErrors_eq_nil_iff {d : GlobalDecl} :
    Checker.literalErrors d.ty d.value = [] ↔ d.Initialised := by
  rcases hv : d.value with _ | value
  · simp [Checker.literalErrors, GlobalDecl.Initialised, hv]
  · cases value <;>
      simp [Checker.literalErrors, GlobalDecl.Initialised, hv, Literal.isString, Literal.isNumber]

/-- Nothing is found at a function exactly when its name is new, it takes no parameters if it is the
main one, and it follows the rules. -/
lemma itemFindings_function_eq_nil_iff (h : p.Annotated)
    (hp : p.items = before ++ .function f :: after) :
    p.itemFindings before (.function f) = [] ↔
      f.name ∉ functionNames before ∧ (f.name = mainName → f.parameters = []) ∧
        f.WellFormed p before := by
  rw [Program.itemFindings]
  by_cases hname : f.name ∈ functionNames before
  · simp [hname]
  have hhead : f.headFindings = [] ↔ (f.name = mainName → f.parameters = []) := by
    simp [FunctionDef.headFindings]
  have hnames := nodup_ownNames_iff p before f
  rw [if_neg hname, List.append_eq_nil_iff, List.append_eq_nil_iff, List.append_eq_nil_iff, hhead,
    flatMapPast_parameterFindings_eq_nil_iff, bodyFindings_eq_nil_iff h hp, endFindings_eq_nil_iff]
  constructor
  · rintro ⟨⟨⟨hmain, hparameters⟩, hdeclarations, hsteps⟩, hending⟩
    exact ⟨hname, hmain, hnames.2 ⟨hparameters, hdeclarations⟩, hending, hsteps⟩
  · rintro ⟨-, hmain, hwf⟩
    obtain ⟨hparameters, hdeclarations⟩ := hnames.1 hwf.names
    exact ⟨⟨⟨hmain, hparameters⟩, hdeclarations, hwf.steps⟩, hwf.ending⟩

lemma itemFindings_global_eq_nil_iff {d : GlobalDecl} :
    p.itemFindings before (.global d) = [] ↔
      d.name ∉ (globalsOf before).map (·.name) ∧ d.Initialised := by
  rw [Program.itemFindings]
  by_cases hname : d.name ∈ (globalsOf before).map (·.name)
  · rw [if_pos hname]
    simp [hname]
  · rw [if_neg hname, Diagnostic.allOn_eq_nil_iff, literalErrors_eq_nil_iff]
    simp [hname]

lemma nodup_globalNames_iff :
    ((globalsOf p.items).map (·.name)).Nodup ↔
      ∀ (before : List Item) (d : GlobalDecl) (after : List Item),
        p.items = before ++ Item.global d :: after → d.name ∉ (globalsOf before).map (·.name) := by
  simp only [globalsOf, List.map_filterMap]
  rw [nodup_filterMap_iff]
  constructor
  · intro hall before d after hp
    exact hall before (.global d) after d.name hp rfl
  · intro hall before item after name hp hname
    cases item with
    | global d =>
      rw [← Option.some.inj hname]
      exact hall before d after hp
    | function f => cases hname

lemma nodup_functionNames_iff :
    (functionNames p.items).Nodup ↔
      ∀ (before : List Item) (f : FunctionDef) (after : List Item),
        p.items = before ++ Item.function f :: after → f.name ∉ functionNames before := by
  simp only [functionNames, List.map_filterMap]
  rw [nodup_filterMap_iff]
  constructor
  · intro hall before f after hp
    exact hall before (.function f) after f.name hp rfl
  · intro hall before item after name hp hname
    cases item with
    | global d => cases hname
    | function f =>
      rw [← Option.some.inj hname]
      exact hall before f after hp

/-- When the names of functions are pairwise distinct, there is a main function without parameters
exactly when there is a main function and no function of its name has parameters. -/
lemma exists_main_iff (hnames : (functionNames p.items).Nodup) :
    (∃ f ∈ p.functions, f.name = mainName ∧ f.parameters = []) ↔
      mainName ∈ functionNames p.items ∧
        ∀ f ∈ p.functions, f.name = mainName → f.parameters = [] := by
  constructor
  · rintro ⟨f, hf, hname, hparameters⟩
    refine ⟨List.mem_map.2 ⟨f, hf, hname⟩, fun g hg hgname => ?_⟩
    rw [List.inj_on_of_nodup_map hnames hg hf (hgname.trans hname.symm)]
    exact hparameters
  · rintro ⟨hmem, hall⟩
    obtain ⟨f, hf, hname⟩ := List.mem_map.1 hmem
    exact ⟨f, hf, hname, hall f hf hname⟩

end Programs

/-- The analysis finds nothing in a program exactly when the program is well-formed. -/
theorem Program.hasErrors_eq_false_iff (p : Program) (h : p.Annotated) :
    p.analyse.hasErrors = false ↔ p.WellFormed := by
  have hnil : p.analyse.hasErrors = false ↔ p.findings = [] := by
    rw [Analysis.hasErrors, p.diagnostics_analyse]
    cases p.findings <;> simp
  have hmain : p.mainFindings = [] ↔ mainName ∈ functionNames p.items := by
    simp [Program.mainFindings]
  rw [hnil, Program.findings, List.append_eq_nil_iff, flatMapPast_eq_nil_iff, hmain]
  constructor
  · rintro ⟨hitems, hmem⟩
    have hfunction : ∀ before f after, p.items = before ++ .function f :: after →
        f.name ∉ functionNames before ∧ (f.name = mainName → f.parameters = []) ∧
          f.WellFormed p before := fun before f after hp =>
      (itemFindings_function_eq_nil_iff h hp).1 (hitems before _ after hp)
    have hglobal : ∀ before d after, p.items = before ++ .global d :: after →
        d.name ∉ (globalsOf before).map (·.name) ∧ d.Initialised := fun before d after hp =>
      itemFindings_global_eq_nil_iff.1 (hitems before _ after hp)
    have hnames := nodup_functionNames_iff.2 fun before f after hp => (hfunction before f after hp).1
    refine ⟨nodup_globalNames_iff.2 fun before d after hp => (hglobal before d after hp).1,
      fun d hd => ?_, hnames, (exists_main_iff hnames).2 ⟨hmem, fun f hf => ?_⟩,
      fun before f after hp => (hfunction before f after hp).2.2⟩
    · obtain ⟨before, after, hp⟩ := List.append_of_mem hd
      exact (hglobal before d after hp).2
    · obtain ⟨before, after, hp⟩ := List.append_of_mem (Program.mem_functions_iff.1 hf)
      exact (hfunction before f after hp).2.1
  · intro hwf
    obtain ⟨hmem, hparameters⟩ := (exists_main_iff hwf.functionNames).1 hwf.main
    refine ⟨fun before item after hp => ?_, hmem⟩
    have hmem : item ∈ p.items := by simp [hp]
    rw [List.nil_append]
    cases item with
    | global d =>
      exact itemFindings_global_eq_nil_iff.2
        ⟨nodup_globalNames_iff.1 hwf.globalNames before d after hp, hwf.literals d hmem⟩
    | function f =>
      exact (itemFindings_function_eq_nil_iff h hp).2
        ⟨nodup_functionNames_iff.1 hwf.functionNames before f after hp,
          hparameters f (Program.mem_functions_iff.2 hmem), hwf.bodies before f after hp⟩

/-- A program whose main function declares a local variable `limit` from the result of a call, while a
constant global one of the same name is declared before, and counts the local one down. -/
def countdown : Program where
  items := [
    .global ⟨"limit", .int, true, some (.number "3"), default⟩,
    .function ⟨"main", .void, [],
      ⟨[.declaration ⟨"limit", .double, false,
          some (.call "twice" [.symbol "limit" default] default), default⟩,
        .whileLoop (.symbol "limit" default)
          ⟨[.assignment ⟨"limit", .decrement, none, default⟩], default⟩ default], default⟩, default⟩,
    .function ⟨"twice", .int, [⟨"x", .double, default⟩],
      ⟨[.returning (some (.literal (.bool true) default)) default], default⟩, default⟩]
  span := default

/-- It is well-formed, for no errors are found in it: the call is of a function that is defined behind it, and the
assignment is to the local variable. -/
theorem countdown_wellFormed :
    countdown.Annotated ∧ countdown.analyse.hasErrors = false ∧ countdown.WellFormed := by
  have h : countdown.Annotated := by
    constructor
    · intro d hd
      have hd : d = ⟨"limit", .int, true, some (.number "3"), default⟩ := by
        simpa [countdown] using hd
      rw [hd]
      decide
    all_goals decide
  have herrors : countdown.analyse.hasErrors = false := by decide
  exact ⟨h, herrors, (countdown.hasErrors_eq_false_iff h).1 herrors⟩

end LangCheck
