import LangCheck.Proofs.Analysis.Rules

/-!
# The places that the analysis passes

The analysis goes through the body of each function that is the first of its name, and it takes the
steps of the body in order.  A site is one of these steps together with all that stands before it, from
which one can tell what is visible there.  The sites of a program (`Program.sites`) are listed without
any analysis.  The main result (`Program.filter_diagnostics_analyse`) says that what is found of rules
about the inside of bodies is found at the sites, one after the other.
-/

namespace LangCheck

/-- A step of the body of a function, with what stands before it in the program. -/
structure Site where
  /-- The items before the function. -/
  before : List Item
  /-- The function. -/
  function : FunctionDef
  /-- The steps of the body that come before. -/
  past : List Step
  /-- The step. -/
  step : Step

/-- The assignment that a step is. -/
def Step.assignment? : Step → Option Assignment
  | .assign a => some a
  | _ => none

namespace Site

/-- What is visible when the step is taken; a variable that it declares is visible already. -/
def context (s : Site) (p : Program) : Context :=
  p.context s.before s.function (s.past ++ [s.step])

/-- What is found at a site. -/
def findings (s : Site) (p : Program) : List Diagnostic :=
  stepFindings (p.context s.before s.function s.past).scope (s.context p).scope
    (.ofDefinition s.function) s.step

end Site

/-- The sites of an item, given the items before it: the steps of the body of a function whose name is
new, in order. -/
def Item.sites (before : List Item) : Item → List Site
  | .global _ => []
  | .function f =>
    if f.name ∈ functionNames before then []
    else flatMapPast (fun past step => [⟨before, f, past, step⟩]) [] f.steps

/-- The sites of a program, in the order of the walk. -/
def Program.sites (p : Program) : List Site := flatMapPast Item.sites [] p.items

variable {p : Program} {before : List Item} {f : FunctionDef}

/-- The sites of a program are the cuts of its bodies in front of a step, in functions that are the first
of their names. -/
lemma Program.mem_sites_iff {s : Site} :
    s ∈ p.sites ↔ ∃ after rest,
      p.items = s.before ++ .function s.function :: after ∧
        s.function.name ∉ functionNames s.before ∧ s.function.steps = s.past ++ s.step :: rest := by
  rw [sites, mem_flatMapPast]
  constructor
  · rintro ⟨before, item, after, hp, hs⟩
    cases item with
    | global d => cases hs
    | function f =>
      simp only [Item.sites, List.nil_append] at hs
      split at hs
      · cases hs
      · next hname =>
        obtain ⟨past, step, rest, hf, hs⟩ := mem_flatMapPast.1 hs
        rw [List.mem_singleton.1 hs]
        exact ⟨after, rest, hp, hname, hf⟩
  · rintro ⟨after, rest, hp, hname, hf⟩
    refine ⟨s.before, .function s.function, after, hp, ?_⟩
    rw [List.nil_append, Item.sites, if_neg hname]
    exact mem_flatMapPast.2 ⟨s.past, s.step, rest, hf, List.mem_singleton_self s⟩

/-- What is found at a site is found in the program. -/
lemma Program.mem_diagnostics_of_mem_findings {s : Site} {d : Diagnostic} (hs : s ∈ p.sites)
    (hd : d ∈ s.findings p) : d ∈ p.analyse.diagnostics := by
  obtain ⟨after, rest, hp, hname, hsteps⟩ := mem_sites_iff.1 hs
  rw [p.diagnostics_analyse, Program.findings]
  refine List.mem_append_left _ (mem_flatMapPast.2 ⟨s.before, .function s.function, after, hp, ?_⟩)
  rw [List.nil_append, Program.itemFindings, if_neg hname]
  refine List.mem_append_left _ (List.mem_append_right _ ?_)
  exact mem_flatMapPast.2 ⟨s.past, s.step, rest, hsteps, hd⟩

lemma bodyFindings_eq_flatMap :
    p.bodyFindings before f =
      (flatMapPast (fun past step => [(⟨before, f, past, step⟩ : Site)]) [] f.steps).flatMap
        (Site.findings · p) := by
  rw [flatMap_flatMapPast, Program.bodyFindings]
  exact flatMapPast_congr fun past step rest _ => by simp [Site.findings, Site.context]

/-! ## Rules about the inside of bodies -/

/-- A choice of rules leaves out those about a construct. -/
def Construct.Dropped (keep : SemanticError → Bool) (c : Construct) : Prop :=
  ∀ error, c.reports error = true → keep error = false

section Inner

variable {keep : SemanticError → Bool}

lemma Construct.Dropped.filter_eq_nil {c : Construct} {ds : List Diagnostic} (hc : c.Dropped keep)
    (h : ∀ d ∈ ds, c.reports d.error = true) : (ds.filter fun d => keep d.error) = [] :=
  List.filter_eq_nil_iff.2 fun d hd => by simp [hc d.error (h d hd)]

lemma Construct.Dropped.filter_allOn {c : Construct} {line : UInt32} {errors : List SemanticError}
    (hc : c.Dropped keep) (h : ∀ error ∈ errors, c.reports error = true) :
    ((Diagnostic.allOn line errors).filter fun d => keep d.error) = [] := by
  refine hc.filter_eq_nil fun d hd => ?_
  obtain ⟨error, herror, rfl⟩ := List.mem_map.1 hd
  exact h error herror

/-- Rules that are neither about local variables nor about returns are broken in a step by its
assignment, and then by the nodes of its expression. -/
lemma filter_stepFindings {before after : Scope} (hlocal : Construct.localVariable.Dropped keep)
    (hreturning : Construct.returning.Dropped keep) (f : Signature) (s : Step) :
    ((stepFindings before after f s).filter fun d => keep d.error) =
      (s.assignment?.toList.flatMap fun a =>
        (Diagnostic.allOn a.span.line (after.assignmentErrors a)).filter fun d => keep d.error) ++
      (after.findings (nodesOf s.value?)).filter fun d => keep d.error := by
  have hredeclared : ((Diagnostic.allOn s.line (before.redeclarationErrors s)).filter
      fun d => keep d.error) = [] :=
    hlocal.filter_allOn fun _ h => reports_of_mem_redeclarationErrors h
  have hown : ((Diagnostic.allOn s.line (after.stepErrors f s)).filter fun d => keep d.error) =
      s.assignment?.toList.flatMap fun a =>
        (Diagnostic.allOn a.span.line (after.assignmentErrors a)).filter fun d => keep d.error := by
    cases s with
    | declare d => exact hlocal.filter_allOn fun _ h => reports_of_mem_initializerErrors h
    | assign a => exact (List.append_nil _).symm
    | returning value line => exact hreturning.filter_allOn fun _ h => reports_of_mem_returnErrors h
    | _ => rfl
  rw [stepFindings, Diagnostic.allOn_append, List.filter_append, List.filter_append, hredeclared,
    hown, List.nil_append]

/-- At an item, rules about the inside of bodies are broken at its sites only. -/
lemma filter_itemFindings (hkeep : ∀ c : Construct, c.isInner = false → c.Dropped keep)
    (item : Item) :
    ((p.itemFindings before item).filter fun d => keep d.error) =
      (item.sites before).flatMap fun s => (s.findings p).filter fun d => keep d.error := by
  cases item with
  | global d =>
    have hglobal : Construct.globalVariable.Dropped keep := hkeep _ rfl
    simp only [Program.itemFindings, Item.sites, List.flatMap_nil]
    split
    · exact hglobal.filter_eq_nil (by simp [Construct.reports])
    · exact hglobal.filter_allOn fun error herror => reports_of_mem_literalErrors herror
  | function f =>
    have hfunction : Construct.function.Dropped keep := hkeep _ rfl
    simp only [Program.itemFindings, Item.sites]
    by_cases hname : f.name ∈ functionNames before
    · rw [if_pos hname, if_pos hname]
      exact hfunction.filter_eq_nil (by simpa using reports_redefinition f.name)
    · -- of the head, the parameters, the body and the end only the body has sites
      have hparameters : ((flatMapPast parameterFindings [] f.parameters).filter
          fun d => keep d.error) = [] := by
        refine (hkeep .parameter rfl).filter_eq_nil fun d hd => ?_
        obtain ⟨past, q, rest, -, hd⟩ := mem_flatMapPast.1 hd
        exact reports_of_mem_parameterFindings hd
      rw [if_neg hname, if_neg hname, List.filter_append, List.filter_append, List.filter_append,
        hfunction.filter_eq_nil fun _ h => reports_of_mem_headFindings h, hparameters,
        hfunction.filter_eq_nil fun _ h => reports_of_mem_endFindings h,
        bodyFindings_eq_flatMap, List.filter_flatMap]
      simp

/-- What is found in a program of rules about the inside of bodies is what is found of them at its
sites, in order. -/
theorem Program.filter_diagnostics_analyse (p : Program)
    (hkeep : ∀ c : Construct, c.isInner = false → c.Dropped keep) :
    (p.analyse.diagnostics.filter fun d => keep d.error) =
      p.sites.flatMap fun s => (s.findings p).filter fun d => keep d.error := by
  have hmain : (p.mainFindings.filter fun d => keep d.error) = [] := by
    refine (hkeep .program rfl).filter_eq_nil fun d hd => ?_
    unfold Program.mainFindings at hd
    split at hd
    · cases hd
    · rw [List.mem_singleton.1 hd]
      rfl
  rw [p.diagnostics_analyse, Program.findings, List.filter_append, hmain, List.append_nil,
    filter_flatMapPast, Program.sites, flatMap_flatMapPast]
  exact flatMapPast_congr fun before item rest _ => filter_itemFindings hkeep item

end Inner

end LangCheck
