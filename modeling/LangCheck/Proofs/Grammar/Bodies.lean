import LangCheck.Proofs.Analysis.WellFormed
import LangCheck.Proofs.Grammar.Programs

/-!
# The bodies of canonical programs

What makes the trees of a program canonical is found again in the steps that its bodies are laid out in.
So none of the types that a canonical program names is unknown, and whatever is read from tokens is
annotated (`Program.annotated_of_ofTokens`).
-/

namespace LangCheck

/-! ## Steps -/

/-- A step can be read from tokens. -/
def Step.Canonical : Step → Prop
  | declare d => d.Canonical
  | assign a => a.Canonical
  | evaluate e => e.Canonical
  | control _ _ => True
  | returning value _ => ∀ e, value = some e → e.Canonical

lemma Step.Canonical.value {s : Step} (h : s.Canonical) {e : Expr} (he : s.value? = some e) :
    e.Canonical := by
  cases s with
  | declare d => exact h.2 e he
  | assign a => exact h.2 e he
  | evaluate x => exact Option.some.inj he ▸ h
  | control word line => cases he
  | returning value line => exact h e he

namespace Stmt

lemma InitCanonical.steps {init : Option Stmt} (h : InitCanonical init) :
    ∀ step ∈ steps? init, step.Canonical := by
  match init, h with
  | none, _ => simp [steps?]
  | some (.declaration d), h => simpa [steps?, Stmt.steps, Step.Canonical, InitCanonical] using h
  | some (.assignment a), h => simpa [steps?, Stmt.steps, Step.Canonical, InitCanonical] using h

lemma UpdateCanonical.steps {update : Option Stmt} (h : UpdateCanonical update) :
    ∀ step ∈ steps? update, step.Canonical := by
  match update, h with
  | none, _ => simp [steps?]
  | some (.assignment a), h => simpa [steps?, Stmt.steps, Step.Canonical, UpdateCanonical] using h

mutual

/-- The steps of a canonical statement are canonical. -/
theorem Canonical.steps : ∀ {s : Stmt}, s.Canonical → ∀ step ∈ s.steps, step.Canonical
  | .declaration d, h | .assignment a, h | .call c, h | .returning value span, h => by
    rw [Stmt.steps, List.forall_mem_singleton]
    exact h
  | .conditional condition ⟨thenBody, _⟩ none span, h => by
    rw [Stmt.steps, List.forall_mem_cons, List.forall_mem_cons]
    exact ⟨trivial, h.1, AllCanonical.steps h.2⟩
  | .conditional condition ⟨thenBody, _⟩ (some ⟨elseBody, _⟩) span, h => by
    rw [Stmt.steps, List.forall_mem_cons, List.forall_mem_cons, List.forall_mem_append]
    exact ⟨trivial, h.1, AllCanonical.steps h.2.1, AllCanonical.steps h.2.2⟩
  | .whileLoop condition ⟨body, _⟩ span, h => by
    rw [Stmt.steps, List.forall_mem_cons, List.forall_mem_cons]
    exact ⟨trivial, h.1, AllCanonical.steps h.2⟩
  | .forLoop init condition update ⟨body, _⟩ span, h => by
    obtain ⟨hinit, hcondition, hupdate, hbody⟩ := h
    simp only [Stmt.steps, List.forall_mem_cons, List.forall_mem_append]
    refine ⟨trivial, ⟨⟨hinit.steps, ?_⟩, hupdate.steps⟩, AllCanonical.steps hbody⟩
    simpa [Step.Canonical] using hcondition

theorem AllCanonical.steps : ∀ {ss : List Stmt}, AllCanonical ss →
    ∀ step ∈ allSteps ss, step.Canonical
  | [], _ => by simp [allSteps]
  | s :: ss, h => by
    rw [allSteps, List.forall_mem_append]
    exact ⟨h.1.steps, AllCanonical.steps h.2⟩

end

end Stmt

/-! ## Programs -/

namespace Program

variable {p : Program}

lemma Canonical.function (h : p.Canonical) {f : FunctionDef} (hf : f ∈ p.functions) :
    (Item.function f).Canonical :=
  h _ (mem_functions_iff.1 hf)

/-- The steps of the bodies of a canonical program are canonical. -/
lemma Canonical.step (h : p.Canonical) {f : FunctionDef} (hf : f ∈ p.functions) {s : Step}
    (hs : s ∈ f.steps) : s.Canonical :=
  (h.function hf).2.2.steps s hs

/-- No type that a canonical program is annotated with is the unknown one. -/
theorem Canonical.annotated (h : p.Canonical) : p.Annotated where
  globals _ hd := h _ hd
  returns _ hf := (h.function hf).1
  parameters _ hf := (h.function hf).2.1
  declarations f hf d hd := by
    obtain ⟨s, hs, hdecl⟩ := List.mem_filterMap.1 hd
    cases s with
    | declare e =>
      obtain rfl : e = d := Option.some.inj hdecl
      exact (h.step hf hs).1
    | _ => cases hdecl

/-- Whatever is read from tokens is annotated. -/
theorem annotated_of_ofTokens {ts : List Token} {file : String} (h : ofTokens ts file = .ok p) :
    p.Annotated :=
  (canonical_of_ofTokens h).annotated

end Program

end LangCheck
