import LangCheck.Proofs.Analysis.Names
import LangCheck.Proofs.Text.OneLine

/-!
# The texts of an analysis

What an analysis records and reports is put together from the words of the program, from numerals, from
strings in quotes and from fixed texts.  Every name that a diagnostic tells is a word of the program
(`Program.mem_words_of_mem_findings`), and so is every name that is recorded.  So if all words of a program
take one line each, all texts of its analysis do (`Program.oneLine_analyse`), whatever its strings hold.
-/

namespace LangCheck

open Text

/-! ## Expressions -/

lemma BinaryOp.oneLine_symbol (op : BinaryOp) : OneLine op.symbol := by
  cases op <;> decide

lemma UnaryOp.oneLine_render (op : UnaryOp) {operand : String} (h : OneLine operand) :
    OneLine (op.render operand) := by
  cases op <;> simp +decide [render, h]

lemma Literal.oneLine_render {value : Literal} (h : ∀ text, value = .number text → OneLine text) :
    OneLine value.render := by
  rcases value with text | text | _ | _
  · exact h text rfl
  · exact oneLine_quote text
  · decide
  · decide

namespace Expr

mutual

/-- The text of an expression takes one line if its words do. -/
theorem oneLine_render : ∀ e : Expr, AllOneLine (e.nodes.filterMap word?) → OneLine e.render
  | .binary op left right _, h => by
    rw [nodes, List.filterMap_cons_none rfl, List.filterMap_append, allOneLine_append] at h
    simp +decide [render, op.oneLine_symbol, oneLine_render left h.1, oneLine_render right h.2]
  | .unary op operand _, h => by
    rw [nodes, List.filterMap_cons_none rfl] at h
    rw [render]
    exact op.oneLine_render (oneLine_render operand h)
  | .literal value span, h => by
    rw [render]
    refine Literal.oneLine_render fun text hvalue => h text ?_
    subst hvalue
    simp [nodes, word?]
  | .symbol name span, h => h name (by simp [nodes, word?])
  | .call callee arguments span, h => by
    rw [nodes] at h
    obtain ⟨hcallee, hwords⟩ : OneLine callee ∧ AllOneLine ((allNodes arguments).filterMap word?) :=
      List.forall_mem_cons.1 h
    have harguments : OneLine (", ".intercalate (renderAll arguments)) :=
      oneLine_intercalate (by decide) (oneLine_renderAll arguments hwords)
    simp +decide [render, hcallee, harguments]
  | .group inner _, h => by
    rw [nodes, List.filterMap_cons_none rfl] at h
    simp +decide [render, oneLine_render inner h]

theorem oneLine_renderAll : ∀ es : List Expr, AllOneLine ((allNodes es).filterMap word?) →
    AllOneLine (renderAll es)
  | [], _ => by
    rw [renderAll]
    exact fun _ h => absurd h List.not_mem_nil
  | e :: es, h => by
    rw [allNodes, List.filterMap_append, allOneLine_append] at h
    rw [renderAll]
    exact List.forall_mem_cons.2 ⟨oneLine_render e h.1, oneLine_renderAll es h.2⟩

end

end Expr

lemma Ty.oneLine_name (ty : Ty) : OneLine ty.name := by
  cases ty <;> decide

/-! ## Diagnostics -/

/-- What a finding says takes one line if the name that it tells does. -/
lemma SemanticError.oneLine_message {error : SemanticError} (h : ∀ name ∈ error.name?, OneLine name) :
    OneLine error.message := by
  unfold message
  -- what is left of each message are fixed texts
  cases error <;> simp only [name?, Option.mem_def, Option.some.injEq, forall_eq'] at h <;>
    simp only [oneLine_append, Ty.oneLine_name, oneLine_toString, h, and_true] <;> and_intros <;>
    exact oneLine_ofList (by decide +kernel)

/-- A diagnostic takes one line if what it says does. -/
lemma Diagnostic.oneLine_render {d : Diagnostic} (h : OneLine d.error.message) : OneLine d.render := by
  unfold render
  rw [oneLine_append, oneLine_append, oneLine_append]
  exact ⟨⟨⟨by decide, oneLine_toString_line d.line⟩, by decide⟩, h⟩

/-! ## Records -/

/-- All texts of a recorded variable take one line. -/
structure Variable.OneLine (v : Variable) : Prop where
  name : Text.OneLine v.name
  value : ∀ text ∈ v.value, Text.OneLine text

/-- All texts that are recorded of a function take one line. -/
structure Signature.OneLine (s : Signature) : Prop where
  name : Text.OneLine s.name
  parameters : ∀ q ∈ s.parameters, Text.OneLine q.name
  locals : ∀ v ∈ s.locals, v.OneLine
  controls : AllOneLine s.controls

/-- All texts of an analysis take one line. -/
structure Analysis.OneLine (a : Analysis) : Prop where
  globals : ∀ v ∈ a.globals, v.OneLine
  functions : ∀ s ∈ a.functions, s.OneLine
  diagnostics : ∀ d ∈ a.diagnostics, Text.OneLine d.error.message

lemma Literal.oneLine_render_of_word? {value : Literal} (h : AllOneLine value.word?.toList) :
    Text.OneLine value.render := by
  refine oneLine_render fun text hvalue => ?_
  subst hvalue
  rcases hsign : (number text).negated? with _ | digits
  · exact h text (by simp [word?, hsign])
  · -- the word is what stands behind the minus sign
    rw [number.inj (negated?_eq_some_iff.1 hsign), oneLine_append]
    exact ⟨by decide, h digits (by simp [word?, hsign])⟩

lemma Checker.oneLine_global {g : GlobalDecl} (h : AllOneLine (Item.global g).words) :
    (global g).OneLine := by
  obtain ⟨hname, hvalue⟩ := List.forall_mem_cons.1 h
  refine ⟨hname, fun text htext => ?_⟩
  obtain ⟨value, hg, rfl⟩ := Option.map_eq_some_iff.1 htext
  refine Literal.oneLine_render_of_word? fun w hw => hvalue w ?_
  rw [hg]
  exact List.mem_filterMap.2 ⟨value, List.mem_singleton_self value, by simpa using hw⟩

lemma Walk.oneLine_declared {d : VarDecl} (h : AllOneLine (Step.declare d).words) :
    (declared d).OneLine := by
  obtain ⟨hname, hvalue⟩ := allOneLine_append.1 h
  refine ⟨hname d.name (List.mem_singleton_self _), fun text htext => ?_⟩
  obtain ⟨e, hd, rfl⟩ := Option.map_eq_some_iff.1 htext
  rw [show (Step.declare d).value? = some e from hd, nodesOf_some] at hvalue
  exact Expr.oneLine_render e hvalue

/-! ### Control structures -/

/-- A step that begins a control structure begins an `if`, a `while` or a `for`. -/
def Step.WellControlled : Step → Prop
  | .control word _ => word ∈ ["if", "while", "for"]
  | _ => True

namespace Stmt

lemma wellControlled_evaluate (e : Option Expr) :
    ∀ step ∈ e.toList.map Step.evaluate, step.WellControlled := by
  cases e <;> simp [Step.WellControlled]

mutual

theorem wellControlled_steps : ∀ s : Stmt, ∀ step ∈ s.steps, step.WellControlled
  | .declaration _ | .assignment _ | .call _ | .returning _ _ => by
    simp [steps, Step.WellControlled]
  | .conditional _ ⟨thenBody, _⟩ none _ => by
    have hthen := wellControlled_allSteps thenBody
    simp only [steps, List.forall_mem_cons]
    exact ⟨by simp [Step.WellControlled], trivial, hthen⟩
  | .conditional _ ⟨thenBody, _⟩ (some ⟨elseBody, _⟩) _ => by
    have hthen := wellControlled_allSteps thenBody
    have helse := wellControlled_allSteps elseBody
    simp only [steps, List.forall_mem_cons]
    exact ⟨by simp [Step.WellControlled], trivial, List.forall_mem_append.2 ⟨hthen, helse⟩⟩
  | .whileLoop _ ⟨body, _⟩ _ => by
    have hbody := wellControlled_allSteps body
    simp only [steps, List.forall_mem_cons]
    exact ⟨by simp [Step.WellControlled], trivial, hbody⟩
  | .forLoop init condition update ⟨body, _⟩ _ => by
    have hinit := wellControlled_steps? init
    have hupdate := wellControlled_steps? update
    have hbody := wellControlled_allSteps body
    simp only [steps, List.forall_mem_cons, List.forall_mem_append]
    exact ⟨by simp [Step.WellControlled], ⟨⟨hinit, wellControlled_evaluate condition⟩, hupdate⟩, hbody⟩

theorem wellControlled_steps? : ∀ s : Option Stmt, ∀ step ∈ steps? s, step.WellControlled
  | none => by simp [steps?]
  | some s => by
    rw [steps?]
    exact wellControlled_steps s

theorem wellControlled_allSteps : ∀ ss : List Stmt, ∀ step ∈ allSteps ss, step.WellControlled
  | [] => by simp [allSteps]
  | s :: ss => by
    rw [allSteps]
    exact List.forall_mem_append.2 ⟨wellControlled_steps s, wellControlled_allSteps ss⟩

end

end Stmt

/-- A recorded control structure is a word of the language with the number of a line. -/
lemma Step.oneLine_control? {step : Step} (h : step.WellControlled) : AllOneLine step.control?.toList := by
  have hwords : AllOneLine ["if", "while", "for"] := by
    unfold AllOneLine
    decide
  cases step with
  | control word line =>
    intro text htext
    rw [List.mem_singleton.1 htext]
    simp +decide [hwords word h]
  | _ => exact fun _ htext => absurd htext List.not_mem_nil

/-! ### Functions and programs -/

namespace FunctionDef

variable {f : FunctionDef}

lemma mem_steps_of_mem_newDeclarations {d : VarDecl} (h : d ∈ f.newDeclarations) :
    Step.declare d ∈ f.steps := by
  obtain ⟨past, e, he, hd⟩ := exists_mem_of_mem_flatMapPast h
  have hde : d = e := by
    unfold ifNew at hd
    split at hd
    · cases hd
    · exact List.mem_singleton.1 hd
  rw [← hde] at he
  obtain ⟨step, hstep, heq⟩ := List.mem_filterMap.1 he
  cases step with
  | declare c =>
    cases heq
    exact hstep
  | _ => cases heq

lemma oneLine_summary (h : AllOneLine (Item.function f).words) : f.summary.OneLine := by
  rw [f.summary_eq]
  refine ⟨h _ (Item.name_mem_words f), ?parameters, ?locals, ?controls⟩
  case parameters =>
    intro q hq
    obtain ⟨parameter, hparameter, rfl⟩ := List.mem_map.1 hq
    exact h _ (Item.mem_words_of_mem_parameters hparameter)
  case locals =>
    intro v hv
    obtain ⟨d, hd, rfl⟩ := List.mem_map.1 hv
    refine Walk.oneLine_declared fun w hw => h w ?_
    exact Item.mem_words_of_mem_steps (mem_steps_of_mem_newDeclarations hd) hw
  case controls =>
    intro text htext
    obtain ⟨step, hstep, heq⟩ := List.mem_filterMap.1 htext
    refine Step.oneLine_control? (Stmt.wellControlled_allSteps _ step hstep) text ?_
    rw [heq]
    exact List.mem_singleton_self text

end FunctionDef

/-- If all words of a program take one line each, all texts of its analysis do. -/
theorem Program.oneLine_analyse {p : Program} (h : AllOneLine p.words) : p.analyse.OneLine := by
  have hitem : ∀ item ∈ p.items, AllOneLine item.words := fun item hitem w hw =>
    h w (List.mem_flatMap.2 ⟨item, hitem, hw⟩)
  refine ⟨fun v hv => ?globals, fun s hs => ?functions, fun d hd => ?diagnostics⟩
  case globals =>
    rw [globals_analyse] at hv
    obtain ⟨item, hmem, heq⟩ := List.mem_filterMap.1 (Table.mem_of_search (Table.search_of_mem_firsts hv))
    cases item with
    | global g =>
      cases heq
      exact Checker.oneLine_global (hitem _ hmem)
    | function f => cases heq
  case functions =>
    rw [functions_analyse] at hs
    obtain ⟨f, hf, rfl⟩ := List.mem_map.1 hs
    obtain ⟨item, hmem, heq⟩ := List.mem_filterMap.1 (Table.mem_of_search (Table.search_of_mem_firsts hf))
    cases item with
    | global g => cases heq
    | function g =>
      cases heq
      exact FunctionDef.oneLine_summary (hitem _ hmem)
  case diagnostics =>
    rw [p.diagnostics_analyse] at hd
    exact SemanticError.oneLine_message fun name hname => h name (mem_words_of_mem_findings hd hname)

end LangCheck
