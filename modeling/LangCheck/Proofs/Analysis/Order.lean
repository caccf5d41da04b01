import LangCheck.Proofs.Analysis.Rules
import LangCheck.Proofs.Grammar.Words
import LangCheck.Proofs.Token.LineLocal

/-!
# The order of what is found

What is found in a program that was read from tokens is found along these tokens: its lines are lines
on which tokens begin or end, and they are passed in the order of the tokens (`Along`).  This follows
the rules of spelling, with the span of each node in hand: what is wrong with a node itself is reported
where its first token begins, and before what is wrong with its parts.  So the lines of the findings ascend
(`Program.diagnostics_inOrder`), as long as those of the tokens do (`Program.diagnostics_descend`).
-/

namespace LangCheck

open Grammar Placement Diagnostic

/-- Diagnostics are reported along some lines: each on a line that is not before that of the one in
front of it. -/
inductive Along : List UInt32 → List Diagnostic → Prop
  | nil {lines : List UInt32} : Along lines []
  | pass {line : UInt32} {lines : List UInt32} {ds : List Diagnostic} :
      Along lines ds → Along (line :: lines) ds
  | report {line : UInt32} {lines : List UInt32} {ds : List Diagnostic} {error : SemanticError} :
      Along (line :: lines) ds → Along (line :: lines) (⟨line, error⟩ :: ds)

namespace Along

variable {line : UInt32} {lines more : List UInt32} {ds es : List Diagnostic}

lemma append (h : Along lines ds) (h' : Along more es) : Along (lines ++ more) (ds ++ es) := by
  induction h with
  | @nil lines =>
    induction lines with
    | nil => exact h'
    | cons line lines ih => exact ih.pass
  | pass _ ih => exact ih.pass
  | report _ ih => exact ih.report

lemma weaken (h : Along lines ds) : Along (lines ++ more) ds := by
  have := h.append (@nil more)
  rwa [List.append_nil] at this

lemma weaken_left (h : Along more ds) : Along (lines ++ more) ds := (@nil lines).append h

/-- Findings on the first line may stand in front. -/
lemma allOn (errors : List SemanticError) (h : Along (line :: lines) ds) :
    Along (line :: lines) (Diagnostic.allOn line errors ++ ds) := by
  induction errors with
  | nil => exact h
  | cons error errors ih => exact ih.report

/-- The lines of all diagnostics are among those that they are reported along. -/
lemma line_mem (h : Along lines ds) : ∀ d ∈ ds, d.line ∈ lines := by
  induction h with
  | nil => simp
  | pass _ ih => exact fun d hd => List.mem_cons_of_mem _ (ih d hd)
  | report _ ih =>
    intro d hd
    rcases List.mem_cons.1 hd with rfl | hd
    · exact List.mem_cons_self
    · exact ih d hd

/-- Along ascending lines the lines of the diagnostics ascend, too. -/
lemma pairwise (h : Along lines ds) (hlines : lines.Pairwise (· ≤ ·)) :
    ds.Pairwise fun d e => d.line ≤ e.line := by
  induction h with
  | nil => exact .nil
  | pass _ ih => exact ih hlines.of_cons
  | @report line lines ds error h ih =>
    refine List.pairwise_cons.2 ⟨fun d hd => ?_, ih hlines⟩
    rcases List.mem_cons.1 (h.line_mem d hd) with heq | hmem
    · rw [heq]
      exact UInt32.le_refl line
    · exact List.rel_of_pairwise_cons hlines hmem

end Along

/-! ## Expressions -/

variable {ts us : List Token} {ds es : List Diagnostic} {s : Scope}

/-- What is found where the first token begins may stand in front of all else. -/
lemma Along.at_start {line : UInt32} {errors : List SemanticError} (hts : ts ≠ [])
    (hline : line = (Span.covering ts).start.line) (h : Along (tokenLines ts) ds) :
    Along (tokenLines ts) (Diagnostic.allOn line errors ++ ds) := by
  obtain ⟨t, ts, rfl⟩ := List.exists_cons_of_ne_nil hts
  subst hline
  exact h.allOn errors

lemma Along.only_at_start {line : UInt32} {errors : List SemanticError} (hts : ts ≠ [])
    (hline : line = (Span.covering ts).start.line) :
    Along (tokenLines ts) (Diagnostic.allOn line errors) := by
  have h : Along (tokenLines ts) (Diagnostic.allOn line errors ++ []) :=
    Along.nil.at_start hts hline
  rwa [List.append_nil] at h

mutual

/-- What is found in an expression is found along its tokens. -/
theorem Expr.Spelled.along : ∀ {ts : List Token} {e : Expr}, e.Spelled tight ts →
    Along (tokenLines ts) (s.findings e.nodes)
  | _, _, .literal _ hspan => by
    rw [Expr.nodes, Scope.findings_cons]
    exact Along.nil.at_start (by simp) (congrArg Span.line hspan)
  | _, _, .symbol _ hspan => by
    rw [Expr.nodes, Scope.findings_cons]
    exact Along.nil.at_start (by simp) (congrArg Span.line hspan)
  | _, _, .call _ _ hes _ hspan => by
    rw [Expr.nodes, Scope.findings_cons]
    refine Along.at_start (by simp) (congrArg Span.line hspan) ?_
    simpa using hes.along.weaken.pass.pass.pass.pass
  | _, _, .group _ he _ hspan => by
    rw [Expr.nodes, Scope.findings_cons]
    refine Along.at_start (by simp) (congrArg Span.line hspan) ?_
    simpa using he.along.weaken.pass.pass
  | _, _, .sign _ _ he hspan => by
    rw [Expr.nodes, Scope.findings_cons]
    refine Along.at_start (by simp) (congrArg Span.line hspan) ?_
    simpa using he.along.pass.pass
  | _, _, .step _ he _ hspan => by
    rw [Expr.nodes, Scope.findings_cons]
    refine Along.at_start (by simp) (congrArg Span.line hspan) ?_
    simpa using he.along.weaken
  | _, _, .binary hl _ hr hspan => by
    rw [Expr.nodes, Scope.findings_cons, Scope.findings_append]
    refine Along.at_start (by simp) (congrArg Span.line hspan) ?_
    simpa using hl.along.append hr.along.pass.pass

/-- What is found in the arguments of a call is found along their tokens. -/
theorem Expr.ArgumentsSpelled.along : ∀ {ts : List Token} {es : List Expr},
    Expr.ArgumentsSpelled tight ts es → Along (tokenLines ts) (s.findings (Expr.allNodes es))
  | _, _, .none => by
    rw [Expr.allNodes]
    exact .nil
  | _, _, .last he => by
    rw [Expr.allNodes, Expr.allNodes, List.append_nil]
    exact he.along
  | _, _, .more he _ hes => by
    rw [Expr.allNodes, Scope.findings_append]
    simpa using he.along.append hes.along.pass.pass

end

lemma Expr.SpelledIfAny.along {e : Option Expr} (h : Expr.SpelledIfAny tight ts e) :
    Along (tokenLines ts) (s.findings (nodesOf e)) := by
  cases e with
  | none => exact .nil
  | some e =>
    rw [nodesOf_some]
    exact Expr.Spelled.along h

/-! ## Steps -/

/-- What is found in a step, where the steps before it determine what is visible. -/
def findingsAt (scopeAt : List Step → Scope) (f : Signature) (past : List Step) (step : Step) :
    List Diagnostic :=
  stepFindings (scopeAt past) (scopeAt (past ++ [step])) f step

section Steps

variable {scopeAt : List Step → Scope} {f : Signature} {past : List Step} {step : Step}

lemma findingsAt_control (word : String) (line : UInt32) :
    findingsAt scopeAt f past (.control word line) = [] := by
  simp [findingsAt, stepFindings, Scope.redeclarationErrors, Scope.stepErrors, Step.value?]

/-- What is wrong with a step itself is reported in front of what is wrong with its expression. -/
lemma along_findingsAt (hts : ts ≠ []) (hline : step.line = (Span.covering ts).start.line)
    (h : ∀ s : Scope, Along (tokenLines ts) (s.findings (nodesOf step.value?))) :
    Along (tokenLines ts) (findingsAt scopeAt f past step) :=
  (h _).at_start hts hline

lemma VarDecl.Spelled.along {d : VarDecl} (h : d.Spelled tight ts) :
    Along (tokenLines ts) (findingsAt scopeAt f past (.declare d)) := by
  refine along_findingsAt h.ne_nil ?_ fun s => ?_
  · rcases h with ⟨-, -, -, -, hspan⟩
    exact congrArg Span.line hspan
  · rcases h with @⟨cs, vs, word, name, isConst, ty, value, span, -, -, -, hvalue, -⟩
    have hvs : Along (tokenLines vs) (s.findings (nodesOf value)) := by
      cases value with
      | none => exact .nil
      | some e =>
        obtain ⟨t, us, rfl, -, he⟩ := hvalue
        rw [nodesOf_some]
        exact he.along.pass.pass
    rw [tokenLines_append]
    exact hvs.pass.pass.pass.pass.weaken_left

lemma Assignment.Spelled.along {a : Assignment} (h : a.Spelled tight ts) :
    Along (tokenLines ts) (findingsAt scopeAt f past (.assign a)) := by
  refine along_findingsAt h.ne_nil ?_ fun s => ?_
  · cases h with
    | value _ _ _ _ hspan => exact congrArg Span.line hspan
    | step _ _ _ hspan => exact congrArg Span.line hspan
  · cases h with
    | value _ _ _ he _ =>
      rw [show (Step.assign _).value? = some _ from rfl, nodesOf_some]
      exact he.along.pass.pass.pass.pass
    | step _ _ _ _ => exact .nil

lemma along_evaluate {e : Expr} (h : e.Spelled tight ts) :
    Along (tokenLines ts) (findingsAt scopeAt f past (.evaluate e)) := by
  refine along_findingsAt h.ne_nil (congrArg Span.line h.span_eq) fun s => ?_
  rw [show (Step.evaluate e).value? = some e from rfl, nodesOf_some]
  exact h.along

lemma along_evaluate? {e : Option Expr} (h : Expr.SpelledIfAny tight ts e) :
    Along (tokenLines ts) (flatMapPast (findingsAt scopeAt f) past (e.toList.map .evaluate)) := by
  cases e with
  | none => exact .nil
  | some e =>
    rw [Option.toList_some, List.map_singleton, flatMapPast_cons, flatMapPast_nil, List.append_nil]
    exact along_evaluate h

lemma ConditionSpelled.along {word : Kind} {e : Expr} (h : ConditionSpelled tight word ts e) :
    Along (tokenLines ts) (findingsAt scopeAt f past (.evaluate e)) := by
  obtain ⟨-, -, he, -⟩ := h
  simpa using (along_evaluate he).weaken.pass.pass.pass.pass

lemma InitSpelled.along {init : Option Stmt} (h : InitSpelled tight ts init) :
    Along (tokenLines ts) (flatMapPast (findingsAt scopeAt f) past (Stmt.steps? init)) := by
  cases h with
  | none => exact .nil
  | declaration hd => simpa [Stmt.steps?, Stmt.steps] using hd.along
  | assignment ha => simpa [Stmt.steps?, Stmt.steps] using ha.along

lemma UpdateSpelled.along {update : Option Stmt} (h : UpdateSpelled tight ts update) :
    Along (tokenLines ts) (flatMapPast (findingsAt scopeAt f) past (Stmt.steps? update)) := by
  cases h with
  | none => exact .nil
  | assignment ha => simpa [Stmt.steps?, Stmt.steps] using ha.along

lemma ForSpelled.along {init update : Option Stmt} {e : Option Expr}
    (h : ForSpelled tight ts init e update) :
    Along (tokenLines ts) (flatMapPast (findingsAt scopeAt f) past
      (Stmt.steps? init ++ e.toList.map .evaluate ++ Stmt.steps? update)) := by
  obtain ⟨-, -, hinit, -, he, -, hupdate, -⟩ := h
  rw [flatMapPast_append, flatMapPast_append, List.append_assoc]
  simp only [tokenLines_cons, tokenLines_append]
  refine (hinit.along.append ?_).pass.pass.pass.pass
  exact ((along_evaluate? he).append hupdate.along.weaken.pass.pass).pass.pass

mutual

/-- What is found in a statement is found along its tokens. -/
theorem Stmt.Spelled.along : ∀ {ts : List Token} {stmt : Stmt}, stmt.Spelled tight ts →
    ∀ past, Along (tokenLines ts) (flatMapPast (findingsAt scopeAt f) past stmt.steps)
  | _, _, .declaration hd _, past => by
    rw [Stmt.steps, tokenLines_append]
    simpa using hd.along.weaken
  | _, _, .assignment ha _, past => by
    rw [Stmt.steps, tokenLines_append]
    simpa using ha.along.weaken
  | _, _, .call hcall _, past => by
    rw [Stmt.steps, flatMapPast_cons, flatMapPast_nil, List.append_nil, tokenLines_append]
    exact (along_evaluate hcall).weaken
  | _, _, .returning _ he _ hspan, past => by
    rw [Stmt.steps, flatMapPast_cons, flatMapPast_nil, List.append_nil]
    refine along_findingsAt (by simp) (congrArg Span.line hspan) fun s => ?_
    rw [tokenLines_cons, tokenLines_append]
    exact he.along.weaken.pass.pass
  | _, _, @Stmt.Spelled.conditional _ hs ts us e ⟨thenBody, _⟩ none span he hthen helse _, past => by
    rw [Stmt.steps, flatMapPast_cons, findingsAt_control, List.nil_append, flatMapPast_cons,
      tokenLines_append, tokenLines_append]
    exact he.along.append (hthen.along _).weaken
  | _, _, @Stmt.Spelled.conditional _ hs ts us e ⟨thenBody, _⟩ (some ⟨elseBody, _⟩) span he hthen
      helse _, past => by
    rw [Stmt.steps, flatMapPast_cons, findingsAt_control, List.nil_append, flatMapPast_cons,
      flatMapPast_append, tokenLines_append, tokenLines_append]
    exact he.along.append ((hthen.along _).append (helse.along ⟨elseBody, _⟩ rfl _))
  | _, _, @Stmt.Spelled.whileLoop _ hs ts e ⟨body, _⟩ span he hbody _, past => by
    rw [Stmt.steps, flatMapPast_cons, findingsAt_control, List.nil_append, flatMapPast_cons,
      tokenLines_append]
    exact he.along.append (hbody.along _)
  | _, _, @Stmt.Spelled.forLoop _ hs ts init e update ⟨body, _⟩ span hhead hbody _, past => by
    rw [Stmt.steps, flatMapPast_cons, findingsAt_control, List.nil_append, flatMapPast_append,
      tokenLines_append]
    exact hhead.along.append (hbody.along _)

theorem Stmt.ElseSpelled.along : ∀ {ts : List Token} {elseBlock : Option Block},
    Stmt.ElseSpelled tight ts elseBlock → ∀ b ∈ elseBlock, ∀ past,
      Along (tokenLines ts) (flatMapPast (findingsAt scopeAt f) past (Stmt.allSteps b.body))
  | _, _, .none, _, hb, _ => nomatch hb
  | _, _, .block _ hb, _, rfl, past => (hb.along past).pass.pass
  | _, _, .nested _ _ hs _, _, rfl, past => by
    rw [Stmt.allSteps, Stmt.allSteps, List.append_nil]
    exact (hs.along past).pass.pass

theorem BlockOf.Spelled.along : ∀ {ts : List Token} {b : Block}, b.Spelled tight ts →
    ∀ past, Along (tokenLines ts) (flatMapPast (findingsAt scopeAt f) past (Stmt.allSteps b.body))
  | _, _, .intro _ hss _ _, past => by
    simpa using (hss.along past).weaken.pass.pass

theorem Stmt.AllSpelled.along : ∀ {ts : List Token} {ss : List Stmt}, Stmt.AllSpelled tight ts ss →
    ∀ past, Along (tokenLines ts) (flatMapPast (findingsAt scopeAt f) past (Stmt.allSteps ss))
  | _, _, .nil, past => by
    rw [Stmt.allSteps]
    exact .nil
  | _, _, .cons hs hss, past => by
    rw [Stmt.allSteps, flatMapPast_append, tokenLines_append]
    exact (hs.along past).append (hss.along _)

end

end Steps

/-! ## Items -/

variable {p : Program} {before : List Item}

lemma parameterFindings_eq (past : List Parameter) (q : Parameter) :
    ∃ errors, parameterFindings past q = Diagnostic.allOn q.span.line errors := by
  rw [parameterFindings]
  split
  · exact ⟨[_], rfl⟩
  · exact ⟨[], rfl⟩

lemma FunctionDef.headFindings_eq (f : FunctionDef) :
    ∃ errors, f.headFindings = Diagnostic.allOn f.span.line errors := by
  rw [headFindings]
  split
  · exact ⟨[_], rfl⟩
  · exact ⟨[], rfl⟩

lemma FunctionDef.endFindings_eq (f : FunctionDef) :
    ∃ errors, f.endFindings = Diagnostic.allOn f.span.stop.line errors := by
  rw [endFindings]
  split
  · exact ⟨[], rfl⟩
  · exact ⟨[_], rfl⟩

lemma Parameter.Spelled.along {q : Parameter} (h : q.Spelled tight ts) (past : List Parameter) :
    Along (tokenLines ts) (parameterFindings past q) := by
  obtain ⟨errors, herrors⟩ := parameterFindings_eq past q
  obtain ⟨-, -, hspan⟩ := h
  rw [herrors]
  exact Along.only_at_start (by simp) (congrArg Span.line hspan)

lemma ParametersSpelled.along {qs : List Parameter} (h : ParametersSpelled tight ts qs) :
    ∀ past, Along (tokenLines ts) (flatMapPast parameterFindings past qs) := by
  induction h with
  | none => exact fun past => .nil
  | last hq =>
    intro past
    rw [flatMapPast_cons, flatMapPast_nil, List.append_nil]
    exact hq.along past
  | more hq _ _ ih =>
    intro past
    rw [flatMapPast_cons, tokenLines_append]
    exact (hq.along past).append (ih _).pass.pass

/-- What is found where a block ends is reported behind what is found inside. -/
lemma BlockOf.Spelled.along_end {b : Block} {line : UInt32} (hb : b.Spelled tight ts)
    (hline : line = (Span.covering ts).stop.line) (errors : List SemanticError)
    (scopeAt : List Step → Scope) (f : Signature) :
    Along (tokenLines ts) (flatMapPast (findingsAt scopeAt f) [] (Stmt.allSteps b.body) ++
      Diagnostic.allOn line errors) := by
  rcases hb with @⟨opened, closed, ts, body, span, -, hss, -, -⟩
  have hend : Along [closed.span.stop.line] (Diagnostic.allOn closed.span.stop.line errors ++ []) :=
    Along.nil.allOn errors
  rw [hline, Span.covering_enclosed, tokenLines_cons, tokenLines_append, tokenLines_cons]
  rw [List.append_nil] at hend
  exact ((hss.along []).append hend.pass).pass.pass

/-- What is found at an item is found along its tokens. -/
theorem Item.Spelled.along {item : Item} (h : item.Spelled tight ts) :
    Along (tokenLines ts) (p.itemFindings before item) := by
  cases h with
  | global _ _ _ _ _ hspan =>
    have hline := congrArg Span.line hspan
    rw [Program.itemFindings]
    split
    · exact @Along.only_at_start _ _ [_] (by simp) hline
    · exact Along.only_at_start (by simp) hline
  | @function word name opened closed ts us ty qs body span _ _ _ hqs _ hbody hspan =>
    have hline := congrArg Span.line hspan
    rw [Program.itemFindings]
    split
    · exact @Along.only_at_start _ _ [_] (by simp) hline
    · let f : FunctionDef := ⟨name.text, ty, qs, body, span⟩
      obtain ⟨headErrors, hhead⟩ := FunctionDef.headFindings_eq f
      obtain ⟨endErrors, hend⟩ := FunctionDef.endFindings_eq f
      -- a missing result is reported on the line of the closing brace, the last token of the body
      have hstop : f.span.stop.line = (Span.covering us).stop.line := by
        have hall : span = .covering ((word :: name :: opened :: (ts ++ [closed])) ++ us) := by
          rw [show span = .covering _ from hspan]
          simp
        rw [show f.span = _ from hall, Span.stop_covering_append hbody.ne_nil]
      have hinner := hbody.along_end hstop endErrors (fun past => (p.context before f past).scope)
        (.ofDefinition f)
      rw [hhead, hend, List.append_assoc, List.append_assoc]
      refine Along.at_start (by simp) hline ?_
      rw [tokenLines_cons, tokenLines_cons, tokenLines_cons, tokenLines_append, tokenLines_cons]
      exact ((hqs.along []).append hinner.pass.pass).pass.pass.pass.pass.pass.pass

/-- What is found at the items of a program is found along their tokens. -/
theorem Item.AllSpelled.along {items : List Item} (h : Item.AllSpelled tight ts items) :
    ∀ before, Along (tokenLines ts) (flatMapPast p.itemFindings before items) := by
  induction h with
  | nil => exact fun before => .nil
  | cons h _ ih =>
    intro before
    rw [flatMapPast_cons, tokenLines_append]
    exact h.along.append (ih _)

/-! ## Programs -/

lemma position_start {t : Token} (file : String) :
    (Cursor.start (t :: ts) file).position = t.span.start := by
  rw [Cursor.start]
  -- whether or not an end of input is added behind the tokens, the first of them stays
  rcases ts with _ | ⟨u, ts⟩
  · by_cases ht : t.kind = .endOfInput <;> simp [ht, Cursor.position, Cursor.current, Cursor.finish]
  · rcases hlast : (t :: u :: ts).getLast? with _ | last
    · simp at hlast
    · by_cases ht : last.kind = .endOfInput <;> simp [ht, Cursor.position, Cursor.current]

lemma tokenLines_beforeEnd (h : (tokenLines ts).Pairwise (· ≤ ·)) :
    (tokenLines (beforeEnd ts)).Pairwise (· ≤ ·) := by
  obtain ⟨rest, hrest⟩ : beforeEnd ts <+: ts := List.takeWhile_prefix _
  rw [← hrest, tokenLines_append] at h
  exact (List.pairwise_append.1 h).1

/-- The findings of a program come in the order of its source.  Only a missing main function is reported
behind all others, where the program starts. -/
theorem Program.diagnostics_inOrder {source file : String} {p : Program}
    (hlines : source.toList.count '\n' + 1 < UInt32.size) (h : Program.ofSource source file = .ok p) :
    ∃ found missing, p.analyse.diagnostics = found ++ missing ∧
      found.Pairwise (fun d e => d.line ≤ e.line) ∧
      (∀ d ∈ found, d.error ≠ .missingMain) ∧
      (missing = [] ∨ ∃ t rest, tokenize source file = t :: rest ∧
        missing = [⟨t.span.line, .missingMain⟩]) := by
  obtain ⟨-, hspelled, hstart⟩ := sound_of_ofTokens (unsigned_tokenize source file) h
  have halong := hspelled.along (p := p) []
  refine ⟨flatMapPast p.itemFindings [] p.items, p.mainFindings, p.diagnostics_analyse, ?_, ?_, ?_⟩
  · exact halong.pairwise (tokenLines_beforeEnd (pairwise_tokenLines_tokenize file hlines))
  · exact fun d hd => error_ne_missingMain hd
  · rw [mainFindings]
    split
    · exact Or.inl rfl
    · have hne := tokensOf_ne_nil file 1 (fragments source.toList)
      obtain ⟨t, rest, hts⟩ := List.exists_cons_of_ne_nil hne
      refine Or.inr ⟨t, rest, hts, ?_⟩
      rw [tokenize, hts, position_start] at hstart
      rw [Span.line, hstart]
      rfl

/-- Across 2^32 - 1 newlines the lines of the findings descend: the second of two assignments stands on line
0, and the first one on line 1. -/
theorem Program.diagnostics_descend :
    let source := "void main() \x7b x = 1;" ++ "\n" ++ blankLines (UInt32.size - 2) ++ "y = 1; \x7d"
    source.toList.count '\n' < UInt32.size ∧
    ∃ p, Program.ofSource source interactiveFile = .ok p ∧
      p.analyse.diagnostics = [⟨1, .undeclaredVariable "x"⟩, ⟨0, .undeclaredVariable "y"⟩] ∧
      ¬ p.analyse.diagnostics.Pairwise (fun d e => d.line ≤ e.line) := by
  intro source
  have hfirst : "void main() \x7b x = 1;".toList.count '\n' = 0 := rfl
  have hlast : "y = 1; \x7d".toList.count '\n' = 0 := rfl
  have hcount : source.toList.count '\n' = 0 + 1 + (UInt32.size - 2) + 0 := by
    simp only [source, String.toList_append, List.count_append, count_blankLines, hfirst, hlast]
    rfl
  have htokens : tokenize source interactiveFile =
      (tokenize "void main() \x7b x = 1;" interactiveFile).dropLast ++
        tokensOf interactiveFile 0 (fragments "y = 1; \x7d".toList) := by
    have hsize : 0 + 1 + (UInt32.size - 2) = UInt32.size - 1 := by decide
    rw [tokenize_append_blankLines (by decide +kernel), hfirst, hsize, tokensBehind, lineBehind_eq_zero]
  have hfound : (Program.ofSource source interactiveFile).map (·.analyse.diagnostics) =
      .ok [⟨1, .undeclaredVariable "x"⟩, ⟨0, .undeclaredVariable "y"⟩] := by
    rw [Program.ofSource, htokens]
    decide +kernel
  obtain ⟨p, h, hdiagnostics⟩ := Program.exists_eq_ok_of_map hfound
  refine ⟨by rw [hcount]; decide, p, h, hdiagnostics, ?_⟩
  rw [hdiagnostics]
  decide

/-- A program whose only function is not the main function. -/
def lonely : String := "int f(int a) \x7b\n  x = a;\n  return\n    y + z;\n\x7d\n"

/-- What is found in it is in order, and that there is no main function is reported on its first line. -/
theorem Program.diagnostics_inOrder_lonely :
    ∃ p, Program.ofSource lonely interactiveFile = .ok p ∧
      p.analyse.diagnostics.map (·.line) = [2, 3, 4, 4, 1] ∧
      ∃ found missing, p.analyse.diagnostics = found ++ missing ∧
        (found.Pairwise fun d e => d.line ≤ e.line) ∧ ∀ d ∈ found, d.error ≠ .missingMain := by
  have hlines : (Program.ofSource lonely interactiveFile).map
      (fun p => p.analyse.diagnostics.map (·.line)) = .ok [2, 3, 4, 4, 1] := by
    decide +kernel
  obtain ⟨p, h, hlines⟩ := Program.exists_eq_ok_of_map hlines
  obtain ⟨found, missing, hsplit, hordered, herrors, -⟩ := Program.diagnostics_inOrder (by decide) h
  exact ⟨p, h, hlines, found, missing, hsplit, hordered, herrors⟩

end LangCheck
