import LangCheck.Proofs.Analysis.Texts
import LangCheck.Proofs.Source.Lines
import LangCheck.Proofs.Token.Listing
import LangCheck.Report

/-!
# Reports line by line

A report shows some texts, each with a newline behind it, so it can be taken apart again only if none of
them holds a newline itself (`Report.byLine_iff`).  The names and numbers of a source hold none, whatever
its string literals denote (`allOneLine_wordsOf_tokenize`).  Therefore the reports on a program that was
read from a source have a line for each of their texts (`Program.reports_byLine`).
-/

namespace LangCheck

open Text Grammar

/-! ## Reports -/

namespace Report

/-- A report has one line for each of some texts, in order, and it is the text.  Behind the last newline there
is one more line, without any characters. -/
def ByLine (report : String) (texts : List String) : Prop :=
  linesOf report.toList = texts.map String.toList ++ [[]]

lemma toList_unlines (texts : List String) :
    (unlines texts).toList = (texts.map String.toList).flatMap (· ++ ['\n']) := by
  simp [unlines, List.flatMap_map]

/-- Texts are reported line by line if and only if each of them takes one line. -/
theorem byLine_iff {texts : List String} : ByLine (unlines texts) texts ↔ AllOneLine texts := by
  rw [ByLine, toList_unlines, linesOf_flatMap_newline_iff, List.forall_mem_map]
  rfl

/-- A function is reported on six lines and one more for each local variable and each control structure. -/
lemma length_functionLines (s : Signature) :
    (functionLines s).length = 6 + s.locals.length + s.controls.length := by
  simp [functionLines]
  omega

lemma oneLine_flag (value : Bool) : OneLine (flag value) := by
  cases value <;> decide

variable {v : Variable} {s : Signature}

lemma oneLine_valueText (h : v.OneLine) : OneLine (valueText v.value) := by
  rcases hv : v.value with _ | text
  · decide
  · exact h.value text hv

lemma oneLine_globalLine (h : v.OneLine) : OneLine (globalLine v) := by
  unfold globalLine
  simp only [oneLine_append, h.name, v.ty.oneLine_name, oneLine_valueText h, oneLine_flag, and_true]
  decide

lemma oneLine_localLine (h : v.OneLine) : OneLine (localLine v) := by
  unfold localLine
  simp only [oneLine_append, h.name, v.ty.oneLine_name, oneLine_valueText h, and_true]
  decide

lemma oneLine_parameters (h : s.OneLine) :
    OneLine (", ".intercalate (s.parameters.map Formal.render)) := by
  refine oneLine_intercalate (by decide) (List.forall_mem_map.2 fun q hq => ?_)
  unfold Formal.render
  simp only [oneLine_append, q.ty.oneLine_name, h.parameters q hq, true_and, and_true]
  decide

lemma allOneLine_functionLines (h : s.OneLine) : AllOneLine (functionLines s) := by
  have hmain : OneLine (if s.isMain then "Main" else "Non-Main") := by
    cases s.isMain <;> decide
  have hlocals : AllOneLine (s.locals.map localLine) :=
    List.forall_mem_map.2 fun v hv => oneLine_localLine (h.locals v hv)
  have hcontrols : AllOneLine (s.controls.map ("    - " ++ ·)) :=
    List.forall_mem_map.2 fun text htext => oneLine_append.2 ⟨by decide, h.controls text htext⟩
  unfold functionLines
  simp only [allOneLine_append, hlocals, hcontrols, and_true]
  simp only [AllOneLine, List.forall_mem_cons, oneLine_append, h.name, hmain, oneLine_flag,
    s.returns.oneLine_name, oneLine_parameters h, List.not_mem_nil, false_imp_iff, forall_const, and_true]
  decide

end Report

/-! ## Words of a source -/

/-- A name or a number of a source takes one line. -/
lemma oneLine_text_of_mem_tokenize {source file : String} {t : Token} (ht : t ∈ tokenize source file)
    (hkind : t.kind = .name ∨ t.kind = .number) : OneLine t.text := by
  intro hmem
  obtain ⟨f, hf, htoken, -⟩ := exists_fragment_of_mem_tokenize ht
    (by rcases hkind with hkind | hkind <;> rw [hkind] <;> decide)
  -- only string literals and comments that are not closed show a newline
  cases (showsNewline_iff_of_mem_fragments hf).1 ⟨_, _, htoken, hmem⟩ with
  | escape _ =>
    rw [Fragment.token?, Option.some.injEq, Prod.mk.injEq] at htoken
    simp [← htoken.1] at hkind
  | openComment _ =>
    rw [Fragment.token?, Option.some.injEq, Prod.mk.injEq] at htoken
    simp [← htoken.1] at hkind

/-- All words of a source take one line. -/
theorem allOneLine_wordsOf_tokenize (source file : String) : AllOneLine (wordsOf (tokenize source file)) := by
  intro word hword
  obtain ⟨t, ht, heq⟩ := List.mem_filterMap.1 hword
  unfold Token.word? at heq
  split at heq
  · next hkind =>
    rw [← Option.some.inj heq]
    exact oneLine_text_of_mem_tokenize ht hkind
  · cases heq

/-! ## Reports on a source -/

namespace Program

variable {source file : String} {p : Program}

/-- The words of a program that was read from a source take one line each. -/
lemma allOneLine_words (h : ofSource source file = .ok p) : AllOneLine p.words := fun word hword =>
  allOneLine_wordsOf_tokenize source file word (mem_wordsOf_tokenize h hword)

/-- The reports on a program that was read from a source are told line by line, whatever the strings in it
denote: no text of its analysis holds a newline, so there is one line for each diagnostic, one for each global
variable, and for each function six and one more for each of its local variables and control structures. -/
theorem reports_byLine (h : ofSource source file = .ok p) :
    p.analyse.OneLine ∧
    Report.ByLine (Report.diagnostics p.analyse.diagnostics) (p.analyse.diagnostics.map Diagnostic.render) ∧
    Report.ByLine (Report.globals p.analyse.globals) (p.analyse.globals.map Report.globalLine) ∧
    Report.ByLine (Report.functions p.analyse.functions)
      (p.analyse.functions.flatMap Report.functionLines) ∧
    ∀ s ∈ p.analyse.functions,
      (Report.functionLines s).length = 6 + s.locals.length + s.controls.length := by
  have hanalysis : p.analyse.OneLine := oneLine_analyse (allOneLine_words h)
  refine ⟨hanalysis, ?diagnostics, ?globals, ?functions, fun s _ => Report.length_functionLines s⟩
  case diagnostics =>
    exact Report.byLine_iff.2 (List.forall_mem_map.2 fun d hd =>
      Diagnostic.oneLine_render (hanalysis.diagnostics d hd))
  case globals =>
    exact Report.byLine_iff.2 (List.forall_mem_map.2 fun v hv =>
      Report.oneLine_globalLine (hanalysis.globals v hv))
  case functions =>
    refine Report.byLine_iff.2 fun line hline => ?_
    obtain ⟨s, hs, hline⟩ := List.mem_flatMap.1 hline
    exact Report.allOneLine_functionLines (hanalysis.functions s hs) line hline

/-- A program whose strings denote newlines. -/
def brokenTexts : String :=
  "string s=\"a\\nb\";\nvoid main()\x7bstring t=s+\"\\n\";if(x)\x7b\x7d\x7d"

/-- What is written as an escape stays one in the reports. -/
theorem reports_byLine_brokenTexts :
    ∃ p, ofSource brokenTexts interactiveFile = .ok p ∧
      p.analyse.globals.map (·.value) = [some "\"a\\nb\""] ∧
      p.analyse.functions.map (fun s => s.locals.map (·.value)) = [[some "s + \"\\n\""]] ∧
      p.analyse.diagnostics.map (·.line) = [2] ∧
      Report.ByLine (Report.diagnostics p.analyse.diagnostics)
        (p.analyse.diagnostics.map Diagnostic.render) ∧
      Report.ByLine (Report.globals p.analyse.globals) (p.analyse.globals.map Report.globalLine) ∧
      Report.ByLine (Report.functions p.analyse.functions)
        (p.analyse.functions.flatMap Report.functionLines) := by
  have hread : (ofSource brokenTexts interactiveFile).map (fun p =>
      (p.analyse.globals.map (·.value), p.analyse.functions.map (fun s => s.locals.map (·.value)),
        p.analyse.diagnostics.map (·.line))) =
      .ok ([some "\"a\\nb\""], [[some "s + \"\\n\""]], [2]) := by
    decide +kernel
  obtain ⟨p, h, hrecords⟩ := exists_eq_ok_of_map hread
  obtain ⟨-, hdiagnostics, hglobals, hfunctions, -⟩ := reports_byLine h
  exact ⟨p, h, congrArg (·.1) hrecords, congrArg (·.2.1) hrecords, congrArg (·.2.2) hrecords,
    hdiagnostics, hglobals, hfunctions⟩

end Program

end LangCheck
