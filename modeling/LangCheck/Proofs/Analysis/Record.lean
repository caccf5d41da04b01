import LangCheck.Proofs.Analysis.Outcome

/-!
# What the analysis records

The tables with which the analysis of a program ends, read off its source.  The globals are the first
declarations of their names (`Program.globals_analyse`), and the functions are the first definitions of
theirs, each with what its body adds to its header (`Program.functions_analyse`).  What is recorded of a
function is made from its own definition and from nothing else (`FunctionDef.summary`).
-/

namespace LangCheck

/-! ## The record of one function -/

namespace FunctionDef

/-- What is recorded of a function when its body was walked through. -/
def summary (f : FunctionDef) : Signature :=
  (f.steps.foldl Frame.after (Checker.startFrame (.ofDefinition f) f)).signature

lemma bare_summary (f : FunctionDef) : f.summary.bare = .ofDefinition f :=
  Frame.bare_foldl_after _ f.steps

@[simp] lemma name_summary (f : FunctionDef) : f.summary.name = f.name :=
  congrArg Signature.name f.bare_summary

/-- What the table of functions holds of a function after some items: its header, until its definition
was reached. -/
def entry (before : List Item) (f : FunctionDef) : Signature :=
  if f.name ∈ functionNames before then f.summary else .ofDefinition f

lemma bare_entry (before : List Item) (f : FunctionDef) : (f.entry before).bare = .ofDefinition f := by
  unfold entry
  split
  · exact f.bare_summary
  · rfl

lemma name_entry (before : List Item) (f : FunctionDef) : (f.entry before).name = f.name := by
  unfold entry
  split
  · exact f.name_summary
  · rfl

end FunctionDef

/-- The state of the analysis of a program when it has looked at some of the items. -/
def Program.stateAfter (p : Program) (items : List Item) : Checker :=
  items.foldl Checker.checkItem (Checker.empty.registerHeaders p)

/-! ## Following the analysis -/

namespace Checker

variable {p : Program} {before after : List Item} {c : Checker} {f : FunctionDef}

/-- The state of the analysis of a program after some of its items, with the table of functions in full:
the functions whose definitions were reached are walked through, and of the others the headers are
known. -/
structure Recorded (p : Program) (before : List Item) (c : Checker) : Prop
    extends Reached p before c where
  functions : c.tables.functions.toList = (Table.firsts p.functions).map (FunctionDef.entry before)

lemma recorded_nil (p : Program) : Recorded p [] (empty.registerHeaders p) := by
  refine ⟨reached_nil p, ?_⟩
  -- before any definition is reached, all that is known are headers
  have hentry : FunctionDef.entry [] = Signature.ofDefinition := by
    funext f
    exact if_neg (by simp [functionNames])
  rw [registerHeaders_eq, hentry, ← Table.firsts_map (h := Signature.ofDefinition) fun _ => rfl,
    ← Table.toList_ofList]
  rfl

lemma Recorded.find?_eq (h : Recorded p before c) (name : String) :
    c.tables.functions.find? name =
      (p.functions.find? (·.name == name)).map (FunctionDef.entry before) := by
  rw [h.indexed.find?_eq, h.functions, Table.search_map (FunctionDef.name_entry before),
    Table.search_firsts]
  rfl

/-- Items that define no function of a new name change no entry. -/
lemma map_entry_congr {items : List Item}
    (h : ∀ name, name ∈ functionNames before ↔ name ∈ functionNames items) (fs : List FunctionDef) :
    fs.map (FunctionDef.entry before) = fs.map (FunctionDef.entry items) :=
  List.map_congr_left fun f _ => if_congr (h f.name) rfl rfl

lemma Recorded.checkGlobal (h : Recorded p before c) (d : GlobalDecl) :
    Recorded p (before ++ [.global d]) (c.checkGlobal d) := by
  refine ⟨h.toReached.checkGlobal d, ?_⟩
  rw [checkGlobal_eq, tables_found, h.functions]
  exact map_entry_congr (by simp [functionNames, Item.function?]) _

/-- Until its definition is reached, the header of a function is all that is known of it. -/
lemma Recorded.find?_of_not_mem (h : Recorded p before c)
    (hp : p.items = before ++ .function f :: after) (hf : f.name ∉ functionNames before) :
    c.tables.functions.find? f.name = some (.ofDefinition f) := by
  rw [h.find?_eq, find?_functions hp hf, Option.map_some, FunctionDef.entry, if_neg hf]

/-- The walk through a function whose definition is reached for the first time puts its summary in the
place of its header. -/
lemma Recorded.functions_checkFunction (h : Recorded p before c)
    (hp : p.items = before ++ .function f :: after) (hf : f.name ∉ functionNames before) :
    (c.checkFunction f).tables.functions = c.tables.functions.replace f.name f.summary := by
  rw [Checker.checkFunction, if_neg fun hr => hf ((h.reached f.name).1 hr),
    walkFunction_eq (h.find?_of_not_mem hp hf) rfl]
  rfl

lemma Recorded.checkFunction (h : Recorded p before c)
    (hp : p.items = before ++ .function f :: after) :
    Recorded p (before ++ [.function f]) (c.checkFunction f) := by
  refine ⟨h.toReached.checkFunction hp, ?_⟩
  by_cases hf : f.name ∈ functionNames before
  · rw [Checker.checkFunction, if_pos ((h.reached f.name).2 hf)]
    exact h.functions.trans
      (map_entry_congr (fun name => (mem_functionNames_append_of_mem hf).symm) _)
  · rw [h.functions_checkFunction hp hf, h.indexed.toList_replace, h.functions, List.map_map]
    refine List.map_congr_left fun g hg => ?_
    have hname : nameOf (g.entry before) = g.name := g.name_entry before
    rw [Function.comp_apply, hname]
    by_cases heq : g.name = f.name
    · -- a first definition of this name is the one that is looked at
      have hgf : g = f := by
        have hfound : p.functions.find? (·.name == g.name) = some g := Table.search_of_mem_firsts hg
        rw [heq, find?_functions hp hf] at hfound
        exact (Option.some.inj hfound).symm
      rw [if_pos heq, hgf, FunctionDef.entry, if_pos (by simp [functionNames_append])]
    · rw [if_neg heq, FunctionDef.entry, FunctionDef.entry]
      exact if_congr (mem_functionNames_append_of_ne heq).symm rfl rfl

lemma Recorded.checkItem (h : Recorded p before c) {item : Item}
    (hp : p.items = before ++ item :: after) :
    Recorded p (before ++ [item]) (c.checkItem item) := by
  cases item with
  | global d => exact h.checkGlobal d
  | function f => exact h.checkFunction hp

lemma Recorded.foldl_checkItem (h : Recorded p before c) {items : List Item}
    (hp : p.items = before ++ items ++ after) :
    Recorded p (before ++ items) (items.foldl Checker.checkItem c) := by
  induction items generalizing before c with
  | nil => simpa using h
  | cons item items ih =>
    have hrest : p.items = before ++ [item] ++ items ++ after := by simp [hp]
    have hnext : before ++ item :: items = before ++ [item] ++ items := by simp
    rw [hnext]
    exact ih (h.checkItem (by rw [hp, List.append_assoc, List.cons_append])) hrest

/-- What is known of the state of the analysis after the first items of a program. -/
lemma recorded_stateAfter (hp : p.items = before ++ after) : Recorded p before (p.stateAfter before) := by
  have h := (recorded_nil p).foldl_checkItem (show p.items = [] ++ before ++ after from hp)
  rwa [List.nil_append] at h

end Checker

/-! ## The tables of the result -/

namespace Program

variable (p : Program)

lemma globals_checkMain (c : Checker) : (c.checkMain p).tables = c.tables := by
  unfold Checker.checkMain
  split <;> rfl

/-- The global variables of the result are the first declarations of their names. -/
theorem globals_analyse : p.analyse.globals = Table.firsts (globalsOf p.items) := by
  have h := Checker.recorded_stateAfter (p := p) (List.append_nil p.items).symm
  rw [← Table.toList_ofList, ← h.globals, analyse, Checker.finish]
  exact congrArg (·.globals.toList) (globals_checkMain p _)

/-- The functions of the result are the first definitions of their names. -/
theorem functions_analyse : p.analyse.functions = (Table.firsts p.functions).map FunctionDef.summary := by
  have h := Checker.recorded_stateAfter (p := p) (List.append_nil p.items).symm
  -- at the end all definitions were reached
  have hreached : ∀ f ∈ Table.firsts p.functions, f.entry p.items = f.summary := by
    intro f hf
    have hmem : f ∈ p.functions := Table.mem_of_search (Table.search_of_mem_firsts hf)
    exact if_pos (List.mem_map.2 ⟨f, hmem, rfl⟩)
  rw [← List.map_congr_left hreached, ← h.functions, analyse, Checker.finish]
  exact congrArg (·.functions.toList) (globals_checkMain p _)

/-- The function of a name in the result is its first definition. -/
lemma function?_analyse (name : String) :
    p.analyse.function? name = (p.functions.find? (·.name == name)).map FunctionDef.summary := by
  have hsearch : p.analyse.function? name = Table.search name p.analyse.functions := rfl
  rw [hsearch, p.functions_analyse, Table.search_map FunctionDef.name_summary, Table.search_firsts]
  rfl

/-- What the definition of a function adds to the functions of the result: its entry, if none of the items
before it defines a function of this name. -/
def recordedAt (before : List Item) (f : FunctionDef) : List Signature :=
  if f.name ∈ functionNames before then [] else (p.analyse.function? f.name).toList

variable {p} {before after : List Item} {f : FunctionDef}

lemma recordedAt_eq (hp : p.items = before ++ .function f :: after) :
    p.recordedAt before f =
      (Table.ifNew (before.filterMap Item.function?) f).map FunctionDef.summary := by
  have hnew : Table.ifNew (before.filterMap Item.function?) f =
      if f.name ∈ functionNames before then [] else [f] := rfl
  rw [recordedAt, hnew]
  by_cases hf : f.name ∈ functionNames before
  · rw [if_pos hf, if_pos hf, List.map_nil]
  · rw [if_neg hf, if_neg hf, function?_analyse, Checker.find?_functions hp hf]
    rfl

/-- The functions of the result in front of a definition, at it and behind it. -/
theorem functions_analyse_append_cons (hp : p.items = before ++ .function f :: after) :
    p.analyse.functions =
      (Table.firsts (before.filterMap Item.function?)).map FunctionDef.summary ++
        p.recordedAt before f ++
        (flatMapPast Table.ifNew (before.filterMap Item.function? ++ [f])
          (after.filterMap Item.function?)).map FunctionDef.summary := by
  rw [functions_analyse, Checker.functions_eq_append_cons hp, Table.firsts_append_cons, List.map_append,
    List.map_append, recordedAt_eq hp, List.append_assoc]

end Program

end LangCheck
