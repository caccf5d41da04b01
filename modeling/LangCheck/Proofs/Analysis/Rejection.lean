import LangCheck.Proofs.Analysis.Independence

/-!
# Rejected items

Of several items that declare a variable of one name, or define a function of one name, the first counts.
Each later one is rejected (`Item.Rejected`): it is reported, and nothing else comes of it.  The main
result (`Program.analyse_withoutRejected`) compares a program with the one in which a rejected item is left
out.  Both have the same globals and the same functions, and what is found in them differs by the report
of the rejected item alone.
-/

namespace LangCheck

/-- An item is rejected behind some others, with the given report, if one of them declares a variable or
defines a function of its name. -/
inductive Item.Rejected (before : List Item) : Item → Diagnostic → Prop
  | global {d e : GlobalDecl} (hearlier : .global e ∈ before) (hname : e.name = d.name) :
    Rejected before (.global d) ⟨d.span.line, .duplicateGlobal d.name⟩
  | function {f g : FunctionDef} (hearlier : .function g ∈ before) (hname : g.name = f.name)
    (hmain : f.name ≠ mainName) :
    Rejected before (.function f) ⟨f.span.line, .duplicateFunction f.name⟩
  | main {f g : FunctionDef} (hearlier : .function g ∈ before) (hname : g.name = f.name)
    (hmain : f.name = mainName) :
    Rejected before (.function f) ⟨f.span.line, .mainDefinedMultipleTimes⟩

namespace Program

variable {p q : Program} {before after : List Item} {item : Item} {diagnostic : Diagnostic}
  {f g : FunctionDef}

/-! ## The report -/

lemma mem_functionNames_of_mem (h : .function g ∈ before) (hname : g.name = f.name) :
    f.name ∈ functionNames before :=
  List.mem_map.2 ⟨g, List.mem_filterMap.2 ⟨.function g, h, rfl⟩, hname⟩

lemma mem_globalNames_of_mem {d e : GlobalDecl} (h : .global e ∈ before) (hname : e.name = d.name) :
    d.name ∈ (globalsOf before).map (·.name) :=
  List.mem_map.2 ⟨Checker.global e, List.mem_filterMap.2 ⟨.global e, h, rfl⟩, hname⟩

/-- At a rejected item nothing is found but that it is rejected. -/
lemma itemFindings_of_rejected (h : item.Rejected before diagnostic) :
    p.itemFindings before item = [diagnostic] := by
  cases h with
  | global hearlier hname => exact if_pos (mem_globalNames_of_mem hearlier hname)
  | function hearlier hname hmain =>
    rw [itemFindings, if_pos (mem_functionNames_of_mem hearlier hname), Checker.redefinition,
      if_neg hmain]
  | main hearlier hname hmain =>
    rw [itemFindings, if_pos (mem_functionNames_of_mem hearlier hname), Checker.redefinition,
      if_pos hmain]

/-! ## The declarations -/

lemma sameDeclarations_of_function (hearlier : .function g ∈ before) (hname : g.name = f.name) :
    SameDeclarations (before ++ [.function f]) before := by
  constructor
  · rw [Checker.globalsOf_append_function]
  · exact fun name =>
      Checker.mem_functionNames_append_of_mem (mem_functionNames_of_mem hearlier hname)

/-- A rejected item declares nothing that was not declared before. -/
lemma sameDeclarations_of_rejected (h : item.Rejected before diagnostic) :
    SameDeclarations (before ++ [item]) before := by
  cases h with
  | @global d e hearlier hname =>
    have hglobals : globalsOf (before ++ [.global d]) = globalsOf before ++ [Checker.global d] := by
      rw [globalsOf, List.filterMap_append]
      rfl
    constructor
    · rw [hglobals]
      exact Table.firsts_append_of_mem (mem_globalNames_of_mem hearlier hname)
    · simp [functionNames, Item.function?]
  | function hearlier hname _ => exact sameDeclarations_of_function hearlier hname
  | main hearlier hname _ => exact sameDeclarations_of_function hearlier hname

lemma firsts_functions_of_function (hp : p.items = before ++ .function f :: after)
    (hq : q.items = before ++ after) (hearlier : .function g ∈ before) (hname : g.name = f.name) :
    Table.firsts p.functions = Table.firsts q.functions := by
  have hrest : q.functions = before.filterMap Item.function? ++ after.filterMap Item.function? := by
    rw [functions, hq, List.filterMap_append]
  rw [Checker.functions_eq_append_cons hp, hrest, List.append_cons]
  exact Table.firsts_append_congr
    (Table.firsts_append_of_mem (mem_functionNames_of_mem hearlier hname)) _

/-- The functions that count are the same without a rejected item. -/
lemma firsts_functions_of_rejected (h : item.Rejected before diagnostic)
    (hp : p.items = before ++ item :: after) (hq : q.items = before ++ after) :
    Table.firsts p.functions = Table.firsts q.functions := by
  cases h with
  | global _ _ =>
    rw [functions, functions, hp, hq, List.filterMap_append, List.filterMap_append]
    rfl
  | function hearlier hname _ => exact firsts_functions_of_function hp hq hearlier hname
  | main hearlier hname _ => exact firsts_functions_of_function hp hq hearlier hname

lemma sameHeaders_of_firsts_eq (h : Table.firsts p.functions = Table.firsts q.functions) :
    p.SameHeaders q := by
  intro name
  have hsearch := congrArg (Table.search name) h
  rw [Table.search_firsts, Table.search_firsts] at hsearch
  exact congrArg (Option.map Signature.ofDefinition) hsearch

end Program

/-- A rejected item is inert: without it all globals and all functions are the same, and of what is found
its report is missing and nothing else, in the place where the item stood. -/
theorem Program.analyse_withoutRejected {p q : Program} {before after : List Item} {item : Item}
    {diagnostic : Diagnostic} (hp : p.items = before ++ item :: after)
    (hitem : item.Rejected before diagnostic) (hq : q = p.withItems (before ++ after)) :
    q.analyse.globals = p.analyse.globals ∧ q.analyse.functions = p.analyse.functions ∧
    ∃ earlier later, (p.stateAfter before).diagnostics = earlier ∧
      p.analyse.diagnostics = earlier ++ [diagnostic] ++ later ∧
      q.analyse.diagnostics = earlier ++ later := by
  have hspan : p.span = q.span := by rw [hq]; rfl
  have hqitems : q.items = before ++ after := by rw [hq]; rfl
  have hfunctions := firsts_functions_of_rejected hitem hp hqitems
  have hsame : SameDeclarations (before ++ [item]) (before ++ []) := by
    rw [List.append_nil]
    exact sameDeclarations_of_rejected hitem
  -- the rejected item stands in the place of no item at all
  rw [List.append_cons] at hp
  rw [← List.append_nil before] at hqitems
  have hall : SameDeclarations q.items p.items := by
    rw [hp, hqitems]
    exact hsame.symm.append after
  obtain ⟨earlier, later, hown, hnone⟩ :=
    (sameHeaders_of_firsts_eq hfunctions).exists_contributes hspan hp hqitems hsame
  rw [flatMapPast_cons, flatMapPast_nil, List.append_nil, itemFindings_of_rejected hitem] at hown
  have hwhole := hnone.whole
  rw [flatMapPast_nil, List.append_nil] at hwhole
  exact ⟨globals_analyse_congr hall, by rw [functions_analyse, functions_analyse, hfunctions],
    earlier, later, hown.start, hown.whole, hwhole⟩

/-- A second definition of a function, with other parameters and another result.  It calls itself and a
function that there is not, and it does not end with a `return`. -/
def twiceAgain : FunctionDef where
  name := "twice"
  returns := .string
  parameters := [⟨"n", .string, .onLine 5 "sums"⟩, ⟨"n", .int, .onLine 5 "sums"⟩]
  body := ⟨[.call ⟨"twice", [.call "none" [] (.onLine 6 "sums")], .onLine 6 "sums"⟩,
    .declaration ⟨"n", .int, true, none, .onLine 7 "sums"⟩], .onLine 5 "sums"⟩
  span := ⟨⟨5, "sums"⟩, ⟨8, "sums"⟩⟩

/-- A program with a function that is defined twice. -/
def sumsTwice : Program :=
  sums.withItems (sums.items.take 2 ++ .function twiceAgain :: sums.items.drop 2)

/-- Without the second definition just the report of it is missing, in the middle of the others. -/
theorem Program.analyse_withoutRejected_sums :
    (Item.function twiceAgain).Rejected (sums.items.take 2) ⟨5, .duplicateFunction "twice"⟩ ∧
    sums.analyse.functions = sumsTwice.analyse.functions ∧
    ∃ earlier later, earlier ≠ [] ∧ later ≠ [] ∧
      sumsTwice.analyse.diagnostics = earlier ++ [⟨5, .duplicateFunction "twice"⟩] ++ later ∧
      sums.analyse.diagnostics = earlier ++ later := by
  have hitem : (Item.function twiceAgain).Rejected (sums.items.take 2)
      ⟨5, .duplicateFunction "twice"⟩ :=
    .function (g := twice) (List.mem_cons_of_mem _ List.mem_cons_self) rfl (by decide)
  obtain ⟨-, hfunctions, earlier, later, hearlier, htwice, honce⟩ :=
    Program.analyse_withoutRejected (p := sumsTwice) (q := sums) rfl hitem rfl
  have hfirst : (sumsTwice.stateAfter (sums.items.take 2)).diagnostics.length = 1 := by decide
  have hlength : sums.analyse.diagnostics.length = 3 := by decide
  refine ⟨hitem, hfunctions, earlier, later, ?_, ?_, htwice, honce⟩
  · rintro rfl
    rw [hearlier] at hfirst
    cases hfirst
  · rintro rfl
    rw [honce, List.append_nil, ← hearlier, hfirst] at hlength
    cases hlength

end LangCheck
