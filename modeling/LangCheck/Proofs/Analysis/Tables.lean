import LangCheck.Proofs.Analysis.Record
import LangCheck.Proofs.Scope.Changes

/-!
# The tables of an analysis

An analysis keeps its globals and its functions in tables.  Whatever changes made these tables, they
answer like plain lists: in a scope, where the locals are searched before the globals
(`Scope.findVariable?_eq_search`), and in the result of the analysis (`Checker.global?_finish`).  The
tables of a running analysis are made by such changes: each global declaration declares a variable, each
header declares a function, and what is known of a function that was walked through is written over its
header (`Program.tables_stateAfter`).
-/

namespace LangCheck

open Table (Change)

/-- The tables of a program after some changes of either. -/
def SymbolTables.ofChanges (gs : List (Change Variable)) (fs : List (Change Signature)) :
    SymbolTables :=
  ⟨.ofChanges gs, .ofChanges fs⟩

/-! ## Scopes -/

namespace Scope

/-- The variables that are visible, the locals before the globals. -/
def visible (s : Scope) : List Variable := s.locals.elim [] Table.toList ++ s.globals.toList

/-- Looking a variable up is searching the locals and then the globals. -/
lemma findVariable?_eq_search {s : Scope} (hglobals : s.globals.Indexed)
    (hlocals : ∀ locals ∈ s.locals, locals.Indexed) (name : String) :
    s.findVariable? name = Table.search name s.visible := by
  rw [findVariable?, visible, Table.search_append, hglobals.find?_eq]
  rcases hl : s.locals with _ | locals
  · rfl
  · exact congrArg (Option.or · _) (hlocals locals hl).find?_eq

end Scope

/-! ## The result -/

namespace Checker

variable {c : Checker}

lemma global?_finish (h : c.tables.globals.Indexed) (p : Program) (name : String) :
    (c.finish p).global? name = c.tables.globals.find? name := by
  have hglobals : (c.finish p).globals = c.tables.globals.toList :=
    congrArg (·.globals.toList) (p.globals_checkMain c)
  rw [h.find?_eq, ← hglobals]
  rfl

lemma function?_finish (h : c.tables.functions.Indexed) (p : Program) (name : String) :
    (c.finish p).function? name = c.tables.functions.find? name := by
  have hfunctions : (c.finish p).functions = c.tables.functions.toList :=
    congrArg (·.functions.toList) (p.globals_checkMain c)
  rw [h.find?_eq, ← hfunctions]
  rfl

end Checker

/-! ## A running analysis -/

namespace Program

variable {p : Program} {before after : List Item} {f : FunctionDef}

/-- How the table of globals came about when some items were looked at: each declares its variable. -/
def globalChanges (before : List Item) : List (Change Variable) := (globalsOf before).map .declare

/-- How the table of functions came about when some items were looked at: all headers are declared, and
what is known of a function is written over its header when its definition is reached. -/
def functionChanges (p : Program) (before : List Item) : List (Change Signature) :=
  (p.functions.map fun f => .declare (.ofDefinition f)) ++
    (Table.firsts (before.filterMap Item.function?)).map fun f => .write f.summary

lemma functionChanges_append_global (d : GlobalDecl) :
    p.functionChanges (before ++ [.global d]) = p.functionChanges before := by
  have hsame : (before ++ [Item.global d]).filterMap Item.function? = before.filterMap Item.function? := by
    rw [List.filterMap_append]
    exact List.append_nil _
  rw [functionChanges, functionChanges, hsame]

lemma functionChanges_append_of_mem (hf : f.name ∈ functionNames before) :
    p.functionChanges (before ++ [.function f]) = p.functionChanges before := by
  have hsame : Table.firsts (before.filterMap Item.function? ++ [f]) =
      Table.firsts (before.filterMap Item.function?) := Table.firsts_append_of_mem hf
  simp [functionChanges, Item.function?, hsame]

lemma functionChanges_append_of_not_mem (hf : f.name ∉ functionNames before) :
    p.functionChanges (before ++ [Item.function f]) =
      p.functionChanges before ++ [Table.Change.write f.summary] := by
  have hnew : Table.firsts (before.filterMap Item.function? ++ [f]) =
      Table.firsts (before.filterMap Item.function?) ++ [f] := by
    rw [Table.firsts_append_cons, flatMapPast_nil, List.append_nil]
    exact congrArg _ (if_neg hf)
  simp [functionChanges, Item.function?, hnew]

lemma stateAfter_append (p : Program) (before : List Item) (item : Item) :
    p.stateAfter (before ++ [item]) = (p.stateAfter before).checkItem item := by
  simp [stateAfter]

lemma functions_stateAfter (hp : p.items = before ++ after) :
    (p.stateAfter before).tables.functions = .ofChanges (p.functionChanges before) := by
  induction before using List.reverseRecOn generalizing after with
  | nil =>
    have hheaders : p.functionChanges [] = (p.functions.map Signature.ofDefinition).map .declare := by
      simp [functionChanges, Table.firsts]
    rw [hheaders, ← Table.ofList_eq_ofChanges, stateAfter, List.foldl_nil, Checker.registerHeaders_eq]
    rfl
  | append_singleton before item ih =>
    rw [List.append_assoc, List.singleton_append] at hp
    rw [stateAfter_append]
    cases item with
    | global d =>
      rw [functionChanges_append_global, ← ih hp, Checker.checkItem, Checker.checkGlobal_eq,
        Checker.tables_found]
    | function f =>
      have hrec := Checker.recorded_stateAfter hp
      by_cases hf : f.name ∈ functionNames before
      · rw [functionChanges_append_of_mem hf, ← ih hp, Checker.checkItem, Checker.checkFunction,
          if_pos ((hrec.reached f.name).2 hf)]
        rfl
      · rw [functionChanges_append_of_not_mem hf, Table.ofChanges_append, ← ih hp, Checker.checkItem,
          hrec.functions_checkFunction hp hf, hrec.indexed.onTable_write]
        exact congrArg (Table.replace _ · _) f.name_summary.symm

/-- The tables of a running analysis, by the changes that made them. -/
theorem tables_stateAfter (hp : p.items = before ++ after) :
    (p.stateAfter before).tables = .ofChanges (globalChanges before) (p.functionChanges before) := by
  have hglobals : (p.stateAfter before).tables.globals = .ofChanges (globalChanges before) :=
    (Checker.recorded_stateAfter hp).globals.trans (Table.ofList_eq_ofChanges _)
  rw [SymbolTables.ofChanges, ← hglobals, ← functions_stateAfter hp]

end Program

/-! ## Tables and lists -/

namespace SymbolTables

lemma visible_scope_ofChanges (gs : List (Change Variable)) (fs : List (Change Signature))
    (ls : Option (List (Change Variable))) :
    ((ofChanges gs fs).scope (ls.map Table.ofChanges)).visible =
      ls.elim [] Table.listOfChanges ++ Table.listOfChanges gs := by
  cases ls <;> simp [Scope.visible, scope, ofChanges, Table.toList_ofChanges]

/-- Tables agree with lists, whatever was declared and edited in them: each tier of variables and the
functions, a scope over them, the result of an analysis that ends with them, and the tables of any
running analysis. -/
theorem ofChanges_answer_asLists :
    (∀ (α : Type) [Named α] (cs : List (Change α)),
      (Table.ofChanges cs).Mirrors (Table.listOfChanges cs) ∧
        (Table.listOfChanges cs).map nameOf =
          ((cs.filterMap Change.declared?).map nameOf).eraseDups) ∧
    (∀ (gs : List (Change Variable)) (fs : List (Change Signature))
        (ls : Option (List (Change Variable))) (name : String),
      ((ofChanges gs fs).scope (ls.map Table.ofChanges)).findVariable? name =
        (ls.elim [] Table.listOfChanges ++ Table.listOfChanges gs).find? (nameOf · == name)) ∧
    (∀ (gs : List (Change Variable)) (fs : List (Change Signature)) (c : Checker) (p : Program)
        (name : String),
      let result := ({ c with tables := ofChanges gs fs } : Checker).finish p
      result.global? name = (Table.ofChanges gs).find? name ∧
        result.function? name = (Table.ofChanges fs).find? name) ∧
    ∀ (p : Program) (n : ℕ), (p.stateAfter (p.items.take n)).tables =
      ofChanges (Program.globalChanges (p.items.take n)) (p.functionChanges (p.items.take n)) := by
  refine ⟨fun α _ cs => ⟨Table.mirrors_ofChanges cs, Table.names_listOfChanges cs⟩, ?scope, ?result,
    ?running⟩
  case scope =>
    intro gs fs ls name
    rw [Scope.findVariable?_eq_search (Table.indexed_ofChanges gs) ?_, visible_scope_ofChanges]
    · rfl
    · intro locals hlocals
      obtain ⟨cs, -, rfl⟩ := Option.map_eq_some_iff.1 hlocals
      exact Table.indexed_ofChanges cs
  case result =>
    intro gs fs c p name
    exact ⟨Checker.global?_finish (Table.indexed_ofChanges gs) p name,
      Checker.function?_finish (Table.indexed_ofChanges fs) p name⟩
  case running =>
    intro p n
    exact Program.tables_stateAfter (List.take_append_drop n p.items).symm

end SymbolTables

end LangCheck
