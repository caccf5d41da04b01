import LangCheck.Analysis.Checker
import LangCheck.Proofs.Analysis.Context

/-!
# What the analysis of a program finds

The findings of a whole program, read off its source: item by item, and inside a function first its
parameters, then the steps of its body, then its end (`Program.findings`).  The main result
(`Program.diagnostics_analyse`) says that these are the diagnostics of the analysis, in this order.
Its proof follows the analysis item by item with an invariant (`Checker.Reached`) that ties the tables
to the items passed.
-/

namespace LangCheck

/-! ## Findings of one function -/

/-- The local variable that a parameter is. -/
def Parameter.toVariable (q : Parameter) : Variable := ⟨q.name, q.ty, none, false⟩

/-- What is found at a parameter: whether its name repeats that of an earlier one. -/
def parameterFindings (past : List Parameter) (q : Parameter) : List Diagnostic :=
  if q.name ∈ past.map (·.name) then [⟨q.span.line, .duplicateParameter q.name⟩] else []

namespace FunctionDef

/-- What is found at the head of a function. -/
def headFindings (f : FunctionDef) : List Diagnostic :=
  if f.name = mainName ∧ f.parameters ≠ [] then [⟨f.span.line, .mainWithParameters⟩] else []

/-- What is found at the end of a function. -/
def endFindings (f : FunctionDef) : List Diagnostic :=
  if f.returns = .void ∨ f.body.body.getLast?.any Stmt.isReturn then []
  else [⟨f.span.stop.line, .missingReturn f.name f.returns⟩]

end FunctionDef

/-! ## Findings of items -/

/-- The variable that an item declares. -/
def Item.declared? : Item → Option Variable
  | .global d => some (Checker.global d)
  | .function _ => none

/-- The global variables that some items declare, in order. -/
def globalsOf (items : List Item) : List Variable := items.filterMap Item.declared?

/-- The names of the functions that some items define, in order. -/
def functionNames (items : List Item) : List String :=
  (items.filterMap Item.function?).map (·.name)

namespace Program

/-- What is visible in a function of a program, given the items before the function and the steps of
its body that were taken. -/
def context (p : Program) (before : List Item) (f : FunctionDef) (past : List Step) : Context :=
  ⟨globalsOf before, p.functions,
    f.parameters.map Parameter.toVariable ++ past.filterMap Step.declared?⟩

/-- What is found in the body of a function. -/
def bodyFindings (p : Program) (before : List Item) (f : FunctionDef) : List Diagnostic :=
  flatMapPast (fun past s => stepFindings (p.context before f past).scope
    (p.context before f (past ++ [s])).scope (.ofDefinition f) s) [] f.steps

/-- What is found at an item, given the items before it. -/
def itemFindings (p : Program) (before : List Item) : Item → List Diagnostic
  | .global d =>
    if d.name ∈ (globalsOf before).map (·.name) then [⟨d.span.line, .duplicateGlobal d.name⟩]
    else Diagnostic.allOn d.span.line (Checker.literalErrors d.ty d.value)
  | .function f =>
    if f.name ∈ functionNames before then [⟨f.span.line, Checker.redefinition f.name⟩]
    else f.headFindings ++ flatMapPast parameterFindings [] f.parameters ++
      p.bodyFindings before f ++ f.endFindings

/-- What is found after all items. -/
def mainFindings (p : Program) : List Diagnostic :=
  if mainName ∈ functionNames p.items then [] else [⟨p.span.line, .missingMain⟩]

/-- What is wrong with a program, in the order of its source. -/
def findings (p : Program) : List Diagnostic :=
  flatMapPast p.itemFindings [] p.items ++ p.mainFindings

end Program

lemma name_of_declared? (step : Step) :
    step.declared?.map (·.name) = step.declaration?.map (·.name) := by
  cases step <;> rfl

/-- The names of the local variables are those of the parameters and of the declarations so far. -/
lemma names_locals_context {p : Program} {before : List Item} {f : FunctionDef} {past : List Step} :
    (p.context before f past).locals.map (·.name) =
      f.parameters.map (·.name) ++ past.filterMap fun s => s.declaration?.map (·.name) := by
  simp only [Program.context, List.map_append, List.map_map, List.map_filterMap, name_of_declared?]
  rfl

/-! ## Following the analysis -/

namespace Checker

variable {p : Program} {before after : List Item} {c : Checker} {f : FunctionDef}

/-- The state of the analysis of a program after some of its items: the tables hold what these items
declare and the headers of all functions, and the diagnostics are what was found at the items. -/
structure Reached (p : Program) (before : List Item) (c : Checker) : Prop where
  globals : c.tables.globals = .ofList (globalsOf before)
  indexed : c.tables.functions.Indexed
  headers : ∀ name, (c.tables.functions.find? name).map Signature.bare =
    (p.functions.find? (·.name == name)).map Signature.ofDefinition
  reached : ∀ name, name ∈ c.reached ↔ name ∈ functionNames before
  hasMain : c.hasMain = true ↔ mainName ∈ functionNames before
  diagnostics : c.diagnostics = flatMapPast p.itemFindings [] before

lemma registerHeaders_eq (c : Checker) (p : Program) :
    c.registerHeaders p = { c with tables.functions :=
      (p.functions.map Signature.ofDefinition).foldl Table.declareOrKeep c.tables.functions } := by
  unfold registerHeaders
  induction p.functions generalizing c with
  | nil => rfl
  | cons f fs ih => rw [List.foldl_cons, ih]; rfl

/-- All headers are known before the first item is looked at. -/
lemma reached_nil (p : Program) : Reached p [] (empty.registerHeaders p) := by
  have htable : (empty.registerHeaders p).tables.functions =
      .ofList (p.functions.map Signature.ofDefinition) := by
    rw [registerHeaders_eq]
    rfl
  refine ⟨by rw [registerHeaders_eq]; rfl, ?_, fun name => ?_, ?_, ?_, by rw [registerHeaders_eq]; rfl⟩
  · rw [htable]
    exact Table.indexed_ofList _
  · rw [htable, Table.find?_ofList, Context.search_map_ofDefinition, Option.map_map]
    rfl
  · simp [registerHeaders_eq, empty, functionNames]
  · simp [registerHeaders_eq, empty, functionNames]

/-! ### Globals -/

lemma checkGlobal_eq (c : Checker) (d : GlobalDecl) :
    c.checkGlobal d =
      found { c with tables.globals := c.tables.globals.declareOrKeep (global d) }
        (if c.tables.globals.contains d.name then [⟨d.span.line, .duplicateGlobal d.name⟩]
          else Diagnostic.allOn d.span.line (literalErrors d.ty d.value)) := by
  by_cases h : c.tables.globals.contains d.name = true
  · have hd : c.tables.globals.declare (global d) = .error ⟨d.name⟩ := Table.declare_of_contains h
    have hk : c.tables.globals.declareOrKeep (global d) = c.tables.globals :=
      Table.declareOrKeep_of_contains h
    rw [checkGlobal, hd, if_pos h, hk]
    rfl
  · have hd : c.tables.globals.declare (global d) =
        .ok (c.tables.globals.declareOrKeep (global d)) :=
      Table.declare_of_not_contains (Bool.eq_false_iff.2 h)
    rw [checkGlobal, hd, if_neg h]
    exact foldl_report_eq_found _ _

lemma Reached.checkGlobal (h : Reached p before c) (d : GlobalDecl) :
    Reached p (before ++ [.global d]) (c.checkGlobal d) := by
  have hnames : functionNames (before ++ [.global d]) = functionNames before := by
    simp [functionNames, Item.function?]
  rw [checkGlobal_eq]
  refine ⟨?_, h.indexed, h.headers, ?_, ?_, ?_⟩
  · simp [globalsOf, Item.declared?, h.globals, Table.ofList_append]
  · simpa [hnames] using h.reached
  · simpa [hnames] using h.hasMain
  · have hiff := Table.contains_ofList (globalsOf before) d.name
    rw [← h.globals] at hiff
    simp only [diagnostics_found, h.diagnostics, flatMapPast_append, flatMapPast_cons,
      flatMapPast_nil, List.append_nil, List.nil_append, Program.itemFindings]
    congr 1
    exact if_congr hiff rfl rfl

/-! ### Functions -/

lemma functionNames_append (before : List Item) (f : FunctionDef) :
    functionNames (before ++ [Item.function f]) = functionNames before ++ [f.name] := by
  simp [functionNames, Item.function?]

lemma globalsOf_append_function (before : List Item) (f : FunctionDef) :
    globalsOf (before ++ [.function f]) = globalsOf before := by
  simp [globalsOf, Item.declared?]

lemma mem_functionNames_append_of_mem {name : String} (hf : f.name ∈ functionNames before) :
    name ∈ functionNames (before ++ [.function f]) ↔ name ∈ functionNames before := by
  rw [functionNames_append, List.mem_append, List.mem_singleton]
  exact or_iff_left_of_imp fun hname => hname ▸ hf

lemma mem_functionNames_append_of_ne {name : String} (hne : name ≠ f.name) :
    name ∈ functionNames (before ++ [.function f]) ↔ name ∈ functionNames before := by
  rw [functionNames_append, List.mem_append, List.mem_singleton]
  exact or_iff_left hne

lemma functions_eq_append_cons (hp : p.items = before ++ .function f :: after) :
    p.functions = before.filterMap Item.function? ++ f :: after.filterMap Item.function? := by
  rw [Program.functions, hp, List.filterMap_append]
  rfl

/-- A function whose name no earlier item defines is the one that its name refers to. -/
lemma find?_functions (hp : p.items = before ++ .function f :: after)
    (hf : f.name ∉ functionNames before) : p.functions.find? (·.name == f.name) = some f := by
  have hnone : (before.filterMap Item.function?).find? (·.name == f.name) = none := by
    refine List.find?_eq_none.2 fun g hg heq => hf ?_
    exact List.mem_map.2 ⟨g, hg, by simpa using heq⟩
  rw [functions_eq_append_cons hp, List.find?_append, hnone, Option.none_or, List.find?_cons_of_pos (by simp)]

lemma enterParameter_eq (f : Frame) (q : Parameter) :
    enterParameter ⟨c, some f⟩ q =
      ⟨c.found (if f.locals.contains q.name then [⟨q.span.line, .duplicateParameter q.name⟩] else []),
        some { f with locals := f.locals.declareOrKeep q.toVariable }⟩ := by
  by_cases h : f.locals.contains q.name = true
  · have hd : f.locals.declare q.toVariable = .error ⟨q.name⟩ := Table.declare_of_contains h
    have hk : f.locals.declareOrKeep q.toVariable = f.locals := Table.declareOrKeep_of_contains h
    have he : f.declareParameter ⟨q.name, q.ty⟩ = .error ⟨q.name⟩ := by
      rw [Frame.declareParameter, ← Parameter.toVariable, hd]
    simp only [if_pos h, hk, enterParameter, he]
    rfl
  · have hd : f.locals.declare q.toVariable = .ok (f.locals.declareOrKeep q.toVariable) :=
      Table.declare_of_not_contains (Bool.eq_false_iff.2 h)
    have he : f.declareParameter ⟨q.name, q.ty⟩ =
        .ok { f with locals := f.locals.declareOrKeep q.toVariable } := by
      rw [Frame.declareParameter, ← Parameter.toVariable, hd]
    simp only [if_neg h, found_nil, enterParameter, he]

/-- The parameters are declared in order, and repeated names are found. -/
lemma foldl_enterParameter_eq (s : Signature) (past qs : List Parameter) :
    qs.foldl enterParameter ⟨c, some ⟨s, .ofList (past.map Parameter.toVariable)⟩⟩ =
      ⟨c.found (flatMapPast parameterFindings past qs),
        some ⟨s, .ofList ((past ++ qs).map Parameter.toVariable)⟩⟩ := by
  induction qs generalizing past c with
  | nil => simp
  | cons q qs ih =>
    have hiff := Table.contains_ofList (past.map Parameter.toVariable) q.name
    have hnames : (past.map Parameter.toVariable).map nameOf = past.map (·.name) := by
      simp [Function.comp_def, Parameter.toVariable, nameOf]
    rw [hnames] at hiff
    have hnext : (Table.ofList (past.map Parameter.toVariable)).declareOrKeep q.toVariable =
        .ofList ((past ++ [q]).map Parameter.toVariable) := by
      rw [List.map_append, List.map_singleton, Table.ofList_append]
    rw [List.foldl_cons, enterParameter_eq, hnext, ih, found_found, flatMapPast_cons,
      List.append_assoc, List.singleton_append]
    congr 3
    exact if_congr hiff rfl rfl

lemma checkEnd_eq (c : Checker) (f : FunctionDef) : c.checkEnd f = c.found f.endFindings := by
  unfold checkEnd FunctionDef.endFindings
  split
  · rw [found_nil]
  · rfl

/-- What is visible in the walk through a body is what the source declares before. -/
lemma Reached.alike (h : Reached p before c) (f : FunctionDef) (frame : Frame) (past : List Step)
    (hlocals : frame.locals = .ofList (f.parameters.map Parameter.toVariable)) :
    (c.scopeIn (past.foldl Frame.after frame)).Alike (p.context before f past).scope := by
  have hloc : (past.foldl Frame.after frame).locals = .ofList (p.context before f past).locals := by
    rw [Frame.locals_foldl_after, hlocals, Program.context, Table.ofList, Table.ofList,
      List.foldl_append]
  refine ⟨congrArg some hloc, fun name => ?_, fun name => ?_⟩
  · rw [Scope.findVariable?, Scope.findVariable?]
    simp only [scopeIn, SymbolTables.scope, hloc, h.globals]
    rfl
  · rw [Context.findFunction?_scope, Option.map_map]
    exact h.headers name

/-- The state after the name of a function was noted. -/
def entered (c : Checker) (f : FunctionDef) : Checker :=
  { c with reached := f.name :: c.reached, hasMain := c.hasMain || f.name == mainName }

lemma enterMain_eq (c : Checker) (f : FunctionDef) :
    (if f.name == mainName then enterMain { c with reached := f.name :: c.reached } f
      else { c with reached := f.name :: c.reached }) = (c.entered f).found f.headFindings := by
  by_cases hm : f.name = mainName
  · by_cases hq : f.parameters = [] <;>
      simp [hm, hq, enterMain, FunctionDef.headFindings, entered, report_eq_found]
  · simp [hm, FunctionDef.headFindings, entered]

/-- The frame of a function when its parameters are declared. -/
def startFrame (s : Signature) (f : FunctionDef) : Frame :=
  ⟨s, .ofList (f.parameters.map Parameter.toVariable)⟩

/-- The walk at the beginning of the body of a function: its name is noted, and its parameters are
declared. -/
def enter (c : Checker) (f : FunctionDef) : Walk :=
  let c := { c with reached := f.name :: c.reached }
  let signature := (c.tables.functions.find? f.name).getD (.ofDefinition f)
  let c := if signature.isMain then c.enterMain f else c
  f.parameters.foldl enterParameter ⟨c, some (.ofSignature signature)⟩

/-- The walk through a function takes the steps of its body, and then looks at its end. -/
lemma walkFunction_eq_foldl (c : Checker) (f : FunctionDef) :
    c.walkFunction f =
      let w := f.steps.foldl Walk.step (c.enter f)
      { w with checker := w.checker.checkEnd f } := by
  simp only [← Walk.block_eq]
  rfl

section Enter

variable {s : Signature}

lemma enter_eq (hs : c.tables.functions.find? f.name = some s)
    (hmain : s.isMain = (f.name == mainName)) :
    c.enter f = ⟨(c.entered f).found (f.headFindings ++ flatMapPast parameterFindings [] f.parameters),
      some (startFrame s f)⟩ := by
  have hparameters := foldl_enterParameter_eq (c := (c.entered f).found f.headFindings) s []
    f.parameters
  simp only [List.map_nil, List.nil_append, found_found] at hparameters
  simp only [enter, hs, Option.getD_some, hmain, enterMain_eq]
  rw [show Frame.ofSignature s = ⟨s, .ofList []⟩ from rfl, hparameters]
  rfl

/-- The walk through a function, given what is known of it: its head, its parameters, the steps of its
body and its end. -/
lemma walkFunction_eq (hs : c.tables.functions.find? f.name = some s)
    (hmain : s.isMain = (f.name == mainName)) :
    c.walkFunction f =
      ⟨(c.entered f).found (f.headFindings ++ flatMapPast parameterFindings [] f.parameters ++
          flatMapPast (fun past step =>
            stepFindings (c.scopeIn (past.foldl Frame.after (startFrame s f)))
              (c.scopeIn ((past ++ [step]).foldl Frame.after (startFrame s f)))
              (past.foldl Frame.after (startFrame s f)).signature step) [] f.steps ++
          f.endFindings),
        some (f.steps.foldl Frame.after (startFrame s f))⟩ := by
  have hbody := Walk.foldl_step_eq ((c.entered f).found (f.headFindings ++
    flatMapPast parameterFindings [] f.parameters)) (startFrame s f) f.steps []
  simp only [List.foldl_nil, List.nil_append, found_found] at hbody
  simp only [walkFunction_eq_foldl, enter_eq hs hmain, hbody, checkEnd_eq, found_found]
  rfl

end Enter

/-- After a function that was not reached before, its findings are appended. -/
lemma Reached.walkFunction (h : Reached p before c) (hp : p.items = before ++ .function f :: after)
    (hf : f.name ∉ functionNames before) :
    ∃ frame : Frame, frame.signature.bare = .ofDefinition f ∧
      c.walkFunction f =
        ⟨(c.entered f).found (p.itemFindings before (.function f)), some frame⟩ := by
  obtain ⟨s, hs, hbare⟩ : ∃ s, c.tables.functions.find? f.name = some s ∧
      s.bare = .ofDefinition f := by
    have := h.headers f.name
    rw [find?_functions hp hf] at this
    simpa using this
  have hmain : s.isMain = (f.name == mainName) := congrArg Signature.isMain hbare
  refine ⟨f.steps.foldl Frame.after (startFrame s f), ?_, ?_⟩
  · rw [Frame.bare_foldl_after]
    exact hbare
  · rw [walkFunction_eq hs hmain, Program.itemFindings, if_neg hf]
    congr 4
    refine flatMapPast_congr fun pre step post _ => ?_
    refine stepFindings_congr (h.alike f _ _ rfl) (h.alike f _ _ rfl) ?_ step
    rw [Frame.bare_foldl_after]
    exact hbare

lemma Reached.checkFunction (h : Reached p before c)
    (hp : p.items = before ++ .function f :: after) :
    Reached p (before ++ [.function f]) (c.checkFunction f) := by
  have hglobals := globalsOf_append_function before f
  have hdiagnostics : flatMapPast p.itemFindings [] (before ++ [.function f]) =
      flatMapPast p.itemFindings [] before ++ p.itemFindings before (.function f) := by
    simp [flatMapPast_append]
  by_cases hf : f.name ∈ functionNames before
  · -- the name is taken: a finding is appended, and nothing else changes
    have hnames : ∀ name, name ∈ functionNames (before ++ [.function f]) ↔
        name ∈ functionNames before := fun name => mem_functionNames_append_of_mem hf
    rw [Checker.checkFunction, if_pos ((h.reached f.name).2 hf)]
    refine ⟨by rw [hglobals]; exact h.globals, h.indexed, h.headers,
      fun name => (h.reached name).trans (hnames name).symm, h.hasMain.trans (hnames _).symm, ?_⟩
    rw [hdiagnostics, ← h.diagnostics, Program.itemFindings, if_pos hf]
    rfl
  · -- the name is new: the walk changes the entry of the function, but not what its header tells
    obtain ⟨frame, hbare, hwalk⟩ := h.walkFunction hp hf
    have hname : nameOf frame.signature = f.name := congrArg Signature.name hbare
    rw [Checker.checkFunction, if_neg fun hr => hf ((h.reached f.name).1 hr), hwalk]
    refine ⟨by rw [hglobals]; exact h.globals, h.indexed.replace hname, fun name => ?_,
      fun name => ?_, ?_, ?_⟩
    · simp only [leave, tables_found, entered]
      rw [h.indexed.find?_replace]
      by_cases heq : name = f.name
      · subst heq
        rw [if_pos rfl, find?_functions hp hf]
        have := h.headers f.name
        rw [find?_functions hp hf] at this
        obtain ⟨s, hs, -⟩ := Option.map_eq_some_iff.1 this
        simp [hs, hbare]
      · rw [if_neg heq]
        exact h.headers name
    · rw [functionNames_append]
      simp [leave, entered, h.reached name, or_comm]
    · rw [functionNames_append]
      simp only [leave, hasMain_found, entered, Bool.or_eq_true, beq_iff_eq, List.mem_append,
        List.mem_singleton, h.hasMain, @eq_comm _ f.name]
    · rw [hdiagnostics, ← h.diagnostics]
      rfl

/-! ### All items -/

lemma Reached.checkItem (h : Reached p before c) {item : Item}
    (hp : p.items = before ++ item :: after) :
    Reached p (before ++ [item]) (c.checkItem item) := by
  cases item with
  | global d => exact h.checkGlobal d
  | function f => exact h.checkFunction hp

lemma Reached.foldl_checkItem (h : Reached p before c) (hp : p.items = before ++ after) :
    Reached p p.items (after.foldl Checker.checkItem c) := by
  induction after generalizing before c with
  | nil =>
    rw [List.append_nil] at hp
    rwa [hp]
  | cons item after ih =>
    exact ih (h.checkItem hp) (by rw [hp, List.append_assoc, List.singleton_append])

end Checker

/-- The diagnostics of a program are what is wrong with it, in the order of its source. -/
theorem Program.diagnostics_analyse (p : Program) : p.analyse.diagnostics = p.findings := by
  have h := (Checker.reached_nil p).foldl_checkItem (List.nil_append p.items).symm
  rw [Program.analyse, Checker.finish, Checker.checkMain, Program.findings, Program.mainFindings]
  by_cases hm : mainName ∈ functionNames p.items
  · rw [if_pos (h.hasMain.2 hm), if_pos hm, List.append_nil]
    exact h.diagnostics
  · rw [if_neg fun hc => hm (h.hasMain.1 hc), if_neg hm, ← h.diagnostics]
    rfl

end LangCheck
