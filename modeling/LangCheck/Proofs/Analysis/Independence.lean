import LangCheck.Proofs.Analysis.Record
import Mathlib.Data.List.Forall2

/-!
# Functions and the rest of the program

What the analysis makes of an item depends on the globals and the names of functions that the items
before it declare and on the headers of all functions, and on nothing else
(`Program.SameHeaders.itemFindings_eq`).  So the body of a function matters to the function alone, and
functions may stand in any order.  The main results say this of whole analyses:
`Program.analyse_withBody` compares two programs that differ in one body, and `Program.analyse_swap` two
programs in which neighbouring functions change places.
-/

namespace LangCheck

/-! ## What an item depends on -/

/-- Two lists of items declare the same globals, of several declarations of a name the first, and
functions of the same names. -/
structure SameDeclarations (before other : List Item) : Prop where
  globals : Table.firsts (globalsOf before) = Table.firsts (globalsOf other)
  names : ∀ name, name ∈ functionNames before ↔ name ∈ functionNames other

lemma SameDeclarations.refl (before : List Item) : SameDeclarations before before :=
  ⟨rfl, fun _ => Iff.rfl⟩

lemma SameDeclarations.symm {before other : List Item} (h : SameDeclarations before other) :
    SameDeclarations other before :=
  ⟨h.globals.symm, fun name => (h.names name).symm⟩

lemma SameDeclarations.append {before other : List Item} (h : SameDeclarations before other)
    (items : List Item) : SameDeclarations (before ++ items) (other ++ items) := by
  constructor
  · rw [globalsOf, globalsOf, List.filterMap_append, List.filterMap_append]
    exact Table.firsts_append_congr h.globals _
  · intro name
    have hnames := h.names name
    unfold functionNames at hnames ⊢
    rw [List.filterMap_append, List.filterMap_append, List.map_append, List.map_append,
      List.mem_append, List.mem_append, hnames]

namespace Program

/-- The same function headers are visible in two programs. -/
def SameHeaders (p q : Program) : Prop :=
  ∀ name, (p.functions.find? (·.name == name)).map Signature.ofDefinition =
    (q.functions.find? (·.name == name)).map Signature.ofDefinition

namespace SameHeaders

variable {p q : Program} {before other : List Item}

lemma alike (h : p.SameHeaders q)
    (hglobals : Table.firsts (globalsOf before) = Table.firsts (globalsOf other)) (f : FunctionDef)
    (past : List Step) : (p.context before f past).scope.Alike (q.context other f past).scope := by
  refine ⟨rfl, fun name => ?_, fun name => ?_⟩
  · have hsearch := congrArg (Table.search name) hglobals
    rw [Table.search_firsts, Table.search_firsts] at hsearch
    simp only [Context.findVariable?_scope, Context.findVariable?, context, hsearch]
  · rw [Context.findFunction?_scope, Context.findFunction?_scope]
    exact congrArg (Option.map Signature.bare) (h name)

/-- What is found at a function depends on the globals before it and on whether its name is new. -/
lemma itemFindings_function_eq (h : p.SameHeaders q)
    (hglobals : Table.firsts (globalsOf before) = Table.firsts (globalsOf other)) {f : FunctionDef}
    (hname : f.name ∈ functionNames before ↔ f.name ∈ functionNames other) :
    p.itemFindings before (.function f) = q.itemFindings other (.function f) := by
  have hbody : p.bodyFindings before f = q.bodyFindings other f :=
    flatMapPast_congr fun past step rest _ =>
      stepFindings_congr (h.alike hglobals f _) (h.alike hglobals f _) rfl step
  simp only [itemFindings, hname, hbody]

/-- What is found at an item is the same behind the same declarations. -/
theorem itemFindings_eq (h : p.SameHeaders q) (hbefore : SameDeclarations before other) (item : Item) :
    p.itemFindings before item = q.itemFindings other item := by
  cases item with
  | global d =>
    have htaken : d.name ∈ (globalsOf before).map (·.name) ↔ d.name ∈ (globalsOf other).map (·.name) :=
      Table.mem_names_iff_of_firsts_eq hbefore.globals d.name
    simp only [itemFindings, htaken]
  | function f => exact h.itemFindings_function_eq hbefore.globals (hbefore.names f.name)

lemma flatMapPast_eq (h : p.SameHeaders q) (hbefore : SameDeclarations before other)
    (items : List Item) :
    flatMapPast p.itemFindings before items = flatMapPast q.itemFindings other items :=
  flatMapPast_congr fun past item _ _ => h.itemFindings_eq (hbefore.append past) item

end SameHeaders

/-! ## What items contribute -/

/-- The program with other items. -/
def withItems (p : Program) (items : List Item) : Program := { p with items }

/-- What the analysis of a program finds falls into what it has found before some items, what it appends
when it looks at these, and what comes later. -/
structure Contributes (p : Program) (before items : List Item) (earlier own later : List Diagnostic) :
    Prop where
  start : (p.stateAfter before).diagnostics = earlier
  stop : (p.stateAfter (before ++ items)).diagnostics = earlier ++ own
  whole : p.analyse.diagnostics = earlier ++ own ++ later

variable {p q : Program} {before items others after : List Item}

lemma contributes (hp : p.items = before ++ items ++ after) :
    p.Contributes before items (flatMapPast p.itemFindings [] before)
      (flatMapPast p.itemFindings before items)
      (flatMapPast p.itemFindings (before ++ items) after ++ p.mainFindings) := by
  constructor
  · exact (Checker.recorded_stateAfter (by rw [hp, List.append_assoc])).diagnostics
  · rw [(Checker.recorded_stateAfter hp).diagnostics, flatMapPast_append, List.nil_append]
  · rw [p.diagnostics_analyse, findings, hp, flatMapPast_append, flatMapPast_append]
    simp

/-- Whether the main function is missing depends on the names of functions only. -/
lemma mainFindings_congr (hspan : p.span = q.span) (h : SameDeclarations p.items q.items) :
    p.mainFindings = q.mainFindings := by
  simp only [mainFindings, h.names, hspan]

/-- Items in the place of others that declare the same change nothing of what is found before them and
behind them. -/
lemma SameHeaders.exists_contributes (h : p.SameHeaders q) (hspan : p.span = q.span)
    (hp : p.items = before ++ items ++ after) (hq : q.items = before ++ others ++ after)
    (hsame : SameDeclarations (before ++ items) (before ++ others)) :
    ∃ earlier later,
      p.Contributes before items earlier (flatMapPast p.itemFindings before items) later ∧
      q.Contributes before others earlier (flatMapPast q.itemFindings before others) later := by
  have hall : SameDeclarations p.items q.items := by
    rw [hp, hq]
    exact hsame.append after
  have hq := contributes hq
  rw [← h.flatMapPast_eq (.refl []), ← h.flatMapPast_eq hsame, ← mainFindings_congr hspan hall] at hq
  exact ⟨_, _, contributes hp, hq⟩

lemma globals_analyse_congr (h : SameDeclarations p.items q.items) :
    p.analyse.globals = q.analyse.globals := by
  rw [globals_analyse, globals_analyse, h.globals]

end Program

/-! ## Another body -/

/-- A function with another body and another end. -/
def FunctionDef.withBody (f : FunctionDef) (body : Block) (stop : Position) : FunctionDef :=
  { f with body, span := { f.span with stop } }

namespace Program

section WithBody

variable {p q : Program} {before after : List Item} {f : FunctionDef} {body : Block} {stop : Position}

lemma sameDeclarations_withBody (before : List Item) (f : FunctionDef) (body : Block)
    (stop : Position) :
    SameDeclarations (before ++ [Item.function f])
      (before ++ [Item.function (f.withBody body stop)]) := by
  constructor
  · rw [Checker.globalsOf_append_function, Checker.globalsOf_append_function]
  · intro name
    rw [Checker.functionNames_append, Checker.functionNames_append]
    rfl

/-- A header does not tell of the body. -/
lemma sameHeaders_withBody (hp : p.items = before ++ .function f :: after)
    (hq : q.items = before ++ .function (f.withBody body stop) :: after) : p.SameHeaders q := by
  intro name
  rw [← Context.search_map_ofDefinition, ← Context.search_map_ofDefinition,
    Checker.functions_eq_append_cons hp, Checker.functions_eq_append_cons hq, List.map_append,
    List.map_append]
  rfl

/-- What a body adds to an entry is left out of its header. -/
lemma map_bare_recordedAt (hp : p.items = before ++ .function f :: after) :
    (p.recordedAt before f).map Signature.bare =
      (Table.ifNew (before.filterMap Item.function?) f).map Signature.ofDefinition := by
  rw [recordedAt_eq hp, List.map_map]
  exact List.map_congr_left fun g _ => g.bare_summary

lemma map_bare_recordedAt_withBody (hp : p.items = before ++ .function f :: after)
    (hq : q.items = before ++ .function (f.withBody body stop) :: after) :
    (q.recordedAt before (f.withBody body stop)).map Signature.bare =
      (p.recordedAt before f).map Signature.bare := by
  rw [map_bare_recordedAt hp, map_bare_recordedAt hq, Table.ifNew, Table.ifNew]
  by_cases hf : nameOf f ∈ (before.filterMap Item.function?).map nameOf
  · rw [if_pos hf, if_pos (show nameOf (f.withBody body stop) ∈ _ from hf)]
  · rw [if_neg hf, if_neg (show nameOf (f.withBody body stop) ∉ _ from hf)]
    rfl

end WithBody

end Program

/-- The body of a function matters to the function alone: with another body and another end, all globals,
all other functions and what is found at all other items stay the same, and so does the header of the
function. -/
theorem Program.analyse_withBody {p q : Program} {before after : List Item} {f : FunctionDef}
    {body : Block} {stop : Position} (hp : p.items = before ++ .function f :: after)
    (hq : q = p.withItems (before ++ .function (f.withBody body stop) :: after)) :
    q.analyse.globals = p.analyse.globals ∧
    (∃ earlier later,
      p.analyse.functions = earlier ++ p.recordedAt before f ++ later ∧
      q.analyse.functions = earlier ++ q.recordedAt before (f.withBody body stop) ++ later ∧
      (q.recordedAt before (f.withBody body stop)).map Signature.bare =
        (p.recordedAt before f).map Signature.bare) ∧
    ∃ earlier own own' later,
      p.Contributes before [.function f] earlier own later ∧
      q.Contributes before [.function (f.withBody body stop)] earlier own' later := by
  have hspan : p.span = q.span := by rw [hq]; rfl
  have hqitems : q.items = before ++ .function (f.withBody body stop) :: after := by rw [hq]; rfl
  have hheaders := sameHeaders_withBody hp hqitems
  have hbare := map_bare_recordedAt_withBody hp hqitems
  have hsame := sameDeclarations_withBody before f body stop
  -- the items behind see a function of the same name in both programs
  have hlater : flatMapPast Table.ifNew (before.filterMap Item.function? ++ [f.withBody body stop])
      (after.filterMap Item.function?) =
      flatMapPast Table.ifNew (before.filterMap Item.function? ++ [f])
        (after.filterMap Item.function?) :=
    Table.flatMapPast_ifNew_congr (fun name => by rw [List.map_append, List.map_append]; rfl) _
  have hp' := functions_analyse_append_cons hp
  have hq' := functions_analyse_append_cons hqitems
  rw [hlater] at hq'
  rw [List.append_cons] at hp hqitems
  have hglobals : SameDeclarations q.items p.items := by
    rw [hp, hqitems]
    exact hsame.symm.append after
  obtain ⟨earlier, later, hown, hown'⟩ := hheaders.exists_contributes hspan hp hqitems hsame
  exact ⟨globals_analyse_congr hglobals, ⟨_, _, hp', hq', hbare⟩, earlier, _, _, later, hown, hown'⟩

/-- A function that assigns to a variable, which may be a global one, and returns nothing. -/
def twice : FunctionDef where
  name := "twice"
  returns := .int
  parameters := [⟨"n", .int, .onLine 2 "sums"⟩]
  body := ⟨[.assignment ⟨"total", .assign, some (.symbol "n" (.onLine 3 "sums")), .onLine 3 "sums"⟩],
    .onLine 2 "sums"⟩
  span := ⟨⟨2, "sums"⟩, ⟨4, "sums"⟩⟩

/-- A function that declares a variable, calls itself and returns the value of a variable that it does
not declare. -/
def again : FunctionDef where
  name := "again"
  returns := .int
  parameters := []
  body := ⟨[.declaration ⟨"m", .int, false, some (.call "again" [] (.onLine 6 "sums")),
      .onLine 6 "sums"⟩,
    .returning (some (.symbol "rest" (.onLine 7 "sums"))) (.onLine 7 "sums")], .onLine 5 "sums"⟩
  span := ⟨⟨5, "sums"⟩, ⟨8, "sums"⟩⟩

/-- A program that declares a variable, defines two functions and calls them. -/
def sums : Program where
  items := [.global ⟨"total", .int, false, none, .onLine 1 "sums"⟩, .function twice, .function again,
    .function ⟨"main", .void, [],
      ⟨[.call ⟨"twice", [.call "again" [] (.onLine 10 "sums")], .onLine 10 "sums"⟩,
        .call ⟨"again", [.symbol "total" (.onLine 11 "sums")], .onLine 11 "sums"⟩], .onLine 9 "sums"⟩,
      ⟨⟨9, "sums"⟩, ⟨12, "sums"⟩⟩⟩]
  span := ⟨⟨1, "sums"⟩, ⟨12, "sums"⟩⟩

/-- The program with the body of the second function in the first. -/
def sumsWithBody : Program :=
  sums.withItems (sums.items.take 1 ++ .function (twice.withBody again.body again.span.stop) ::
    sums.items.drop 2)

/-- The other body changes what is found in the function and what is recorded of it, and nothing else. -/
theorem Program.analyse_withBody_sums :
    (sums.analyse.diagnostics ≠ sumsWithBody.analyse.diagnostics ∧
      sums.analyse.function? "twice" ≠ sumsWithBody.analyse.function? "twice") ∧
    sumsWithBody.analyse.globals = sums.analyse.globals ∧
    ∃ earlier own own' later,
      sums.Contributes (sums.items.take 1) [.function twice] earlier own later ∧
      sumsWithBody.Contributes (sums.items.take 1)
        [.function (twice.withBody again.body again.span.stop)] earlier own' later := by
  have hp : sums.items = sums.items.take 1 ++ .function twice :: sums.items.drop 2 := rfl
  have hq : sumsWithBody = sums.withItems (sums.items.take 1 ++
      .function (twice.withBody again.body again.span.stop) :: sums.items.drop 2) := rfl
  obtain ⟨hglobals, -, hdiagnostics⟩ := Program.analyse_withBody hp hq
  exact ⟨by decide, hglobals, hdiagnostics⟩

/-! ## Functions in another order -/

namespace Program

section Swap

variable {p q : Program} {before after : List Item} {f g : FunctionDef}

lemma sameDeclarations_swap (before : List Item) (f g : FunctionDef) :
    SameDeclarations (before ++ [Item.function f] ++ [Item.function g])
      (before ++ [Item.function g] ++ [Item.function f]) := by
  constructor
  · simp only [Checker.globalsOf_append_function]
  · intro name
    simp only [Checker.functionNames_append, List.mem_append, List.mem_singleton]
    exact or_right_comm

/-- Of two functions of different names, a name refers to the same one in both orders. -/
lemma find?_functions_swap (hp : p.items = before ++ .function f :: .function g :: after)
    (hne : f.name ≠ g.name) (hq : q.items = before ++ .function g :: .function f :: after)
    (name : String) :
    q.functions.find? (·.name == name) = p.functions.find? (·.name == name) := by
  have hf : ∀ items, (Item.function f :: items).filterMap Item.function? =
      f :: items.filterMap Item.function? := fun items => List.filterMap_cons_some rfl
  have hg : ∀ items, (Item.function g :: items).filterMap Item.function? =
      g :: items.filterMap Item.function? := fun items => List.filterMap_cons_some rfl
  rw [Checker.functions_eq_append_cons hp, Checker.functions_eq_append_cons hq, hf, hg,
    List.find?_append, List.find?_append]
  congr 1
  by_cases hname : f.name = name
  · have hother : g.name ≠ name := hname ▸ hne.symm
    simp [hname, hother]
  · by_cases hother : g.name = name <;> simp [hname, hother]

lemma function?_analyse_swap (hp : p.items = before ++ .function f :: .function g :: after)
    (hne : f.name ≠ g.name) (hq : q.items = before ++ .function g :: .function f :: after)
    (name : String) : q.analyse.function? name = p.analyse.function? name := by
  rw [function?_analyse, function?_analyse, find?_functions_swap hp hne hq]

/-! ### The list of functions -/

lemma recordedAt_append_function (hne : f.name ≠ g.name) :
    p.recordedAt (before ++ [Item.function f]) g = p.recordedAt before g := by
  rw [recordedAt, recordedAt]
  exact if_congr (Checker.mem_functionNames_append_of_ne hne.symm) rfl rfl

lemma functions_analyse_append_pair (hp : p.items = before ++ .function f :: .function g :: after)
    (hne : f.name ≠ g.name) :
    p.analyse.functions =
      (Table.firsts (before.filterMap Item.function?)).map FunctionDef.summary ++
        p.recordedAt before f ++ p.recordedAt before g ++
        (flatMapPast Table.ifNew (before.filterMap Item.function? ++ [f] ++ [g])
          (after.filterMap Item.function?)).map FunctionDef.summary := by
  have hfirsts : (before ++ [Item.function f]).filterMap Item.function? =
      before.filterMap Item.function? ++ [f] := by
    rw [List.filterMap_append]
    rfl
  have hpast : p.recordedAt before f =
      (flatMapPast Table.ifNew (before.filterMap Item.function?) [f]).map FunctionDef.summary := by
    rw [recordedAt_eq hp, flatMapPast_cons, flatMapPast_nil, List.append_nil]
  rw [functions_analyse_append_cons (hp.trans (List.append_cons ..)), hfirsts, Table.firsts_append,
    List.map_append, ← hpast, recordedAt_append_function hne]

lemma exists_functions_swap (hp : p.items = before ++ .function f :: .function g :: after)
    (hne : f.name ≠ g.name) (hq : q.items = before ++ .function g :: .function f :: after) :
    ∃ earlier later,
      p.analyse.functions = earlier ++ p.recordedAt before f ++ p.recordedAt before g ++ later ∧
      q.analyse.functions = earlier ++ p.recordedAt before g ++ p.recordedAt before f ++ later := by
  have hrecorded : ∀ h : FunctionDef, q.recordedAt before h = p.recordedAt before h := fun h => by
    rw [recordedAt, recordedAt, function?_analyse_swap hp hne hq]
  -- the items behind see the same names in both orders
  have hnew : flatMapPast Table.ifNew (before.filterMap Item.function? ++ [g] ++ [f])
      (after.filterMap Item.function?) =
      flatMapPast Table.ifNew (before.filterMap Item.function? ++ [f] ++ [g])
        (after.filterMap Item.function?) :=
    Table.flatMapPast_ifNew_congr (fun name => by
      simp only [List.map_append, List.mem_append]
      exact or_right_comm) _
  have hq' := functions_analyse_append_pair hq hne.symm
  rw [hnew, hrecorded, hrecorded] at hq'
  exact ⟨_, _, functions_analyse_append_pair hp hne, hq'⟩

/-! ### The findings -/

lemma itemFindings_append_function (hne : f.name ≠ g.name) :
    p.itemFindings (before ++ [.function f]) (.function g) = p.itemFindings before (.function g) :=
  SameHeaders.itemFindings_function_eq (fun _ => rfl)
    (congrArg Table.firsts (Checker.globalsOf_append_function before f))
    (Checker.mem_functionNames_append_of_ne hne.symm)

lemma contributes_pair (hp : p.items = before ++ .function f :: .function g :: after)
    (hne : f.name ≠ g.name) :
    let own := p.itemFindings before (.function f)
    let own' := p.itemFindings before (.function g)
    let earlier := flatMapPast p.itemFindings [] before
    let later := flatMapPast p.itemFindings (before ++ [Item.function f] ++ [Item.function g]) after ++
      p.mainFindings
    p.Contributes before [.function f] earlier own (own' ++ later) ∧
      p.Contributes (before ++ [Item.function f]) [.function g] (earlier ++ own) own' later := by
  intro own own' earlier later
  have hfst := contributes (hp.trans (List.append_cons ..))
  have hsnd := contributes (hp.trans ((List.append_cons ..).trans (List.append_cons ..)))
  rw [flatMapPast_cons, flatMapPast_cons, flatMapPast_nil, List.append_nil,
    itemFindings_append_function hne, List.append_assoc] at hfst
  rw [flatMapPast_append, flatMapPast_cons, flatMapPast_nil, flatMapPast_cons, flatMapPast_nil,
    List.append_nil, List.append_nil, List.nil_append, itemFindings_append_function hne] at hsnd
  exact ⟨hfst, hsnd⟩

lemma exists_contributes_swap (hspan : p.span = q.span)
    (hp : p.items = before ++ .function f :: .function g :: after) (hne : f.name ≠ g.name)
    (hq : q.items = before ++ .function g :: .function f :: after)
    (hall : SameDeclarations p.items q.items) :
    ∃ earlier own own' later : List Diagnostic,
      p.Contributes before [.function f] earlier own (own' ++ later) ∧
      p.Contributes (before ++ [Item.function f]) [.function g] (earlier ++ own) own' later ∧
      q.Contributes before [.function g] earlier own' (own ++ later) ∧
      q.Contributes (before ++ [Item.function g]) [.function f] (earlier ++ own') own later := by
  have hheaders : p.SameHeaders q := fun name => by rw [find?_functions_swap hp hne hq]
  -- all parts of what is found in one program are found in the other
  have hown : ∀ h : FunctionDef, p.itemFindings before (.function h) =
      q.itemFindings before (.function h) := fun h => hheaders.itemFindings_function_eq rfl Iff.rfl
  have hearlier := hheaders.flatMapPast_eq (.refl []) before
  have hlater := hheaders.flatMapPast_eq (sameDeclarations_swap before f g) after
  have hmain := mainFindings_congr hspan hall
  obtain ⟨hf, hg⟩ := contributes_pair hp hne
  obtain ⟨hg', hf'⟩ := contributes_pair hq hne.symm
  simp only [← hown, ← hearlier, ← hlater, ← hmain] at hf' hg'
  exact ⟨_, _, _, _, hf, hg, hg', hf'⟩

end Swap

end Program

/-- The order of functions does not matter: when neighbouring functions of different names change places,
all globals and functions stay the same, and what is found at the two functions changes places with
them. -/
theorem Program.analyse_swap {p q : Program} {before after : List Item} {f g : FunctionDef}
    (hp : p.items = before ++ .function f :: .function g :: after) (hne : f.name ≠ g.name)
    (hq : q = p.withItems (before ++ .function g :: .function f :: after)) :
    q.analyse.globals = p.analyse.globals ∧
    (∀ name, q.analyse.function? name = p.analyse.function? name) ∧
    (∃ earlier later,
      p.analyse.functions = earlier ++ p.recordedAt before f ++ p.recordedAt before g ++ later ∧
      q.analyse.functions = earlier ++ p.recordedAt before g ++ p.recordedAt before f ++ later) ∧
    ∃ earlier own own' later,
      p.Contributes before [.function f] earlier own (own' ++ later) ∧
      p.Contributes (before ++ [.function f]) [.function g] (earlier ++ own) own' later ∧
      q.Contributes before [.function g] earlier own' (own ++ later) ∧
      q.Contributes (before ++ [.function g]) [.function f] (earlier ++ own') own later := by
  have hspan : p.span = q.span := by rw [hq]; rfl
  have hqitems : q.items = before ++ .function g :: .function f :: after := by rw [hq]; rfl
  have hall : SameDeclarations p.items q.items := by
    have hsame := (sameDeclarations_swap before f g).append after
    simp only [List.append_assoc, List.cons_append, List.nil_append] at hsame
    rwa [hp, hqitems]
  exact ⟨(globals_analyse_congr hall).symm, function?_analyse_swap hp hne hqitems,
    exists_functions_swap hp hne hqitems, exists_contributes_swap hspan hp hne hqitems hall⟩

/-- The program with its first two functions the other way round. -/
def sumsSwapped : Program :=
  sums.withItems (sums.items.take 1 ++ .function again :: .function twice :: sums.items.drop 3)

/-- The lists come in another order, and what is found under a name stays the same. -/
theorem Program.analyse_swap_sums :
    (sums.analyse.functions ≠ sumsSwapped.analyse.functions ∧
      sums.analyse.diagnostics ≠ sumsSwapped.analyse.diagnostics) ∧
    (∀ name, sumsSwapped.analyse.function? name = sums.analyse.function? name) ∧
    ∃ earlier own own' later,
      sums.analyse.diagnostics = earlier ++ own ++ (own' ++ later) ∧
      sumsSwapped.analyse.diagnostics = earlier ++ own' ++ (own ++ later) := by
  have hp : sums.items =
      sums.items.take 1 ++ .function twice :: .function again :: sums.items.drop 3 := rfl
  obtain ⟨-, hnames, -, earlier, own, own', later, hf, -, hg', -⟩ :=
    Program.analyse_swap hp (by decide) (show sumsSwapped = _ from rfl)
  exact ⟨by decide, hnames, earlier, own, own', later, hf.whole, hg'.whole⟩

end LangCheck
