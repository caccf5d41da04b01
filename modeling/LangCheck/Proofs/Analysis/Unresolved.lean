import LangCheck.Proofs.Analysis.Record
import LangCheck.Proofs.Analysis.Sites
import LangCheck.Proofs.Grammar.Bodies

/-!
# Unknown types are reported

An expression whose type is unknown is accepted everywhere, on the promise that its cause is reported by
itself.  The promise ties two recursions together: the one that finds the type of an expression, and the
walk that looks at its names.  The main result (`Walk.unknown_reported`) says that it is kept: where a type
is unknown the walk finds a name that cannot be resolved, and so no type is unknown where the analysis of a
program finds nothing.
-/

namespace LangCheck

/-- The rules about names that cannot be resolved: a variable or a function that does not exist, or the main
function, which cannot be called. -/
def SemanticError.isUnresolved : SemanticError → Bool
  | undeclaredVariable _ | undefinedFunction _ | mainCalled => true
  | _ => false

/-- No variable that is visible has an unknown type, and no function yields a value of one. -/
structure Scope.Known (s : Scope) : Prop where
  globals : ∀ v ∈ s.globals.toList, v.ty ≠ .unknown
  functions : ∀ f ∈ s.functions.toList, f.returns ≠ .unknown
  locals : ∀ t ∈ s.locals, ∀ v ∈ t.toList, v.ty ≠ .unknown

lemma Table.mem_of_find? {α : Type} {t : Table α} {name : String} {x : α}
    (h : t.find? name = some x) : x ∈ t.toList := by
  obtain ⟨place, -, hx⟩ := Option.bind_eq_some_iff.1 h
  exact Array.mem_toList_iff.2 (Array.mem_of_getElem? hx)

/-! ## Where a type is unknown -/

namespace Scope

variable {s : Scope} {name : String}

lemma Known.variable (hs : s.Known) {v : Variable} (h : s.findVariable? name = some v) :
    v.ty ≠ .unknown := by
  rcases Option.or_eq_some_iff.1 h with h | ⟨-, h⟩
  · obtain ⟨t, ht, hv⟩ := Option.bind_eq_some_iff.1 h
    exact hs.locals t ht v (Table.mem_of_find? hv)
  · exact hs.globals v (Table.mem_of_find? h)

/-- If the type of an expression is unknown, something at one of its nodes cannot be resolved. -/
theorem exists_unresolved_of_typeOf (hs : s.Known) : ∀ e : Expr, s.typeOf e = .unknown →
    ∃ n ∈ e.nodes, ∃ error ∈ s.nodeErrors n, error.isUnresolved = true
  | .binary op left right span, h => by
    -- an operation has a type whatever its operands are
    rw [typeOf] at h
    split at h
    · cases h
    · exact absurd h (Ty.arithmetic_ne_unknown _ _)
  | .unary op operand span, h => by
    rw [typeOf] at h
    split at h
    · cases h
    · obtain ⟨n, hn, hunresolved⟩ := exists_unresolved_of_typeOf hs operand h
      exact ⟨n, List.mem_cons_of_mem _ hn, hunresolved⟩
  | .literal value span, h => absurd h value.ty_ne_unknown
  | .symbol name span, h => by
    rcases hv : s.findVariable? name with _ | v
    · exact ⟨_, List.mem_cons_self, .undeclaredVariable name, by simp [nodeErrors, hv], rfl⟩
    · rw [typeOf, hv] at h
      exact absurd h (hs.variable hv)
  | .call callee arguments span, h => by
    rcases hf : s.findFunction? callee with _ | f
    · refine ⟨_, List.mem_cons_self, ?_⟩
      rw [nodeErrors, callErrors, hf]
      split
      · exact ⟨_, List.mem_singleton_self _, rfl⟩
      · exact ⟨_, List.mem_singleton_self _, rfl⟩
    · rw [typeOf, hf] at h
      exact absurd h (hs.functions f (Table.mem_of_find? hf))
  | .group inner span, h => by
    rw [typeOf] at h
    obtain ⟨n, hn, hunresolved⟩ := exists_unresolved_of_typeOf hs inner h
    exact ⟨n, List.mem_cons_of_mem _ hn, hunresolved⟩

/-- So something is found there that cannot be resolved. -/
lemma exists_mem_findings (hs : s.Known) {e : Expr} (h : s.typeOf e = .unknown) :
    ∃ d ∈ s.findings e.nodes, d.error.isUnresolved = true := by
  obtain ⟨n, hn, error, herror, hunresolved⟩ := exists_unresolved_of_typeOf hs e h
  exact ⟨⟨n.span.line, error⟩, List.mem_flatMap.2 ⟨n, hn, List.mem_map_of_mem herror⟩, hunresolved⟩

end Scope

/-! ## The nodes of a node -/

namespace Expr

mutual

/-- The parts of a part of an expression are parts of the expression. -/
theorem nodes_subset : ∀ {e n : Expr}, n ∈ e.nodes → n.nodes ⊆ e.nodes
  | .binary op left right span, n, hn => by
    rw [nodes, List.mem_cons, List.mem_append] at hn
    rcases hn with rfl | hn | hn
    · exact List.Subset.refl _
    · rw [nodes]
      exact fun x hx => List.mem_cons_of_mem _ (List.mem_append_left _ (nodes_subset hn hx))
    · rw [nodes]
      exact fun x hx => List.mem_cons_of_mem _ (List.mem_append_right _ (nodes_subset hn hx))
  | .unary op operand span, n, hn => by
    rw [nodes, List.mem_cons] at hn
    rcases hn with rfl | hn
    · exact List.Subset.refl _
    · rw [nodes]
      exact fun x hx => List.mem_cons_of_mem _ (nodes_subset hn hx)
  | .literal _ _, n, hn | .symbol _ _, n, hn => by
    rw [nodes, List.mem_singleton] at hn
    rw [hn]
    exact List.Subset.refl _
  | .call callee arguments span, n, hn => by
    rw [nodes, List.mem_cons] at hn
    rcases hn with rfl | hn
    · exact List.Subset.refl _
    · rw [nodes]
      exact fun x hx => List.mem_cons_of_mem _ (allNodes_subset hn hx)
  | .group inner span, n, hn => by
    rw [nodes, List.mem_cons] at hn
    rcases hn with rfl | hn
    · exact List.Subset.refl _
    · rw [nodes]
      exact fun x hx => List.mem_cons_of_mem _ (nodes_subset hn hx)

theorem allNodes_subset : ∀ {es : List Expr} {n : Expr}, n ∈ allNodes es → n.nodes ⊆ allNodes es
  | [], n, hn => by
    rw [allNodes] at hn
    cases hn
  | e :: es, n, hn => by
    rw [allNodes, List.mem_append] at hn
    rw [allNodes]
    rcases hn with hn | hn
    · exact fun x hx => List.mem_append_left _ (nodes_subset hn hx)
    · exact fun x hx => List.mem_append_right _ (allNodes_subset hn hx)

end

end Expr

/-! ## The point at which an expression is looked at -/

namespace Walk

/-- What a step does before the walk goes through its expression. -/
def beforeValue (w : Walk) : Step → Walk
  | .declare d =>
    match w.frame with
    | none => w
    | some f =>
      let w := w.declare f d
      w.reportAll d.span.line (w.scope.initializerErrors d)
  | .assign a => w.reportAll a.span.line (w.scope.assignmentErrors a)
  | .evaluate _ => w
  | .control word line => w.control word line
  | .returning value line =>
    match w.frame with
    | none => w.report line .returnOutsideFunction
    | some f => w.reportAll line (w.scope.returnErrors f.signature value)

/-- Inside a function, the expression of a step is what the walk goes through last. -/
lemma step_eq_expression? {w : Walk} (hframe : w.frame.isSome = true) (s : Step) :
    w.step s = (w.beforeValue s).expression? s.value? := by
  obtain ⟨f, hf⟩ := Option.isSome_iff_exists.1 hframe
  cases s with
  | declare d => simp only [step, declaration, beforeValue, hf, Step.value?]
  | returning value line => simp only [step, returning, beforeValue, hf, Step.value?]
  | _ => rfl

/-- The walk through an expression changes nothing that is visible. -/
lemma scope_expression? (w : Walk) (e : Option Expr) : (w.expression? e).scope = w.scope := by
  rw [expression?_eq, visit, scope_record, scope_found]

end Walk

/-- The walk at a site, when it comes to the expression of the step. -/
def Site.walk (s : Site) (p : Program) : Walk :=
  (s.past.foldl Walk.step ((p.stateAfter s.before).enter s.function)).beforeValue s.step

section Sites

variable {p : Program} {s : Site}

/-- What is visible when the walk comes to the expression of a step is what the declarations up to the step
itself make visible. -/
lemma Site.scope_walk (hs : s ∈ p.sites) :
    (s.walk p).scope = (p.stateAfter s.before).scopeIn
      ((s.past ++ [s.step]).foldl Frame.after
        (Checker.startFrame (.ofDefinition s.function) s.function)) := by
  obtain ⟨after, rest, hp, hname, -⟩ := Program.mem_sites_iff.1 hs
  have hheader := (Checker.recorded_stateAfter hp).find?_of_not_mem hp hname
  have hwalk := fun steps => Walk.foldl_step_eq (((p.stateAfter s.before).entered s.function).found
    (s.function.headFindings ++ flatMapPast parameterFindings [] s.function.parameters))
    (Checker.startFrame (.ofDefinition s.function) s.function) steps []
  simp only [List.foldl_nil, ← Checker.enter_eq hheader rfl, List.nil_append] at hwalk
  have hframe : (s.past.foldl Walk.step ((p.stateAfter s.before).enter s.function)).frame.isSome := by
    rw [hwalk]
    rfl
  rw [Site.walk, ← Walk.scope_expression? _ s.step.value?, ← Walk.step_eq_expression? hframe,
    ← List.foldl_concat Walk.step, hwalk]
  rfl

lemma Site.alike_walk (hs : s ∈ p.sites) : (s.walk p).scope.Alike (s.context p).scope := by
  obtain ⟨after, rest, hp, -, -⟩ := Program.mem_sites_iff.1 hs
  rw [scope_walk hs]
  exact (Checker.recorded_stateAfter hp).toReached.alike s.function _ _ rfl

/-- In the analysis of an annotated program nothing that is visible has an unknown type. -/
lemma Site.known_walk (hp : p.Annotated) (hs : s ∈ p.sites) : (s.walk p).scope.Known := by
  obtain ⟨after, rest, hitems, -, hsteps⟩ := Program.mem_sites_iff.1 hs
  have hrecorded := Checker.recorded_stateAfter hitems
  have hΓ : (s.context p).Known := hp.known hitems fun step hstep => by
    rw [hsteps, List.append_cons]
    exact List.mem_append_left rest hstep
  refine ⟨fun v hv => ?_, fun f hf => ?_, fun t ht v hv => ?_⟩
  · rw [scope_walk hs] at hv
    change v ∈ (p.stateAfter s.before).tables.globals.toList at hv
    rw [hrecorded.globals, Table.toList_ofList] at hv
    exact hΓ.globals v (Table.mem_of_search (Table.search_of_mem_firsts hv))
  · rw [scope_walk hs] at hf
    change f ∈ (p.stateAfter s.before).tables.functions.toList at hf
    rw [hrecorded.functions] at hf
    obtain ⟨g, hg, rfl⟩ := List.mem_map.1 hf
    have hreturns : (g.entry s.before).returns = g.returns :=
      congrArg Signature.returns (g.bare_entry s.before)
    rw [hreturns]
    exact hp.returns g (Table.mem_of_search (Table.search_of_mem_firsts hg))
  · rw [(alike_walk hs).sameLocals] at ht
    obtain rfl : Table.ofList (s.context p).locals = t := Option.some.inj ht
    rw [Table.toList_ofList] at hv
    exact hΓ.locals v (Table.mem_of_search (Table.search_of_mem_firsts hv))

/-- Where a type is unknown in the body of a function, a name that cannot be resolved is reported. -/
lemma Site.exists_mem_diagnostics (hp : p.Annotated) (hs : s ∈ p.sites) {e : Expr}
    (he : e ∈ nodesOf s.step.value?) (h : (s.walk p).scope.typeOf e = .unknown) :
    ∃ d ∈ p.analyse.diagnostics, d.error.isUnresolved = true := by
  obtain ⟨d, hd, hunresolved⟩ := Scope.exists_mem_findings (known_walk hp hs) h
  refine ⟨d, Program.mem_diagnostics_of_mem_findings hs ?_, hunresolved⟩
  obtain ⟨value, hvalue, hmem⟩ := List.mem_flatMap.1 he
  have hsubset : e.nodes ⊆ nodesOf s.step.value? := fun x hx =>
    List.mem_flatMap.2 ⟨value, hvalue, Expr.nodes_subset hmem hx⟩
  rw [(alike_walk hs).findings_eq] at hd
  obtain ⟨n, hn, hd⟩ := List.mem_flatMap.1 hd
  exact List.mem_append_right _ (List.mem_flatMap.2 ⟨n, hsubset hn, hd⟩)

end Sites

/-- Unknown types are reported.  In a state in which no declared type is unknown, the walk through an
expression of unknown type reports a name that cannot be resolved.  No other state occurs in the analysis
of an annotated program: if nothing is found in the program, every part of an expression in the body of a
function has a type at the point where it is looked at.  Programs that are read from tokens are
annotated. -/
theorem Walk.unknown_reported :
    (∀ (w : Walk) (e : Expr), w.scope.Known → w.scope.typeOf e = .unknown →
      ∃ ds, (w.expression e).checker.diagnostics = w.checker.diagnostics ++ ds ∧
        ∃ d ∈ ds, d.error.isUnresolved = true) ∧
    (∀ p : Program, p.Annotated → ∀ s ∈ p.sites, (s.walk p).scope.Known ∧
      (p.analyse.hasErrors = false →
        ∀ e ∈ nodesOf s.step.value?, (s.walk p).scope.typeOf e ≠ .unknown)) ∧
    ∀ (ts : List Token) (file : String) (p : Program), Program.ofTokens ts file = .ok p →
      p.Annotated := by
  refine ⟨fun w e hw h => ?_, fun p hp s hs => ⟨Site.known_walk hp hs, fun hnone e he h => ?_⟩,
    fun ts file p => Program.annotated_of_ofTokens⟩
  · refine ⟨w.scope.findings e.nodes, ?_, Scope.exists_mem_findings hw h⟩
    rw [Walk.expression_eq]
    rfl
  · obtain ⟨d, hd, -⟩ := Site.exists_mem_diagnostics hp hs he h
    have hnil : p.analyse.diagnostics = [] := by simpa [Analysis.hasErrors] using hnone
    rw [hnil] at hd
    cases hd

/-- A step outside functions, in a state in which nothing is declared. -/
def nowhere : Walk := ⟨.empty, none⟩

/-- A main function that calls a later function with its local variable. -/
def forward : Program where
  items := [
    .function ⟨"main", .void, [],
      ⟨[.declaration ⟨"x", .int, false, some (.literal (.number "1") default), default⟩,
        .call ⟨"show", [.symbol "x" default], default⟩], default⟩, default⟩,
    .function ⟨"show", .void, [⟨"x", .double, default⟩], ⟨[], default⟩, default⟩]
  span := default

/-- The main function is reported where it is called, and where nothing is found all types are known. -/
theorem Walk.unknown_reported_forward :
    (∃ ds, (nowhere.expression (.call mainName [] default)).checker.diagnostics =
        nowhere.checker.diagnostics ++ ds ∧ ∃ d ∈ ds, d.error.isUnresolved = true) ∧
    (forward.sites.length = 2 ∧ forward.analyse.hasErrors = false ∧
      ∀ s ∈ forward.sites, ∀ e ∈ nodesOf s.step.value?,
        (s.walk forward).scope.typeOf e ≠ .unknown) ∧
    ∃ p, Program.ofTokens (forward.unparse .braced ++ [.word .endOfInput]) "" = .ok p ∧
      p.Annotated := by
  obtain ⟨hreported, hsites, hread⟩ := Walk.unknown_reported
  have hknown : nowhere.scope.Known :=
    ⟨by decide, by decide, by simp [nowhere, Walk.scope, SymbolTables.scope]⟩
  have hannotated : forward.Annotated := by
    constructor
    · intro d hd
      simp [forward] at hd
    all_goals decide
  have herrors : forward.analyse.hasErrors = false := by decide
  have hcanonical : forward.Canonical := by
    simp [Program.Canonical, forward, Item.Canonical, Stmt.AllCanonical, Stmt.Canonical,
      VarDecl.Canonical, Call.toExpr, Expr.Canonical, Expr.AllCanonical]
  have hend : (Token.word .endOfInput).kind = .endOfInput := rfl
  obtain ⟨p, hp, -⟩ := Program.ofTokens_of_spelled "" hcanonical
    (Program.unparse_spelled .braced hcanonical) hend
  exact ⟨hreported nowhere _ hknown (by decide), ⟨by decide, herrors,
    fun s hs => (hsites forward hannotated s hs).2 herrors⟩, p, hp, hread _ _ p hp⟩

end LangCheck
