import LangCheck.Proofs.Analysis.Sites

/-!
# Where names are visible

A name is visible at a site if the function of the site has a parameter of this name, if its body
declares a variable of this name up to the step of the site, at any depth, or if an item before the
function declares a global of this name (`Site.visibleNames`).  Nothing else in the program counts: no
other function, no later global, and no end of a block.  The main result
(`Program.diagnostics_undeclaredVariable_eq_uses`) says that the uses of other names are found to be
undeclared, each of them once and in the order of the walk.
-/

namespace LangCheck

/-! ## Uses of variables -/

/-- A use of a variable. -/
structure Use where
  /-- The name of the variable. -/
  name : String
  /-- The line of the use. -/
  line : UInt32
deriving DecidableEq, Repr, Inhabited

/-- The report of a use of a variable that is not declared. -/
def Use.report (u : Use) : Diagnostic := ⟨u.line, .undeclaredVariable u.name⟩

/-- The use of a variable that an expression is, its parts left out. -/
def Expr.use? : Expr → Option Use
  | .symbol name span => some ⟨name, span.line⟩
  | _ => none

/-- The use of a variable that an assignment to it is. -/
def Assignment.use (a : Assignment) : Use := ⟨a.target, a.span.line⟩

/-- The uses of variables in a step, at any depth of its expression; a variable that is assigned to
comes first. -/
def Step.uses (s : Step) : List Use :=
  s.assignment?.toList.map Assignment.use ++ (nodesOf s.value?).filterMap Expr.use?

/-- The names of the variables that are visible at a site: the parameters of the function, what its body
declares up to the step itself, and the globals of the items before the function. -/
def Site.visibleNames (s : Site) : List String :=
  s.function.parameters.map (·.name) ++
    ((s.past ++ [s.step]).filterMap Step.declaration?).map (·.name) ++
    (globalsOf s.before).map (·.name)

/-! ## What is found about uses -/

/-- Whether the rule that is broken is that variables must be declared. -/
def SemanticError.isUndeclaredVariable : SemanticError → Bool
  | undeclaredVariable _ => true
  | _ => false

namespace Context

variable {Γ : Context} {name : String}

/-- The uses of variables that are not visible. -/
def invisible (Γ : Context) (us : List Use) : List Use :=
  us.filter fun u => (Γ.findVariable? u.name).isNone

lemma invisible_append (us vs : List Use) :
    Γ.invisible (us ++ vs) = Γ.invisible us ++ Γ.invisible vs :=
  List.filter_append us vs

lemma findVariable?_eq_none_iff :
    Γ.findVariable? name = none ↔
      name ∉ Γ.locals.map (·.name) ∧ name ∉ Γ.globals.map (·.name) := by
  rw [findVariable?, Option.or_eq_none_iff, Table.search_eq_none_iff, Table.search_eq_none_iff]
  rfl

end Context

/-- A variable is looked up without success exactly where its name is not visible. -/
lemma Site.findVariable?_context_eq_none_iff {p : Program} {s : Site} {name : String} :
    (s.context p).findVariable? name = none ↔ name ∉ s.visibleNames := by
  have hlocals : ((s.context p).locals.map (·.name)) =
      s.function.parameters.map (·.name) ++
        ((s.past ++ [s.step]).filterMap Step.declaration?).map (·.name) := by
    rw [List.map_filterMap]
    exact names_locals_context
  rw [Context.findVariable?_eq_none_iff, hlocals, ← not_or, ← List.mem_append]
  rfl

/-- A name is visible at a site only if the function of the site or a global before it declares it. -/
lemma Site.declared_of_mem_visibleNames {p : Program} {s : Site} (hs : s ∈ p.sites) {name : String}
    (h : name ∈ s.visibleNames) :
    name ∈ s.function.parameters.map (·.name) ∨ (∃ d, d.name = name ∧ .declare d ∈ s.function.steps) ∨
      ∃ d, d.name = name ∧ .global d ∈ s.before := by
  obtain ⟨after, rest, -, -, hsteps⟩ := Program.mem_sites_iff.1 hs
  rcases List.mem_append.1 h with h | h
  · rcases List.mem_append.1 h with h | h
    · exact Or.inl h
    · obtain ⟨d, hd, rfl⟩ := List.mem_map.1 h
      obtain ⟨step, hstep, hdeclaration⟩ := List.mem_filterMap.1 hd
      cases step with
      | declare e =>
        obtain rfl : e = d := Option.some.inj hdeclaration
        rw [hsteps, List.append_cons]
        exact Or.inr (Or.inl ⟨e, rfl, List.mem_append_left _ hstep⟩)
      | _ => cases hdeclaration
  · obtain ⟨v, hv, rfl⟩ := List.mem_map.1 h
    obtain ⟨item, hitem, hdeclared⟩ := List.mem_filterMap.1 hv
    cases item with
    | global d =>
      rw [← Option.some.inj hdeclared]
      exact Or.inr (Or.inr ⟨d, rfl, hitem⟩)
    | function f => cases hdeclared

/-- What is visible stays visible to the end of the function. -/
lemma Site.visibleNames_subset {p : Program} {s t : Site} (hs : s ∈ p.sites) (ht : t ∈ p.sites)
    (hbefore : s.before = t.before) (hfunction : s.function = t.function)
    (hpast : s.past.length ≤ t.past.length) : s.visibleNames ⊆ t.visibleNames := by
  obtain ⟨-, rest, -, -, hsteps⟩ := Program.mem_sites_iff.1 hs
  obtain ⟨-, rest', -, -, hsteps'⟩ := Program.mem_sites_iff.1 ht
  -- both sites cut the steps of the same body, and the one that comes first is a prefix of the other
  have hcut : s.past ++ [s.step] <+: t.past ++ [t.step] := by
    rw [List.append_cons] at hsteps hsteps'
    refine List.prefix_of_prefix_length_le ⟨rest, hsteps.symm⟩ ⟨rest', ?_⟩ (by simpa using hpast)
    rw [← hsteps', hfunction]
  have hdeclarations := ((hcut.filterMap Step.declaration?).map (·.name)).subset
  intro name h
  rw [Site.visibleNames, List.mem_append, List.mem_append] at h ⊢
  rw [← hbefore, ← hfunction]
  exact h.imp_left (Or.imp_right (hdeclarations ·))

section Found

variable {Γ Δ : Context}

/-- Undeclared variables are a matter of assignments and of the variables in expressions. -/
lemma Construct.dropped_of_undeclaredVariable {c : Construct}
    (h : ∀ name, c.reports (.undeclaredVariable name) = false) :
    c.Dropped SemanticError.isUndeclaredVariable := by
  intro error hreports
  cases error with
  | undeclaredVariable name => exact absurd hreports (by simp [h name])
  | _ => rfl

lemma filter_undeclared_assignmentErrors (a : Assignment) :
    ((Diagnostic.allOn a.span.line (Γ.scope.assignmentErrors a)).filter
      fun d => d.error.isUndeclaredVariable) = (Γ.invisible [a.use]).map Use.report := by
  rcases ht : Γ.findVariable? a.target with _ | v
  · simp [Scope.assignmentErrors, ht, Context.invisible, Assignment.use, Use.report,
      SemanticError.isUndeclaredVariable]
  · obtain ⟨mismatches, hsplit, hmismatch⟩ :=
      exists_assignmentErrors (Context.findVariable?_scope.trans ht)
    -- nothing that is wrong with an assignment to a declared variable is about undeclared ones
    have hdropped : ((Diagnostic.allOn a.span.line (Γ.scope.assignmentErrors a)).filter
        fun d => d.error.isUndeclaredVariable) = [] := by
      refine List.filter_eq_nil_iff.2 fun d hd => ?_
      obtain ⟨error, herror, rfl⟩ := List.mem_map.1 hd
      rw [hsplit] at herror
      rcases List.mem_append.1 herror with h | h
      · split at h
        · simp [List.mem_singleton.1 h, SemanticError.isUndeclaredVariable]
        · cases h
      · obtain ⟨received, rfl⟩ := hmismatch error h
        simp [SemanticError.isUndeclaredVariable]
    rw [hdropped]
    simp [Context.invisible, Assignment.use, ht]

/-- Of what is found at the nodes of an expression, the reports of the variables that are not visible are
about undeclared variables. -/
lemma filter_undeclared_findings (nodes : List Expr) :
    ((Γ.scope.findings nodes).filter fun d => d.error.isUndeclaredVariable) =
      (Γ.invisible (nodes.filterMap Expr.use?)).map Use.report := by
  induction nodes with
  | nil => rfl
  | cons e nodes ih =>
    rw [Scope.findings_cons, List.filter_append, ih]
    cases e with
    | symbol name span =>
      rcases hv : Γ.findVariable? name with _ | v <;>
        simp [Scope.nodeErrors, hv, Context.invisible, Expr.use?, Use.report,
          SemanticError.isUndeclaredVariable, Expr.span]
    | call callee arguments span =>
      have hcall : Construct.call.Dropped SemanticError.isUndeclaredVariable :=
        Construct.dropped_of_undeclaredVariable fun _ => rfl
      rw [hcall.filter_allOn, List.nil_append]
      · rfl
      · exact fun error herror => reports_of_mem_callErrors herror
    | _ => rfl

/-- Of what is found in a step, the reports of the uses of variables that are not visible are about
undeclared variables. -/
lemma filter_undeclared_stepFindings (f : Signature) (s : Step) :
    ((stepFindings Δ.scope Γ.scope f s).filter fun d => d.error.isUndeclaredVariable) =
      (Γ.invisible s.uses).map Use.report := by
  have htarget : (s.assignment?.toList.flatMap fun a =>
      (Diagnostic.allOn a.span.line (Γ.scope.assignmentErrors a)).filter
        fun d => d.error.isUndeclaredVariable) =
      (Γ.invisible (s.assignment?.toList.map Assignment.use)).map Use.report := by
    cases s with
    | assign a =>
      exact (List.append_nil _).trans (filter_undeclared_assignmentErrors a)
    | _ => rfl
  rw [filter_stepFindings (Construct.dropped_of_undeclaredVariable fun _ => rfl)
    (Construct.dropped_of_undeclaredVariable fun _ => rfl), htarget, filter_undeclared_findings,
    Step.uses, Context.invisible_append, List.map_append]

end Found

/-- The reports of undeclared variables are those of the uses of names that are not visible, each of them
once and in the order of the walk. -/
lemma filter_undeclared_diagnostics (p : Program) :
    (p.analyse.diagnostics.filter fun d => d.error.isUndeclaredVariable) =
      p.sites.flatMap fun s =>
        (s.step.uses.filter fun u => u.name ∉ s.visibleNames).map Use.report := by
  rw [p.filter_diagnostics_analyse]
  · congr 1
    funext s
    rw [Site.findings, Site.context, filter_undeclared_stepFindings, ← Site.context,
      Context.invisible]
    congr 2
    funext u
    rw [Bool.eq_iff_iff, Option.isNone_iff_eq_none, Site.findVariable?_context_eq_none_iff,
      decide_eq_true_iff]
  · intro c hc
    refine Construct.dropped_of_undeclaredVariable fun name => ?_
    cases c <;> first | rfl | cases hc

/-- The uses of names that are not visible are found to be undeclared, each of them once and in the order
of the walk, and nothing else is.  What is visible is declared by the function itself or by a global
before it, and it stays visible to the end of the function. -/
theorem Program.diagnostics_undeclaredVariable_eq_uses (p : Program) :
    (p.analyse.diagnostics.filter fun d => d.error.isUndeclaredVariable) =
      (p.sites.flatMap fun s =>
        (s.step.uses.filter fun u => u.name ∉ s.visibleNames).map Use.report) ∧
    (∀ s ∈ p.sites, ∀ name ∈ s.visibleNames,
      name ∈ s.function.parameters.map (·.name) ∨
        (∃ d, d.name = name ∧ .declare d ∈ s.function.steps) ∨
        ∃ d, d.name = name ∧ .global d ∈ s.before) ∧
    ∀ s ∈ p.sites, ∀ t ∈ p.sites, s.before = t.before → s.function = t.function →
      s.past.length ≤ t.past.length → s.visibleNames ⊆ t.visibleNames :=
  ⟨filter_undeclared_diagnostics p, fun _ hs _ h => Site.declared_of_mem_visibleNames hs h,
    fun _ hs _ ht => Site.visibleNames_subset hs ht⟩

/-- A function that declares a variable inside the body of an `if` and uses it behind. -/
def guarded : FunctionDef where
  name := "guarded"
  returns := .void
  parameters := [⟨"n", .int, .onLine 2 "nested"⟩]
  body := ⟨[.conditional (.symbol "n" (.onLine 3 "nested"))
      ⟨[.declaration ⟨"inner", .int, false, some (.symbol "inner" (.onLine 4 "nested")),
        .onLine 4 "nested"⟩], .onLine 3 "nested"⟩ none (.onLine 3 "nested"),
    .assignment ⟨"late", .assign, some (.symbol "inner" (.onLine 6 "nested")), .onLine 6 "nested"⟩],
    .onLine 2 "nested"⟩
  span := .onLine 2 "nested"

/-- A program with a global before and a global behind a function, whose main function uses the names
of the first one. -/
def nested : Program where
  items := [.global ⟨"early", .int, false, none, .onLine 1 "nested"⟩, .function guarded,
    .global ⟨"late", .int, false, none, .onLine 8 "nested"⟩,
    .function ⟨"main", .void, [],
      ⟨[.assignment ⟨"early", .assign, some (.symbol "n" (.onLine 10 "nested")), .onLine 10 "nested"⟩,
        .assignment ⟨"inner", .increment, none, .onLine 11 "nested"⟩], .onLine 9 "nested"⟩,
      .onLine 9 "nested"⟩]
  span := .onLine 1 "nested"

/-- A global is not visible in front of its declaration, and nothing of one function is visible in another.  What
a block declares stays visible behind it. -/
theorem Program.diagnostics_undeclaredVariable_eq_uses_nested :
    (nested.sites.flatMap fun s =>
      (s.step.uses.filter fun u => u.name ∉ s.visibleNames).map Use.report) =
      [⟨6, .undeclaredVariable "late"⟩, ⟨10, .undeclaredVariable "n"⟩,
        ⟨11, .undeclaredVariable "inner"⟩] ∧
    ∃ s ∈ nested.sites, ∃ t ∈ nested.sites, s.before = t.before ∧ s.function = t.function ∧
      s.past.length < t.past.length ∧ "inner" ∈ s.visibleNames ∧ s.visibleNames ⊆ t.visibleNames ∧
      ∃ d, d.name = "early" ∧ .global d ∈ s.before := by
  obtain ⟨huses, hdeclared, hstays⟩ := Program.diagnostics_undeclaredVariable_eq_uses nested
  let s : Site := ⟨nested.items.take 1, guarded, guarded.steps.take 2, guarded.steps.get ⟨2, by decide⟩⟩
  let t : Site := ⟨nested.items.take 1, guarded, guarded.steps.take 3, guarded.steps.get ⟨3, by decide⟩⟩
  have hs : s ∈ nested.sites :=
    Program.mem_sites_iff.2 ⟨nested.items.drop 2, guarded.steps.drop 3, rfl, by decide, rfl⟩
  have ht : t ∈ nested.sites :=
    Program.mem_sites_iff.2 ⟨nested.items.drop 2, guarded.steps.drop 4, rfl, by decide, rfl⟩
  refine ⟨huses.symm.trans (by decide), s, hs, t, ht, rfl, rfl, by decide, by decide,
    hstays s hs t ht rfl rfl (by decide), ?_⟩
  rcases hdeclared s hs "early" (by decide) with h | ⟨d, hname, hd⟩ | h
  · exact absurd h (by decide)
  · have hnames : "early" ∉ (guarded.steps.filterMap Step.declaration?).map (·.name) := by decide
    exact absurd (List.mem_map.2 ⟨d, List.mem_filterMap.2 ⟨_, hd, rfl⟩, hname⟩) hnames
  · exact h

end LangCheck
