import LangCheck.Proofs.Analysis.Context

/-!
# Typing rules

The typing rules of the language, as rules: which expressions have a type in a context, and which one
(`HasType`).  They speak of no table, no walk and no finding, and no expression that they allow has an
unknown type.  The main result (`findings_eq_nil_iff`) says that nothing is found in an expression
exactly when the rules give it a type.
-/

namespace LangCheck

namespace Ty

/-- A value of the first type may be used where one of the second is expected. -/
inductive Widens : Ty → Ty → Prop
  | refl {τ : Ty} : Widens τ τ
  | intToFloat : Widens .int .float
  | intToDouble : Widens .int .double
  | floatToDouble : Widens .float .double
  | boolToInt : Widens .bool .int

/-- Besides what may be used, what is unknown is accepted everywhere. -/
lemma accepts_iff {target source : Ty} :
    target.accepts source = true ↔ source = .unknown ∨ Widens source target := by
  constructor
  · intro h
    cases target <;> cases source <;>
      first
      | exact Or.inl rfl
      | exact Or.inr .refl
      | exact Or.inr .intToFloat
      | exact Or.inr .intToDouble
      | exact Or.inr .floatToDouble
      | exact Or.inr .boolToInt
      | exact absurd h (by decide)
  · rintro (rfl | h)
    · cases target <;> rfl
    · cases h with
      | refl => cases target <;> rfl
      | _ => rfl

lemma arithmetic_ne_unknown (σ τ : Ty) : σ.arithmetic τ ≠ .unknown := by
  cases σ <;> cases τ <;> decide

end Ty

lemma Literal.ty_ne_unknown (value : Literal) : value.ty ≠ .unknown := by
  cases value with
  | number text =>
    simp only [Literal.ty]
    split <;> simp
  | _ => simp [Literal.ty]

mutual

/-- An expression has a type in a context: its variables are visible, and its calls are calls of
functions of the program other than the main one, with arguments that fit. -/
inductive HasType (Γ : Context) : Expr → Ty → Prop
  | literal (value : Literal) (span : Span) : HasType Γ (.literal value span) value.ty
  | symbol {name : String} {v : Variable} (span : Span) :
      Γ.findVariable? name = some v → HasType Γ (.symbol name span) v.ty
  | group {e : Expr} {τ : Ty} (span : Span) : HasType Γ e τ → HasType Γ (.group e span) τ
  | not {e : Expr} {τ : Ty} (span : Span) : HasType Γ e τ → HasType Γ (.unary .not e span) .bool
  | unary {op : UnaryOp} {e : Expr} {τ : Ty} (span : Span) :
      op ≠ .not → HasType Γ e τ → HasType Γ (.unary op e span) τ
  | truth {op : BinaryOp} {left right : Expr} {σ τ : Ty} (span : Span) :
      op.isBoolean = true → HasType Γ left σ → HasType Γ right τ →
        HasType Γ (.binary op left right span) .bool
  | arithmetic {op : BinaryOp} {left right : Expr} {σ τ : Ty} (span : Span) :
      op.isBoolean = false → HasType Γ left σ → HasType Γ right τ →
        HasType Γ (.binary op left right span) (σ.arithmetic τ)
  | call {callee : String} {f : FunctionDef} {arguments : List Expr} (span : Span) :
      callee ≠ mainName → Γ.findFunction? callee = some f →
        ArgumentsFit Γ arguments f.parameters → HasType Γ (.call callee arguments span) f.returns

/-- Arguments fit parameters: there are as many, and each has a type that may be used for the type of
its parameter. -/
inductive ArgumentsFit (Γ : Context) : List Expr → List Parameter → Prop
  | nil : ArgumentsFit Γ [] []
  | cons {e : Expr} {es : List Expr} {q : Parameter} {qs : List Parameter} {τ : Ty} :
      HasType Γ e τ → τ.Widens q.ty → ArgumentsFit Γ es qs → ArgumentsFit Γ (e :: es) (q :: qs)

end

namespace Context

/-- No type that the context declares is unknown. -/
structure Known (Γ : Context) : Prop where
  globals : ∀ v ∈ Γ.globals, v.ty ≠ .unknown
  functions : ∀ f ∈ Γ.functions, f.returns ≠ .unknown
  locals : ∀ v ∈ Γ.locals, v.ty ≠ .unknown

end Context

variable {Γ : Context} {e : Expr} {es : List Expr} {τ : Ty}

lemma ArgumentsFit.length_eq {qs : List Parameter} :
    ∀ {es : List Expr}, ArgumentsFit Γ es qs → es.length = qs.length
  | _, .nil => rfl
  | _, .cons _ _ h => by rw [List.length_cons, List.length_cons, h.length_eq]

lemma parameterTypes_ofDefinition (f : FunctionDef) :
    (Signature.ofDefinition f).parameterTypes = f.parameters.map (·.ty) := by
  simp [Signature.ofDefinition, Signature.ofHeader, Signature.parameterTypes, Function.comp_def]

lemma length_parameters_ofDefinition (f : FunctionDef) :
    (Signature.ofDefinition f).parameters.length = f.parameters.length := by
  simp [Signature.ofDefinition, Signature.ofHeader]

/-- A call with nothing wrong about itself calls a function of the program other than the main one,
with as many arguments as it has parameters. -/
lemma callErrors_eq_nil_iff {callee : String} {arguments : List Expr} :
    Γ.scope.callErrors callee arguments = [] ↔
      callee ≠ mainName ∧ ∃ f, Γ.findFunction? callee = some f ∧
        f.parameters.length = arguments.length ∧
        Γ.scope.argumentErrors callee 1 (f.parameters.map (·.ty)) arguments = [] := by
  unfold Scope.callErrors
  by_cases hmain : callee = mainName
  · simp [hmain]
  rcases hf : Γ.findFunction? callee with _ | f
  · simp [hmain, hf]
  · by_cases hlen : f.parameters.length = arguments.length <;>
      simp [hmain, hf, hlen, parameterTypes_ofDefinition, length_parameters_ofDefinition]

mutual

/-- The type that the rules give an expression is the one that the analysis gives it. -/
theorem HasType.typeOf_eq : ∀ {e : Expr} {τ : Ty}, HasType Γ e τ → Γ.scope.typeOf e = τ
  | _, _, .literal value span => rfl
  | _, _, .symbol span h => by simp [Scope.typeOf, h]
  | _, _, .group span h => by rw [Scope.typeOf, h.typeOf_eq]
  | _, _, .not span h => by simp [Scope.typeOf]
  | _, _, .unary span hop h => by rw [Scope.typeOf, if_neg hop, h.typeOf_eq]
  | _, _, .truth span hop hl hr => by rw [Scope.typeOf, if_pos hop]
  | _, _, .arithmetic span hop hl hr => by
    rw [Scope.typeOf, if_neg (by simp [hop]), hl.typeOf_eq, hr.typeOf_eq]
  | _, _, .call span hmain hf h => by
    simp [Scope.typeOf, hf, Signature.ofDefinition, Signature.ofHeader]

/-- Arguments that fit have nothing wrong about their types. -/
theorem ArgumentsFit.argumentErrors_eq_nil : ∀ {es : List Expr} {qs : List Parameter},
    ArgumentsFit Γ es qs → ∀ (callee : String) (place : ℕ),
      Γ.scope.argumentErrors callee place (qs.map (·.ty)) es = []
  | _, _, .nil, _, _ => rfl
  | _, _, .cons he hτ h, callee, place => by
    rw [List.map_cons, Scope.argumentErrors, he.typeOf_eq, if_pos (Ty.accepts_iff.2 (Or.inr hτ))]
    exact h.argumentErrors_eq_nil callee (place + 1)

end

mutual

/-- Nothing is found in an expression to which the rules give a type. -/
theorem HasType.findings_eq_nil :
    ∀ {e : Expr} {τ : Ty}, HasType Γ e τ → Γ.scope.findings e.nodes = []
  | _, _, .literal value span => by simp [Expr.nodes, Scope.findings_cons, Scope.nodeErrors]
  | _, _, .symbol span h => by simp [Expr.nodes, Scope.findings_cons, Scope.nodeErrors, h]
  | _, _, .group span h => by
    simp [Expr.nodes, Scope.findings_cons, Scope.nodeErrors, h.findings_eq_nil]
  | _, _, .not span h => by
    simp [Expr.nodes, Scope.findings_cons, Scope.nodeErrors, h.findings_eq_nil]
  | _, _, .unary span hop h => by
    simp [Expr.nodes, Scope.findings_cons, Scope.nodeErrors, h.findings_eq_nil]
  | _, _, .truth span hop hl hr => by
    simp [Expr.nodes, Scope.findings_cons, Scope.nodeErrors, hl.findings_eq_nil,
      hr.findings_eq_nil]
  | _, _, .arithmetic span hop hl hr => by
    simp [Expr.nodes, Scope.findings_cons, Scope.nodeErrors, hl.findings_eq_nil,
      hr.findings_eq_nil]
  | _, _, .call span hmain hf h => by
    have hcall := callErrors_eq_nil_iff.2
      ⟨hmain, _, hf, h.length_eq.symm, h.argumentErrors_eq_nil _ 1⟩
    simp [Expr.nodes, Scope.findings_cons, Scope.nodeErrors, hcall, h.findings_eq_nil]

/-- Nothing is found in arguments that fit. -/
theorem ArgumentsFit.findings_eq_nil :
    ∀ {es : List Expr} {qs : List Parameter}, ArgumentsFit Γ es qs →
      Γ.scope.findings (Expr.allNodes es) = []
  | _, _, .nil => rfl
  | _, _, .cons he hτ h => by
    simp [Expr.allNodes, he.findings_eq_nil, h.findings_eq_nil]

end

mutual

/-- The rules give a type to an expression in which nothing is found, and it is not unknown. -/
theorem hasType_of_findings_eq_nil (hΓ : Γ.Known) : ∀ e : Expr, Γ.scope.findings e.nodes = [] →
    HasType Γ e (Γ.scope.typeOf e) ∧ Γ.scope.typeOf e ≠ .unknown
  | .literal value span, _ => ⟨.literal value span, value.ty_ne_unknown⟩
  | .symbol name span, h => by
    rcases hv : Γ.findVariable? name with _ | v
    · simp [Expr.nodes, Scope.findings_cons, Scope.nodeErrors, hv] at h
    · have hty : Γ.scope.typeOf (.symbol name span) = v.ty := by simp [Scope.typeOf, hv]
      rw [hty]
      refine ⟨.symbol span hv, ?_⟩
      rcases Context.mem_of_findVariable? hv with hmem | hmem
      · exact hΓ.locals v hmem
      · exact hΓ.globals v hmem
  | .group inner span, h => by
    have hinner : Γ.scope.findings inner.nodes = [] := by
      simpa [Expr.nodes, Scope.findings_cons, Scope.nodeErrors] using h
    obtain ⟨ht, hne⟩ := hasType_of_findings_eq_nil hΓ inner hinner
    exact ⟨.group span ht, hne⟩
  | .unary op operand span, h => by
    have hoperand : Γ.scope.findings operand.nodes = [] := by
      simpa [Expr.nodes, Scope.findings_cons, Scope.nodeErrors] using h
    obtain ⟨ht, hne⟩ := hasType_of_findings_eq_nil hΓ operand hoperand
    by_cases hop : op = .not
    · subst hop
      exact ⟨.not span ht, by simp [Scope.typeOf]⟩
    · rw [Scope.typeOf, if_neg hop]
      exact ⟨.unary span hop ht, hne⟩
  | .binary op left right span, h => by
    obtain ⟨hleft, hright⟩ : Γ.scope.findings left.nodes = [] ∧
        Γ.scope.findings right.nodes = [] := by
      simpa [Expr.nodes, Scope.findings_cons, Scope.nodeErrors] using h
    -- the type of an operation is known whatever those of its operands are
    have hl := (hasType_of_findings_eq_nil hΓ left hleft).1
    have hr := (hasType_of_findings_eq_nil hΓ right hright).1
    by_cases hop : op.isBoolean = true
    · rw [Scope.typeOf, if_pos hop]
      exact ⟨.truth span hop hl hr, by simp⟩
    · rw [Scope.typeOf, if_neg hop]
      exact ⟨.arithmetic span (by simpa using hop) hl hr, Ty.arithmetic_ne_unknown _ _⟩
  | .call callee arguments span, h => by
    obtain ⟨hcall, harguments⟩ : Γ.scope.callErrors callee arguments = [] ∧
        Γ.scope.findings (Expr.allNodes arguments) = [] := by
      simpa [Expr.nodes, Scope.findings_cons, Scope.nodeErrors] using h
    obtain ⟨hmain, f, hf, hlen, herrors⟩ := callErrors_eq_nil_iff.1 hcall
    have hty : Γ.scope.typeOf (.call callee arguments span) = f.returns := by
      simp [Scope.typeOf, hf, Signature.ofDefinition, Signature.ofHeader]
    rw [hty]
    refine ⟨.call span hmain hf ?_, hΓ.functions f (Context.mem_of_findFunction? hf)⟩
    exact argumentsFit_of_findings_eq_nil hΓ arguments f.parameters 1 hlen harguments herrors

/-- Arguments fit if there are as many as parameters, nothing is found in them and nothing is wrong
about their types. -/
theorem argumentsFit_of_findings_eq_nil (hΓ : Γ.Known) {callee : String} :
    ∀ (es : List Expr) (qs : List Parameter) (place : ℕ), qs.length = es.length →
      Γ.scope.findings (Expr.allNodes es) = [] →
      Γ.scope.argumentErrors callee place (qs.map (·.ty)) es = [] → ArgumentsFit Γ es qs
  | [], [], _, _, _, _ => .nil
  | [], _ :: _, _, hlen, _, _ => by simp at hlen
  | _ :: _, [], _, hlen, _, _ => by simp at hlen
  | e :: es, q :: qs, place, hlen, hfindings, herrors => by
    obtain ⟨he, hes⟩ : Γ.scope.findings e.nodes = [] ∧
        Γ.scope.findings (Expr.allNodes es) = [] := by
      simpa [Expr.allNodes] using hfindings
    obtain ⟨ht, hne⟩ := hasType_of_findings_eq_nil hΓ e he
    rw [List.map_cons, Scope.argumentErrors] at herrors
    by_cases hacc : q.ty.accepts (Γ.scope.typeOf e) = true
    · rw [if_pos hacc] at herrors
      have hwidens := (Ty.accepts_iff.1 hacc).resolve_left hne
      exact .cons ht hwidens
        (argumentsFit_of_findings_eq_nil hΓ es qs (place + 1) (by simpa using hlen) hes herrors)
    · rw [if_neg hacc] at herrors
      exact absurd herrors (by simp)

end

/-- Nothing is found in an expression exactly when the rules give it a type. -/
theorem findings_eq_nil_iff (hΓ : Γ.Known) : Γ.scope.findings e.nodes = [] ↔ ∃ τ, HasType Γ e τ :=
  ⟨fun h => ⟨_, (hasType_of_findings_eq_nil hΓ e h).1⟩, fun ⟨_, h⟩ => h.findings_eq_nil⟩

end LangCheck
