import LangCheck.Proofs.Analysis.Declarations

/-!
# Which functions call themselves

Where a call may stand is told by the trees alone: `Expr.Calls` goes to the parts of an expression and
`Stmt.Calls` to the expressions and the blocks of a statement.  Neither asks whether the call fits the
function that it calls.  The main result (`Program.isRecursive_iff`) is that the analysis marks a function
as recursive exactly when its name is not that of the main function and a statement in the body of its
first definition calls it in this sense.
-/

namespace LangCheck

/-! ## Calls in an expression -/

namespace Expr

/-- An expression calls a function: it is a call of it, whatever it is applied to, or one of its parts
calls it. -/
inductive Calls (name : String) : Expr → Prop
  | call (arguments : List Expr) (span : Span) : Calls name (.call name arguments span)
  | argument {callee : String} {arguments : List Expr} {span : Span} {e : Expr} :
    e ∈ arguments → Calls name e → Calls name (.call callee arguments span)
  | left {op : BinaryOp} {l r : Expr} {span : Span} : Calls name l → Calls name (.binary op l r span)
  | right {op : BinaryOp} {l r : Expr} {span : Span} : Calls name r → Calls name (.binary op l r span)
  | operand {op : UnaryOp} {e : Expr} {span : Span} : Calls name e → Calls name (.unary op e span)
  | inner {e : Expr} {span : Span} : Calls name e → Calls name (.group e span)

variable {name : String} {e x : Expr}

lemma mem_allNodes {es : List Expr} (he : e ∈ es) (hx : x ∈ e.nodes) : x ∈ allNodes es := by
  induction he with
  | head es => exact List.mem_append_left _ hx
  | tail e' _ ih => exact List.mem_append_right _ ih

lemma isCallOf_iff : x.isCallOf name = true ↔ ∃ arguments span, x = .call name arguments span := by
  cases x <;> simp [isCallOf]

mutual

/-- A call among the nodes of an expression is a call in it. -/
lemma calls_of_mem_nodes (hx : x.isCallOf name = true) : ∀ e : Expr, x ∈ e.nodes → e.Calls name
  | .binary op l r span, h => by
    rcases List.mem_cons.1 h with rfl | h
    · cases hx
    · rcases List.mem_append.1 h with h | h
      · exact .left (calls_of_mem_nodes hx l h)
      · exact .right (calls_of_mem_nodes hx r h)
  | .unary op operand span, h => by
    rcases List.mem_cons.1 h with rfl | h
    · cases hx
    · exact .operand (calls_of_mem_nodes hx operand h)
  | .literal value span, h | .symbol _ span, h => by
    rw [List.mem_singleton.1 h] at hx
    cases hx
  | .call callee arguments span, h => by
    rcases List.mem_cons.1 h with rfl | h
    · obtain ⟨_, _, ⟨⟩⟩ := isCallOf_iff.1 hx
      exact .call arguments span
    · obtain ⟨e, he, hcalls⟩ := exists_calls_of_mem_allNodes hx arguments h
      exact .argument he hcalls
  | .group inner span, h => by
    rcases List.mem_cons.1 h with rfl | h
    · cases hx
    · exact .inner (calls_of_mem_nodes hx inner h)

lemma exists_calls_of_mem_allNodes (hx : x.isCallOf name = true) :
    ∀ es : List Expr, x ∈ allNodes es → ∃ e ∈ es, e.Calls name
  | [], h => nomatch h
  | e :: es, h => by
    rcases List.mem_append.1 h with h | h
    · exact ⟨e, List.mem_cons_self, calls_of_mem_nodes hx e h⟩
    · obtain ⟨e', he', hcalls⟩ := exists_calls_of_mem_allNodes hx es h
      exact ⟨e', List.mem_cons_of_mem _ he', hcalls⟩

end

/-- An expression calls a function if and only if one of its nodes is a call of it. -/
lemma calls_iff : e.Calls name ↔ ∃ x ∈ e.nodes, x.isCallOf name = true := by
  constructor
  · intro h
    induction h with
    | call arguments span => exact ⟨_, List.mem_cons_self, by simp [isCallOf]⟩
    | argument he _ ih =>
      obtain ⟨x, hx, hcall⟩ := ih
      exact ⟨x, List.mem_cons_of_mem _ (mem_allNodes he hx), hcall⟩
    | left _ ih =>
      obtain ⟨x, hx, hcall⟩ := ih
      exact ⟨x, List.mem_cons_of_mem _ (List.mem_append_left _ hx), hcall⟩
    | right _ ih =>
      obtain ⟨x, hx, hcall⟩ := ih
      exact ⟨x, List.mem_cons_of_mem _ (List.mem_append_right _ hx), hcall⟩
    | operand _ ih | inner _ ih =>
      obtain ⟨x, hx, hcall⟩ := ih
      exact ⟨x, List.mem_cons_of_mem _ hx, hcall⟩
  · rintro ⟨x, hx, hcall⟩
    exact calls_of_mem_nodes hcall e hx

end Expr

/-! ## Calls in a statement -/

namespace Stmt

/-- A statement calls a function: one of its expressions does, or a statement inside of it. -/
inductive Calls (name : String) : Stmt → Prop
  | initialiser {d : VarDecl} {e : Expr} : d.value = some e → e.Calls name → Calls name (.declaration d)
  | assigned {a : Assignment} {e : Expr} : a.value = some e → e.Calls name → Calls name (.assignment a)
  | call {c : Call} : c.toExpr.Calls name → Calls name (.call c)
  | returned {e : Expr} {span : Span} : e.Calls name → Calls name (.returning (some e) span)
  | ifCondition {condition : Expr} {thenBlock : Block} {elseBlock : Option Block} {span : Span} :
    condition.Calls name → Calls name (.conditional condition thenBlock elseBlock span)
  | thenBlock {condition : Expr} {thenBlock : Block} {elseBlock : Option Block} {span : Span} {s : Stmt} :
    s ∈ thenBlock.body → Calls name s → Calls name (.conditional condition thenBlock elseBlock span)
  | elseBlock {condition : Expr} {thenBlock elseBlock : Block} {span : Span} {s : Stmt} :
    s ∈ elseBlock.body → Calls name s →
      Calls name (.conditional condition thenBlock (some elseBlock) span)
  | whileCondition {condition : Expr} {body : Block} {span : Span} :
    condition.Calls name → Calls name (.whileLoop condition body span)
  | whileBody {condition : Expr} {body : Block} {span : Span} {s : Stmt} :
    s ∈ body.body → Calls name s → Calls name (.whileLoop condition body span)
  | forInit {init : Stmt} {condition : Option Expr} {update : Option Stmt} {body : Block} {span : Span} :
    Calls name init → Calls name (.forLoop (some init) condition update body span)
  | forCondition {init : Option Stmt} {condition : Expr} {update : Option Stmt} {body : Block}
      {span : Span} :
    condition.Calls name → Calls name (.forLoop init (some condition) update body span)
  | forUpdate {init : Option Stmt} {condition : Option Expr} {update : Stmt} {body : Block}
      {span : Span} :
    Calls name update → Calls name (.forLoop init condition (some update) body span)
  | forBody {init : Option Stmt} {condition : Option Expr} {update : Option Stmt} {body : Block}
      {span : Span} {s : Stmt} :
    s ∈ body.body → Calls name s → Calls name (.forLoop init condition update body span)

end Stmt

/-- A step of the walk through a body looks at an expression that calls a function. -/
def Step.Calls (name : String) (s : Step) : Prop := ∃ e, s.value? = some e ∧ e.Calls name

section

variable {name : String}

@[simp] lemma Step.calls_evaluate {e : Expr} : (Step.evaluate e).Calls name ↔ e.Calls name := by
  simp [Step.Calls, Step.value?]

@[simp] lemma Step.not_calls_control {word : String} {line : UInt32} :
    ¬ (Step.control word line).Calls name := by
  simp [Step.Calls, Step.value?]

namespace Stmt

/-! What the parts of each statement are, as far as calls are concerned. -/

lemma calls_declaration_iff {d : VarDecl} :
    Calls name (.declaration d) ↔ (Step.declare d).Calls name := by
  constructor
  · intro h
    cases h with
    | initialiser he h => exact ⟨_, he, h⟩
  · rintro ⟨e, he, h⟩
    exact .initialiser he h

lemma calls_assignment_iff {a : Assignment} :
    Calls name (.assignment a) ↔ (Step.assign a).Calls name := by
  constructor
  · intro h
    cases h with
    | assigned he h => exact ⟨_, he, h⟩
  · rintro ⟨e, he, h⟩
    exact .assigned he h

lemma calls_call_iff {c : Call} : Calls name (.call c) ↔ c.toExpr.Calls name :=
  ⟨fun | .call h => h, .call⟩

lemma calls_returning_iff {value : Option Expr} {span : Span} :
    Calls name (.returning value span) ↔ (Step.returning value span.line).Calls name := by
  constructor
  · intro h
    cases h with
    | returned h => exact ⟨_, rfl, h⟩
  · rintro ⟨e, he, h⟩
    rw [show value = some e from he]
    exact .returned h

lemma calls_conditional_iff {condition : Expr} {thenBlock : Block} {elseBlock : Option Block}
    {span : Span} :
    Calls name (.conditional condition thenBlock elseBlock span) ↔
      condition.Calls name ∨ (∃ s ∈ thenBlock.body, Calls name s) ∨
        ∃ b, elseBlock = some b ∧ ∃ s ∈ b.body, Calls name s := by
  constructor
  · intro h
    cases h with
    | ifCondition h => exact .inl h
    | thenBlock hs h => exact .inr (.inl ⟨_, hs, h⟩)
    | elseBlock hs h => exact .inr (.inr ⟨_, rfl, _, hs, h⟩)
  · rintro (h | ⟨s, hs, h⟩ | ⟨b, rfl, s, hs, h⟩)
    · exact .ifCondition h
    · exact .thenBlock hs h
    · exact .elseBlock hs h

lemma calls_whileLoop_iff {condition : Expr} {body : Block} {span : Span} :
    Calls name (.whileLoop condition body span) ↔
      condition.Calls name ∨ ∃ s ∈ body.body, Calls name s := by
  constructor
  · intro h
    cases h with
    | whileCondition h => exact .inl h
    | whileBody hs h => exact .inr ⟨_, hs, h⟩
  · rintro (h | ⟨s, hs, h⟩)
    · exact .whileCondition h
    · exact .whileBody hs h

lemma calls_forLoop_iff {init : Option Stmt} {condition : Option Expr} {update : Option Stmt}
    {body : Block} {span : Span} :
    Calls name (.forLoop init condition update body span) ↔
      (∃ s, init = some s ∧ Calls name s) ∨ (∃ e, condition = some e ∧ e.Calls name) ∨
        (∃ s, update = some s ∧ Calls name s) ∨ ∃ s ∈ body.body, Calls name s := by
  constructor
  · intro h
    cases h with
    | forInit h => exact .inl ⟨_, rfl, h⟩
    | forCondition h => exact .inr (.inl ⟨_, rfl, h⟩)
    | forUpdate h => exact .inr (.inr (.inl ⟨_, rfl, h⟩))
    | forBody hs h => exact .inr (.inr (.inr ⟨_, hs, h⟩))
  · rintro (⟨s, rfl, h⟩ | ⟨e, rfl, h⟩ | ⟨s, rfl, h⟩ | ⟨s, hs, h⟩)
    · exact .forInit h
    · exact .forCondition h
    · exact .forUpdate h
    · exact .forBody hs h

mutual

/-- A statement calls a function if and only if one of its steps looks at a call of it. -/
lemma exists_calls_steps_iff : ∀ s : Stmt, (∃ step ∈ s.steps, step.Calls name) ↔ s.Calls name
  | .declaration _ => by simp [steps, calls_declaration_iff]
  | .assignment _ => by simp [steps, calls_assignment_iff]
  | .call _ => by simp [steps, calls_call_iff]
  | .returning _ _ => by simp [steps, calls_returning_iff]
  | .conditional _ ⟨thenBody, _⟩ none _ => by
    simp [steps, calls_conditional_iff, exists_calls_allSteps_iff thenBody]
  | .conditional _ ⟨thenBody, _⟩ (some ⟨elseBody, _⟩) _ => by
    simp [steps, calls_conditional_iff, or_and_right, exists_or, exists_calls_allSteps_iff thenBody,
      exists_calls_allSteps_iff elseBody]
  | .whileLoop _ ⟨body, _⟩ _ => by
    simp [steps, calls_whileLoop_iff, exists_calls_allSteps_iff body]
  | .forLoop init condition update ⟨body, _⟩ _ => by
    simp [steps, calls_forLoop_iff, or_and_right, exists_or, exists_calls_steps?_iff init,
      exists_calls_steps?_iff update, exists_calls_allSteps_iff body]

lemma exists_calls_steps?_iff :
    ∀ o : Option Stmt, (∃ step ∈ steps? o, step.Calls name) ↔ ∃ s, o = some s ∧ s.Calls name
  | none => by simp [steps?]
  | some s => by simp [steps?, exists_calls_steps_iff s]

lemma exists_calls_allSteps_iff :
    ∀ ss : List Stmt, (∃ step ∈ allSteps ss, step.Calls name) ↔ ∃ s ∈ ss, s.Calls name
  | [] => by simp [allSteps]
  | s :: ss => by
    simp [allSteps, or_and_right, exists_or, exists_calls_steps_iff s, exists_calls_allSteps_iff ss]

end

end Stmt

end

/-! ## Calls in a function -/

/-- The analysis looks for the calls of a function in the nodes of all expressions of its body: it finds
one if and only if a statement of the body calls the function. -/
lemma FunctionDef.callsItself_iff (f : FunctionDef) :
    f.callsItself = true ↔ f.name ≠ mainName ∧ ∃ s ∈ f.body.body, s.Calls f.name := by
  have hnodes : (∃ x ∈ f.steps.flatMap fun s => nodesOf s.value?, x.isCallOf f.name = true) ↔
      ∃ step ∈ f.steps, step.Calls f.name := by
    simp only [List.mem_flatMap, nodesOf, Option.mem_toList, Step.Calls, Expr.calls_iff]
    constructor
    · rintro ⟨x, ⟨step, hstep, e, he, hx⟩, hcall⟩
      exact ⟨step, hstep, e, he, x, hx, hcall⟩
    · rintro ⟨step, hstep, e, he, x, hx, hcall⟩
      exact ⟨x, ⟨step, hstep, e, he, hx⟩, hcall⟩
  rw [callsItself, Bool.and_eq_true, bne_iff_ne, List.any_eq_true, hnodes, steps,
    Stmt.exists_calls_allSteps_iff]

/-- The flag of a recursive function is exact: a function of the result is marked as recursive if and only
if it is not the main function and a call of it stands somewhere in the body of its first definition,
whether or not this call fits the parameters. -/
theorem Program.isRecursive_iff {p : Program} {s : Signature} (hs : s ∈ p.analyse.functions) :
    ∃ f, p.functions.find? (·.name == s.name) = some f ∧
      (s.isRecursive = true ↔ s.name ≠ mainName ∧ ∃ st ∈ f.body.body, st.Calls s.name) := by
  rw [functions_analyse] at hs
  obtain ⟨f, hf, rfl⟩ := List.mem_map.1 hs
  have hflag : f.summary.isRecursive = f.callsItself := by rw [f.summary_eq]
  refine ⟨f, ?_, ?_⟩
  · rw [f.name_summary]
    exact Table.search_of_mem_firsts hf
  · rw [hflag, f.name_summary]
    exact f.callsItself_iff

/-- A function that calls itself once, in the argument of another call and with an argument too many. -/
def dwindle : FunctionDef where
  name := "dwindle"
  returns := .void
  parameters := [⟨"n", .int, .onLine 1 "dwindle"⟩]
  body := ⟨[.whileLoop (.literal (.bool true) (.onLine 2 "dwindle"))
    ⟨[.call ⟨"show", [.call "dwindle" [.symbol "n" (.onLine 3 "dwindle"),
      .symbol "n" (.onLine 3 "dwindle")] (.onLine 3 "dwindle")], .onLine 3 "dwindle"⟩],
      .onLine 2 "dwindle"⟩ (.onLine 2 "dwindle")], .onLine 1 "dwindle"⟩
  span := ⟨⟨1, "dwindle"⟩, ⟨5, "dwindle"⟩⟩

/-- The flag is set, although the analysis rejects the call. -/
theorem Program.isRecursive_dwindle :
    ∃ s ∈ (Program.mk [.function dwindle] dwindle.span).analyse.functions, s.name = "dwindle" ∧
      s.isRecursive = true ∧ ∃ st ∈ dwindle.body.body, st.Calls s.name := by
  have hs : (⟨"dwindle", .void, [⟨"n", .int⟩], true, false, [], ["while (linia 2)"]⟩ : Signature) ∈
      (Program.mk [.function dwindle] dwindle.span).analyse.functions := by decide
  obtain ⟨f, hf, hflag⟩ := Program.isRecursive_iff hs
  obtain rfl : dwindle = f := Option.some.inj hf
  exact ⟨_, hs, rfl, rfl, (hflag.1 rfl).2⟩

end LangCheck
