import LangCheck.Proofs.Grammar.Bodies
import LangCheck.Proofs.Grammar.Precedence

/-!
# The operands of increments and decrements

By the grammar of the language an increment or a decrement applies to a primary expression: a literal, a
variable, a call or an expression in parentheses.  Reading is not as strict.  The operand of a step in front
is read with the same power as that of a sign, and behind an operand steps are read as long as there are any.
The main result (`Program.operands`) tells exactly which operands occur: primary expressions and operations of
one operand, of a step behind only those with their operator behind as well, and never a binary operation.
-/

namespace LangCheck

open Grammar

/-- Whether the operator increments or decrements its operand. -/
def UnaryOp.isStep : UnaryOp → Bool
  | preIncrement | preDecrement | postIncrement | postDecrement => true
  | not | negate => false

namespace Expr

/-- Whether an expression is primary: its parts are not joined by operators, or stand in parentheses. -/
def isPrimary : Expr → Bool
  | literal _ _ | symbol _ _ | call _ _ _ | group _ _ => true
  | binary _ _ _ _ | unary _ _ _ => false

/-- Whether an expression is an increment or a decrement of an expression that is not primary. -/
def isLooseStep : Expr → Bool
  | unary op operand _ => op.isStep && !operand.isPrimary
  | _ => false

end Expr

/-- An expression may be the operand of an operator: it is primary, or an operation of one operand, whose
operator stands behind if the outer one does. -/
def UnaryOp.Takes (op : UnaryOp) (operand : Expr) : Prop :=
  operand.isPrimary = true ∨
    ∃ inner e span, operand = .unary inner e span ∧ (op.isPostfix = true → inner.isPostfix = true)

namespace Expr

variable {op : UnaryOp} {operand : Expr} {span : Span}

lemma grouped_unary_iff_takes : (unary op operand span).Grouped ↔ op.Takes operand := by
  rw [Grouped, UnaryOp.Takes]
  cases operand <;> simp [operator?, isPrefix, isPrimary]

lemma canonical_unary_iff :
    (unary op operand span).Canonical ↔ operand.Canonical ∧ op.Takes operand := by
  have htakes : op.power ≤ operand.power ↔ op.Takes operand :=
    (@grouped_unary_iff operand op span).symm.trans grouped_unary_iff_takes
  rw [Canonical, htakes]

end Expr

/-! ## The nodes of a program -/

/-- The nodes of the expression that a step looks at. -/
def Step.nodes (s : Step) : List Expr := nodesOf s.value?

@[simp] lemma Step.nodes_evaluate (e : Expr) : (Step.evaluate e).nodes = e.nodes := nodesOf_some e

@[simp] lemma Step.nodes_control (word : String) (line : UInt32) :
    (Step.control word line).nodes = [] := rfl

/-- The nodes of the expressions in the body of a function, at every depth. -/
def FunctionDef.nodes (f : FunctionDef) : List Expr := f.steps.flatMap Step.nodes

/-- The nodes of the expressions of a program. -/
def Program.nodes (p : Program) : List Expr := p.functions.flatMap FunctionDef.nodes

/-- The nodes of a canonical program group their operands. -/
lemma Program.Canonical.grouped {p : Program} (h : p.Canonical) : ∀ n ∈ p.nodes, n.Grouped := by
  intro n hn
  obtain ⟨f, hf, hn⟩ := List.mem_flatMap.1 hn
  obtain ⟨s, hs, hn⟩ := List.mem_flatMap.1 hn
  obtain ⟨e, he, hn⟩ := List.mem_flatMap.1 hn
  exact (Expr.canonical_iff e).1 ((h.step hf hs).value (Option.mem_toList.1 he)) n hn

/-! ## Nodes without their spans -/

namespace Expr

mutual

theorem nodes_bare : ∀ e : Expr, e.bare.nodes = e.nodes.map bare
  | .binary op left right span => by simp [bare, nodes, nodes_bare left, nodes_bare right]
  | .unary op operand span => by simp [bare, nodes, nodes_bare operand]
  | .literal _ _ | .symbol _ _ => by simp [bare, nodes]
  | .call callee arguments span => by simp [bare, nodes, allNodes_allBare arguments]
  | .group inner span => by simp [bare, nodes, nodes_bare inner]

theorem allNodes_allBare : ∀ es : List Expr, allNodes (allBare es) = (allNodes es).map bare
  | [] => by simp [allBare, allNodes]
  | e :: es => by simp [allBare, allNodes, nodes_bare e, allNodes_allBare es]

end

lemma nodesOf_map_bare (e : Option Expr) : nodesOf (e.map bare) = (nodesOf e).map bare := by
  cases e <;> simp [nodes_bare]

end Expr

namespace Stmt

lemma nodes_condition (e : Option Expr) :
    (e.toList.map Step.evaluate).flatMap Step.nodes = nodesOf e := by
  cases e <;> simp

mutual

theorem nodes_bare : ∀ s : Stmt,
    s.bare.steps.flatMap Step.nodes = (s.steps.flatMap Step.nodes).map Expr.bare
  | .declaration d => by
    simp [bare, steps, Step.nodes, Step.value?, VarDecl.bare, Expr.nodesOf_map_bare]
  | .assignment a => by
    simp [bare, steps, Step.nodes, Step.value?, Assignment.bare, Expr.nodesOf_map_bare]
  | .call c => by simp [bare, steps, Call.toExpr, Expr.nodes, Expr.bare, Expr.allNodes_allBare]
  | .conditional condition ⟨thenBody, _⟩ none span => by
    simp [bare, steps, Expr.nodes_bare, allNodes_bare thenBody]
  | .conditional condition ⟨thenBody, _⟩ (some ⟨elseBody, _⟩) span => by
    simp [bare, steps, Expr.nodes_bare, allNodes_bare thenBody, allNodes_bare elseBody]
  | .whileLoop condition ⟨body, _⟩ span => by
    simp [bare, steps, Expr.nodes_bare, allNodes_bare body]
  | .forLoop init condition update ⟨body, _⟩ span => by
    simp [bare, steps, nodes_condition, Expr.nodesOf_map_bare, nodes_bare? init, nodes_bare? update,
      allNodes_bare body]
  | .returning value span => by
    simp [bare, steps, Step.nodes, Step.value?, Expr.nodesOf_map_bare]

theorem nodes_bare? : ∀ s : Option Stmt,
    (steps? (bare? s)).flatMap Step.nodes = ((steps? s).flatMap Step.nodes).map Expr.bare
  | none => by simp [bare?, steps?]
  | some s => by simp [bare?, steps?, nodes_bare s]

theorem allNodes_bare : ∀ ss : List Stmt,
    (allSteps (allBare ss)).flatMap Step.nodes = ((allSteps ss).flatMap Step.nodes).map Expr.bare
  | [] => by simp [allBare, allSteps]
  | s :: ss => by simp [allBare, allSteps, nodes_bare s, allNodes_bare ss]

end

end Stmt

namespace Program

lemma nodes_eq (p : Program) :
    p.nodes = p.items.flatMap fun item => item.function?.toList.flatMap FunctionDef.nodes := by
  rw [nodes, functions, List.filterMap_eq_flatMap_toList, List.flatMap_assoc]

/-- The nodes of a program without its spans are its nodes without their spans. -/
lemma nodes_bare (p : Program) : p.bare.nodes = p.nodes.map Expr.bare := by
  rw [nodes_eq, nodes_eq, List.map_flatMap, bare, List.flatMap_map]
  congr 1
  funext item
  cases item with
  | global d => rfl
  | function f =>
    simpa [Item.bare, Item.function?, FunctionDef.nodes, FunctionDef.steps] using
      Stmt.allNodes_bare f.body.body

end Program

/-! ## The operands that occur -/

/-- A program whose main function returns the given expression. -/
def Program.returning (e : Expr) : Program :=
  ⟨[.function ⟨mainName, .void, [], ⟨[.returning (some e) default], default⟩, default⟩], default⟩

lemma Program.canonical_returning {e : Expr} (h : e.Canonical) : (Program.returning e).Canonical := by
  simpa [Canonical, returning, Item.Canonical, Stmt.AllCanonical, Stmt.Canonical] using h

/-- Every canonical expression occurs, up to spans, in a program that is read from tokens. -/
lemma Program.exists_of_canonical {e : Expr} (h : e.Canonical) (file : String) :
    ∃ ts p, Program.ofTokens ts file = .ok p ∧ ∃ n ∈ p.nodes, n.bare = e.bare := by
  have hcanonical := Program.canonical_returning h
  have hend : (Token.word .endOfInput).kind = .endOfInput := rfl
  obtain ⟨p, hp, hbare⟩ := Program.ofTokens_of_spelled file hcanonical
    (Program.unparse_spelled .braced hcanonical) hend
  refine ⟨_, p, hp, ?_⟩
  have he : e ∈ (Program.returning e).nodes := by
    cases e <;> simp [Program.returning, Program.nodes, Program.functions, Item.function?,
      FunctionDef.nodes, FunctionDef.steps, Stmt.allSteps, Stmt.steps, Step.nodes, Step.value?,
      Expr.nodes]
  rw [← List.mem_map, ← Program.nodes_bare, hbare, Program.nodes_bare]
  exact List.mem_map_of_mem he

/-- Each canonical operand that an operator takes occurs, up to spans, in a program that is read from
tokens. -/
lemma Program.exists_operand {op : UnaryOp} {operand : Expr} (hcanonical : operand.Canonical)
    (htakes : op.Takes operand) (file : String) :
    ∃ ts p, Program.ofTokens ts file = .ok p ∧
      ∃ operand' span, .unary op operand' span ∈ p.nodes ∧ operand'.bare = operand.bare := by
  have hunary : (Expr.unary op operand default).Canonical :=
    Expr.canonical_unary_iff.2 ⟨hcanonical, htakes⟩
  obtain ⟨ts, p, hp, n, hn, hbare⟩ := Program.exists_of_canonical hunary file
  refine ⟨ts, p, hp, ?_⟩
  cases n with
  | unary op' operand' span =>
    rw [Expr.bare, Expr.bare, Expr.unary.injEq] at hbare
    obtain ⟨rfl, hoperand, -⟩ := hbare
    exact ⟨operand', span, hn, hoperand⟩
  | _ => simp [Expr.bare] at hbare

/-- The operands of increments and decrements.  In a program that is read from tokens an operator in front
applies to a primary expression or to an operation of one operand, and one behind to a primary expression or
to an operation with its operator behind.  So increments and decrements never apply to binary operations, and
all of them apply to primary expressions exactly if none applies to an operation of one operand.  None of
these operands is ruled out: each that is canonical occurs, up to spans, in some program. -/
theorem Program.operands {ts : List Token} {file : String} {p : Program}
    (h : Program.ofTokens ts file = .ok p) :
    (∀ (op : UnaryOp) (operand : Expr) (span : Span), .unary op operand span ∈ p.nodes →
      op.Takes operand) ∧
    ((∀ (op : UnaryOp) (operand : Expr) (span : Span), op.isStep = true →
        .unary op operand span ∈ p.nodes → operand.isPrimary = true) ↔
      ∀ (op inner : UnaryOp) (e : Expr) (span span' : Span), op.isStep = true →
        .unary op (.unary inner e span) span' ∉ p.nodes) ∧
    ∀ (op : UnaryOp) (operand : Expr), operand.Canonical → op.Takes operand →
      ∃ us q, Program.ofTokens us file = .ok q ∧
        ∃ operand' span, .unary op operand' span ∈ q.nodes ∧ operand'.bare = operand.bare := by
  have htakes : ∀ (op : UnaryOp) (operand : Expr) (span : Span), .unary op operand span ∈ p.nodes →
      op.Takes operand := fun op operand span hn =>
    Expr.grouped_unary_iff_takes.1 ((canonical_of_ofTokens h).grouped _ hn)
  refine ⟨htakes, ⟨fun hprimary op inner e span span' hop hn => ?_,
    fun hnone op operand span hop hn => ?_⟩,
    fun op operand hcanonical hoperand => Program.exists_operand hcanonical hoperand file⟩
  · cases hprimary op _ span' hop hn
  · rcases htakes op operand span hn with hprimary | ⟨inner, e, s, rfl, -⟩
    · exact hprimary
    · exact absurd hn (hnone op inner e s span hop)

/-- In one of two programs the sign of `x` is incremented, in the other it stands in parentheses. -/
theorem Program.operands_signs :
    let line : Span := .onLine 1 interactiveFile
    let signed : Expr := .unary .negate (.symbol "x" line) line
    let program : Expr → Program := fun operand =>
      ⟨[.function ⟨"f", .int, [],
        ⟨[.returning (some (.unary .preIncrement operand line)) line], line⟩, line⟩], line⟩
    (Program.ofSource "int f() { return ++-x; }" interactiveFile = .ok (program signed) ∧
      ¬ ∀ op operand span, op.isStep = true → .unary op operand span ∈ (program signed).nodes →
        operand.isPrimary = true) ∧
    Program.ofSource "int f() { return ++(-x); }" interactiveFile =
        .ok (program (.group signed line)) ∧
      ∀ op operand span, op.isStep = true →
        .unary op operand span ∈ (program (.group signed line)).nodes → operand.isPrimary = true := by
  intro line signed program
  have hsigned : Program.ofSource "int f() { return ++-x; }" interactiveFile =
      .ok (program signed) := by
    have htokens : tokenize "int f() { return ++-x; }" interactiveFile =
        [(.intWord, "int"), (.name, "f"), (.openParen, "("), (.closeParen, ")"), (.openBrace, "\x7b"),
          (.returnWord, "return"), (.plusPlus, "++"), (.minus, "-"), (.name, "x"), (.semicolon, ";"),
          (.closeBrace, "\x7d"), (.endOfInput, "EOF")].map fun t => ⟨t.1, t.2, line⟩ := by
      decide +kernel
    rw [Program.ofSource, htokens]
    rfl
  have hgrouped : Program.ofSource "int f() { return ++(-x); }" interactiveFile =
      .ok (program (.group signed line)) := by
    have htokens : tokenize "int f() { return ++(-x); }" interactiveFile =
        [(.intWord, "int"), (.name, "f"), (.openParen, "("), (.closeParen, ")"), (.openBrace, "\x7b"),
          (.returnWord, "return"), (.plusPlus, "++"), (.openParen, "("), (.minus, "-"), (.name, "x"),
          (.closeParen, ")"), (.semicolon, ";"), (.closeBrace, "\x7d"),
          (.endOfInput, "EOF")].map fun t => ⟨t.1, t.2, line⟩ := by
      decide +kernel
    rw [Program.ofSource, htokens]
    rfl
  have hnodes : ∀ operand, (program operand).nodes =
      .unary .preIncrement operand line :: operand.nodes := by
    intro operand
    simp [program, Program.nodes, Program.functions, Item.function?, FunctionDef.nodes,
      FunctionDef.steps, Stmt.allSteps, Stmt.steps, Step.nodes, Step.value?, Expr.nodes]
  refine ⟨⟨hsigned, fun hprimary => ?_⟩, hgrouped, (Program.operands hgrouped).2.1.2 ?_⟩
  · refine (Program.operands hsigned).2.1.1 hprimary .preIncrement .negate (.symbol "x" line) line line
      rfl ?_
    rw [hnodes]
    exact List.mem_cons_self
  · simp [hnodes, signed, Expr.nodes]

/-- The sign of `x` is incremented in a program that is read. -/
theorem looseStep_of_initializer_read :
    (Program.ofSource "void main() { int x = 1; int y = ++-x; }" interactiveFile).map
        (fun p => (p.nodes.filter Expr.isLooseStep).map Expr.render) = .ok ["++-x"] := by
  decide +kernel

end LangCheck
