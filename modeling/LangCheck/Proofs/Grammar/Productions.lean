import LangCheck.Proofs.Grammar.Powers

/-!
# The productions of expressions

The successful runs of the parsers of single productions, said by the tokens that they pass, and one
round of the recursion over powers: how an expression begins, and how the loop extends it by one more
operator.
-/

namespace LangCheck.Grammar

open Placement

variable {c c' : Cursor} {e left : Expr} {low : Power} {room : Nat} {arguments : Parser (List Expr)}
  {inner : Parser Expr}

/-! ## One production -/

lemma callWith_eq_ok {call : Call} :
    callWith arguments c = .ok call c' ↔ ∃ name c₁, (name.kind = .name ∧ c.Passes [name] c₁) ∧
      ∃ opened c₂, (opened.kind = .openParen ∧ c₁.Passes [opened] c₂) ∧
      ∃ es c₃, (if c₂.kind = .closeParen then es = [] ∧ c₃ = c₂ else arguments c₂ = .ok es c₃) ∧
      ∃ closed c₄, (closed.kind = .closeParen ∧ c₃.Passes [closed] c₄) ∧
        call = ⟨name.text, es, ⟨name.span.start, closed.span.stop⟩⟩ ∧ c' = c₄ := by
  simp only [callWith, bind_eq_ok, expect_eq_ok, ne_eq, reduceCtorEq, not_false_eq_true,
    currentKind_bind, ite_bind_eq_ok, pure_eq_ok]

lemma groupWith_eq_ok :
    groupWith inner c = .ok e c' ↔ ∃ opened c₁, (opened.kind = .openParen ∧ c.Passes [opened] c₁) ∧
      ∃ x c₂, inner c₁ = .ok x c₂ ∧
      ∃ closed c₃, (closed.kind = .closeParen ∧ c₂.Passes [closed] c₃) ∧
        e = .group x ⟨opened.span.start, closed.span.stop⟩ ∧ c' = c₃ := by
  simp only [groupWith, bind_eq_ok, expect_eq_ok, ne_eq, reduceCtorEq, not_false_eq_true,
    pure_eq_ok]

lemma signWith_eq_ok (h : c.kind ≠ .endOfInput) :
    signWith inner c = .ok e c' ↔ ∃ t c₁, c.Passes [t] c₁ ∧ ∃ x c₂, inner c₁ = .ok x c₂ ∧
      e = .unary (signOf t.kind) x ⟨t.span.start, x.span.stop⟩ ∧ c' = c₂ := by
  simp only [signWith, bind_eq_ok, advance_eq_ok h, pure_eq_ok]

lemma step_eq_ok (h : c.kind ≠ .endOfInput) :
    step left c = .ok e c' ↔ ∃ t c₁, c.Passes [t] c₁ ∧
      e = .unary (stepOf t.kind) left ⟨left.span.start, t.span.stop⟩ ∧ c' = c₁ := by
  simp only [step, bind_eq_ok, advance_eq_ok h, pure_eq_ok]

lemma binaryWith_eq_ok {op : BinaryOp} (h : c.kind = op.kind) :
    binaryWith left inner c = .ok e c' ↔ ∃ t c₁, c.Passes [t] c₁ ∧ ∃ x c₂, inner c₁ = .ok x c₂ ∧
      e = .binary op left x ⟨left.span.start, x.span.stop⟩ ∧ c' = c₂ := by
  have hend : c.kind ≠ .endOfInput := by
    rw [h]
    cases op <;> decide
  simp only [binaryWith, currentKind_bind, ofKind?_eq_some_iff.2 h, bind_eq_ok, advance_eq_ok hend,
    pure_eq_ok]

lemma operandWith_of_call (hc : c.kind = .name) (hnext : (c.peek 1).kind = .openParen) :
    operandWith arguments c = .ok e c' ↔ ∃ call, callWith arguments c = .ok call c' ∧
      e = call.toExpr := by
  simp only [operandWith, currentKind_bind, hc, peekKind_bind, hnext, if_true, bind_eq_ok,
    pure_eq_ok]
  constructor
  · rintro ⟨call, _, hcall, rfl, rfl⟩
    exact ⟨call, hcall, rfl⟩
  · rintro ⟨call, hcall, rfl⟩
    exact ⟨call, c', hcall, rfl, rfl⟩

lemma operandWith_of_symbol (hc : c.kind = .name) (hnext : (c.peek 1).kind ≠ .openParen) :
    operandWith arguments c = .ok e c' ↔ ∃ t c₁, c.Passes [t] c₁ ∧
      e = .symbol t.text t.span ∧ c' = c₁ := by
  have hend : c.kind ≠ .endOfInput := by
    rw [hc]
    decide
  simp only [operandWith, currentKind_bind, hc, peekKind_bind, hnext, if_false, bind_eq_ok,
    advance_eq_ok hend, pure_eq_ok]

lemma operandWith_of_literal {value : Literal} (hc : value.Spelled c.current) :
    operandWith arguments c = .ok e c' ↔ c.Passes [c.current] c' ∧
      e = .literal value c.current.span := by
  have hlit : literal c = .ok value c.next := by
    rw [literal, literalOf?_eq_some_iff.2 hc]
  have hrun : operandWith arguments c = .ok (.literal value c.current.span) c.next := by
    have hbind : (do
        let span := (← get).current.span
        return .literal (← literal) span : Parser Expr) c =
        .ok (.literal value c.current.span) c.next :=
      bind_eq_ok.2 ⟨c, c, rfl, bind_eq_ok.2 ⟨value, c.next, hlit, rfl⟩⟩
    rcases value with text | text | _ | _
    all_goals
      simp only [Literal.Spelled] at hc
      simp only [operandWith, currentKind_bind, Cursor.kind, hc]
      exact hbind
  have hend : c.current.kind ≠ .endOfInput := hc.kind_ne
  rw [hrun, Cursor.passes_singleton_iff]
  constructor
  · rintro ⟨⟩
    exact ⟨⟨rfl, hend, rfl⟩, rfl⟩
  · rintro ⟨⟨-, -, rfl⟩, rfl⟩
    rfl

/-! ## One round of the recursion -/

/-- What reads the beginning of an expression. -/
def head (t : Tables) (room : Nat) : Option Opening → Parser Expr
  | some .operand => operandWith (argumentsWithin t room)
  | some .group => groupWith (expressionWithin t room .default)
  | some .sign => signWith (expressionWithin t room .unary)
  | none => unexpected

/-- What reads one more operator behind an expression. -/
def extension (t : Tables) (room : Nat) (left : Expr) (power : Power) : Continuation → Parser Expr
  | .binary => binaryWith left (expressionWithin t room power)
  | .step => step left

lemma expressionWithin_succ (t : Tables) :
    expressionWithin t (room + 1) low c =
      (head t room (t.opening c.kind) >>= continuationWithin t room low) c := by
  rw [expressionWithin, currentKind_bind]
  rcases t.opening c.kind with _ | _ | _ | _ <;> rfl

lemma continuationWithin_of_none (h : Tables.standard.continuation c.kind = none) :
    continuationWithin .standard room low left c = .ok left c := by
  cases room with
  | zero =>
    rw [continuationWithin]
    rfl
  | succ room =>
    rw [continuationWithin, currentKind_bind, h]
    rfl

lemma continuationWithin_succ {power : Power} {form : Continuation}
    (h : Tables.standard.continuation c.kind = some (power, form)) :
    continuationWithin .standard (room + 1) low left c =
      if power ≤ low then .ok left c
      else (extension .standard room left power form >>= continuationWithin .standard room low) c := by
  rw [continuationWithin, currentKind_bind, h]
  by_cases hpower : power ≤ low
  · simp only [if_pos hpower]
    rfl
  · simp only [if_neg hpower]
    cases form <;> rfl

lemma continuationWithin_stops (h : c.nextPower ≤ low) :
    continuationWithin .standard room low left c = .ok left c := by
  rcases hc : Tables.standard.continuation c.kind with _ | ⟨power, form⟩
  · exact continuationWithin_of_none hc
  · rw [nextPower_of_continuation hc] at h
    cases room with
    | zero => rfl
    | succ room => rw [continuationWithin_succ hc, if_pos h]

end LangCheck.Grammar
