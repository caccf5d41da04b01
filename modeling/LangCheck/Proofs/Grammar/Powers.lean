import LangCheck.Grammar.Expression
import LangCheck.Proofs.Grammar.Spans
import Mathlib.Tactic.Common

/-!
# Powers and the tables

How tightly operators bind, and what the tables of the parser say about a token: which ones begin an
expression and which ones continue one, and how tightly.
-/

namespace LangCheck.Grammar

open Placement

variable {c : Cursor} {t : Token} {k : Kind} {p : Power}

/-! ## Powers -/

namespace Power

lemma one_le_rank_powerOf (op : BinaryOp) : 1 ≤ (Tables.powerOf op).rank := by
  cases op <;> decide

lemma rank_powerOf_le (op : BinaryOp) : (Tables.powerOf op).rank ≤ 6 := by
  cases op <;> decide

lemma rank_le_primary (p : Power) : p.rank ≤ 9 := by
  cases p <;> decide

end Power

lemma one_le_rank_power (e : Expr) : 1 ≤ e.power.rank := by
  cases e with
  | binary op left right span => exact Power.one_le_rank_powerOf op
  | unary op operand span =>
    rw [Expr.power]
    cases op <;> decide
  | _ => exact (by decide : 1 ≤ Power.primary.rank)

/-! ## What the tables say -/

lemma literalOf?_eq_some_iff {value : Literal} : literalOf? t = some value ↔ value.Spelled t := by
  rcases t with ⟨kind, text, span⟩
  rcases value with text' | text' | _ | _ <;> cases kind <;> simp [literalOf?, Literal.Spelled]

lemma ofKind?_eq_some_iff {op : BinaryOp} : BinaryOp.ofKind? k = some op ↔ k = op.kind := by
  constructor
  · intro h
    unfold BinaryOp.ofKind? at h
    split at h <;> cases h <;> rfl
  · rintro rfl
    cases op <;> rfl

lemma opening_sign_iff : Tables.standard.opening k = some .sign ↔
    (signOf k).isPostfix = false ∧ k = (signOf k).kind := by
  constructor
  · intro h
    simp only [Tables.standard] at h
    split at h <;> cases h <;> exact ⟨rfl, rfl⟩
  · rintro ⟨-, h⟩
    rw [h]
    cases signOf k <;> rfl

lemma signOf_kind {op : UnaryOp} (h : op.isPostfix = false) : signOf op.kind = op := by
  cases op <;> first | rfl | exact absurd h (by decide)

lemma stepOf_kind {op : UnaryOp} (h : op.isPostfix = true) : stepOf op.kind = op := by
  cases op <;> first | rfl | exact absurd h (by decide)

lemma continuation_binary_iff : Tables.standard.continuation k = some (p, .binary) ↔
    ∃ op, k = BinaryOp.kind op ∧ p = Tables.powerOf op := by
  constructor
  · intro h
    cases hop : BinaryOp.ofKind? k with
    | some op =>
      refine ⟨op, ofKind?_eq_some_iff.1 hop, ?_⟩
      simp only [Tables.standard, hop] at h
      exact (Prod.mk.inj (Option.some.inj h)).1.symm
    | none =>
      simp only [Tables.standard, hop] at h
      split at h <;> simp at h
  · rintro ⟨op, rfl, rfl⟩
    cases op <;> rfl

lemma continuation_step_iff : Tables.standard.continuation k = some (p, .step) ↔
    p = .suffix ∧ (stepOf k).isPostfix = true ∧ k = (stepOf k).kind := by
  constructor
  · intro h
    cases hop : BinaryOp.ofKind? k with
    | some op =>
      -- a binary operator continues with a right operand
      simp [Tables.standard, hop] at h
    | none =>
      simp only [Tables.standard, hop] at h
      split at h
      · cases h
        rename_i hk
        rcases hk with rfl | rfl <;> exact ⟨rfl, rfl, rfl⟩
      · cases h
  · rintro ⟨rfl, -, h⟩
    rw [h, stepOf]
    split <;> rfl

lemma continuation_of_binary (op : BinaryOp) :
    Tables.standard.continuation op.kind = some (Tables.powerOf op, .binary) :=
  continuation_binary_iff.2 ⟨op, rfl, rfl⟩

lemma continuation_of_step {op : UnaryOp} (h : op.isPostfix = true) :
    Tables.standard.continuation op.kind = some (.suffix, .step) := by
  rw [continuation_step_iff, stepOf_kind h]
  exact ⟨rfl, h, rfl⟩

lemma opening_of_sign {op : UnaryOp} (h : op.isPostfix = false) :
    Tables.standard.opening op.kind = some .sign := by
  rw [opening_sign_iff, signOf_kind h]
  exact ⟨h, rfl⟩

/-! ## Tokens that begin an expression -/

lemma kind_ne_of_opening {o : Opening} (h : Tables.standard.opening c.kind = some o) :
    c.kind ≠ .endOfInput := by
  intro hc
  rw [hc] at h
  exact absurd h (by simp [Tables.standard])

lemma kind_eq_of_opening_operand (h : Tables.standard.opening c.kind = some .operand)
    (hname : c.kind ≠ .name) : ∃ value : Literal, value.Spelled c.current := by
  have hlit : (literalOf? c.current).isSome := by
    simp only [Tables.standard, Cursor.kind] at h hname
    unfold literalOf?
    split at h <;> simp_all
  obtain ⟨value, hvalue⟩ := Option.isSome_iff_exists.1 hlit
  exact ⟨value, literalOf?_eq_some_iff.1 hvalue⟩

lemma opening_of_literal {t : Token} {value : Literal} (h : value.Spelled t) :
    Tables.standard.opening t.kind = some .operand := by
  rcases value with text | text | _ | _ <;> simp only [Literal.Spelled] at h <;>
    simp [Tables.standard, h]

lemma kind_ne_openParen (op : BinaryOp) : op.kind ≠ .openParen := by
  cases op <;> decide

/-! ## Tokens that continue an expression -/

/-- The power with which the token at the cursor continues an expression, the loosest one if it does
not. -/
def Cursor.nextPower (c : Cursor) : Power :=
  match Tables.standard.continuation c.kind with
  | some (power, _) => power
  | none => .default

lemma nextPower_le_primary (c : Cursor) : c.nextPower ≤ .primary := Power.rank_le_primary _

lemma nextPower_of_continuation {f : Continuation}
    (h : Tables.standard.continuation c.kind = some (p, f)) : c.nextPower = p := by
  rw [Cursor.nextPower, h]

lemma nextPower_of_none (h : Tables.standard.continuation c.kind = none) :
    c.nextPower = .default := by
  rw [Cursor.nextPower, h]

lemma nextPower_le_suffix (c : Cursor) : c.nextPower ≤ .suffix := by
  rcases h : Tables.standard.continuation c.kind with _ | ⟨p, _ | _⟩
  · rw [nextPower_of_none h]
    decide
  · obtain ⟨op, -, rfl⟩ := continuation_binary_iff.1 h
    rw [nextPower_of_continuation h]
    exact Nat.le_trans (Power.rank_powerOf_le op) (by decide)
  · obtain ⟨rfl, -⟩ := continuation_step_iff.1 h
    rw [nextPower_of_continuation h]
    exact Nat.le_refl _

lemma kind_ne_of_continuation {x : Power × Continuation}
    (h : Tables.standard.continuation c.kind = some x) : c.kind ≠ .endOfInput := by
  intro hc
  rw [hc] at h
  exact absurd h (by simp [Tables.standard, BinaryOp.ofKind?])

end LangCheck.Grammar
