import LangCheck.Proofs.Analysis.Steps
import LangCheck.Proofs.Grammar.Expressions
import LangCheck.Proofs.Grammar.Shapes

/-!
# Precedence

The binary operators stand on six levels, and operations of one level are grouped from the left.  Here
this is told by the levels alone (`BinaryOp.levels`), without the powers that the parser hands down:
each node looks at its own operands (`Expr.Grouped`), and the place of an expression at the operators
that stand outside parentheses (`Expr.exposed`).  Reading with a power gives exactly the trees that are
canonical for it, each from the tokens that it is written with (`Grammar.expression_levels`).
-/

namespace LangCheck

open Grammar

/-! ## Levels -/

namespace BinaryOp

/-- The levels of the binary operators, from loose to tight. -/
def levels : List (List BinaryOp) :=
  [[or], [and], [equal, notEqual], [less, lessEqual, greater, greaterEqual], [add, subtract],
    [multiply, divide, modulo]]

/-- The level on which a binary operator stands, counted from 1. -/
def level (op : BinaryOp) : Nat := levels.findIdx (·.contains op) + 1

lemma rank_powerOf (op : BinaryOp) : (Tables.powerOf op).rank = op.level := by
  cases op <;> rfl

lemma level_le (op : BinaryOp) : op.level ≤ 6 := by
  rw [← rank_powerOf]
  exact Power.rank_powerOf_le op

end BinaryOp

namespace Expr

/-! ## Canonical trees -/

/-- The operator of a binary operation. -/
def operator? : Expr → Option BinaryOp
  | binary op _ _ _ => some op
  | _ => none

/-- An expression is an operator in front of its operand. -/
def isPrefix : Expr → Bool
  | unary op _ _ => !op.isPostfix
  | _ => false

/-- The operands of a node are grouped as the levels tell: the left operand of a binary operator does
not bind more loosely, the right one binds more tightly, and what a sign or a step applies to is no
binary operation, nor for a step a sign. -/
def Grouped : Expr → Prop
  | binary op left right _ =>
    (∀ inner, left.operator? = some inner → op.level ≤ inner.level) ∧
      ∀ inner, right.operator? = some inner → op.level < inner.level
  | unary op operand _ =>
    operand.operator? = none ∧ (op.isPostfix = true → operand.isPrefix = false)
  | literal _ _ | symbol _ _ | call _ _ _ | group _ _ => True

/-- The binary operators of an expression outside parentheses and arguments of calls. -/
def exposed : Expr → List BinaryOp
  | binary op left right _ => op :: (left.exposed ++ right.exposed)
  | unary _ operand _ => operand.exposed
  | literal _ _ | symbol _ _ | call _ _ _ | group _ _ => []

/-- An expression is canonical in a place where operators bind more tightly than `power`. -/
structure CanonicalFor (power : Power) (e : Expr) : Prop where
  /-- Operators that bind more loosely stand in parentheses. -/
  exposed : ∀ op ∈ e.exposed, power.rank < op.level
  /-- Every node groups its operands. -/
  grouped : ∀ n ∈ e.nodes, n.Grouped

/-! ## Levels and powers -/

variable {e left right operand : Expr} {op : BinaryOp} {sign : UnaryOp} {span : Span} {power : Power}

lemma rank_power_of_operator? (h : e.operator? = some op) : e.power.rank = op.level := by
  cases e with
  | binary _ _ _ _ =>
    cases h
    exact BinaryOp.rank_powerOf op
  | _ => cases h

lemma unary_le_power (h : e.operator? = none) : Power.unary ≤ e.power := by
  cases e with
  | binary _ _ _ _ => cases h
  | unary sign _ _ =>
    rw [power]
    cases sign <;> decide
  | _ => exact (by decide : Power.unary ≤ .primary)

lemma suffix_le_power_iff :
    Power.suffix ≤ e.power ↔ e.operator? = none ∧ e.isPrefix = false := by
  cases e with
  | binary op _ _ _ =>
    refine iff_of_false (Nat.not_le_of_lt ?_) (by simp [operator?])
    exact Nat.lt_of_le_of_lt (Power.rank_powerOf_le op) (by decide)
  | unary sign _ _ =>
    simp only [operator?, isPrefix, power, true_and]
    cases sign <;> decide
  | _ => exact iff_of_true (by decide : Power.suffix ≤ .primary) ⟨rfl, rfl⟩

lemma unary_le_power_iff : Power.unary ≤ e.power ↔ e.operator? = none := by
  refine ⟨fun h => ?_, unary_le_power⟩
  rw [Option.eq_none_iff_forall_ne_some]
  intro op hop
  have hlevel : 7 ≤ e.power.rank := h
  have := rank_power_of_operator? hop
  have := op.level_le
  omega

/-- What binds at least as tightly as some level is seen from the operator alone. -/
lemma le_rank_power_iff {n : Nat} (hn : n ≤ 7) :
    n ≤ e.power.rank ↔ ∀ inner, e.operator? = some inner → n ≤ inner.level := by
  constructor
  · intro h inner hinner
    rwa [rank_power_of_operator? hinner] at h
  · intro h
    rcases hop : e.operator? with _ | inner
    · exact Nat.le_trans hn (unary_le_power hop)
    · rw [rank_power_of_operator? hop]
      exact h inner hop

lemma grouped_binary_iff : (binary op left right span).Grouped ↔
    Tables.powerOf op ≤ left.power ∧ Tables.powerOf op < right.power := by
  have hlevel := op.level_le
  refine and_congr ?_ ?_
  · rw [← le_rank_power_iff (by omega), ← BinaryOp.rank_powerOf]
    rfl
  · exact (le_rank_power_iff (by omega)).symm.trans (by rw [← BinaryOp.rank_powerOf]; rfl)

lemma grouped_unary_iff : (unary sign operand span).Grouped ↔ sign.power ≤ operand.power := by
  rw [Grouped, UnaryOp.power]
  split
  · next hsign => rw [suffix_le_power_iff, imp_iff_right hsign]
  · next hsign => rw [unary_le_power_iff, and_iff_left fun h => absurd h hsign]

mutual

/-- The powers group an expression as the levels do. -/
theorem canonical_iff : ∀ e : Expr, e.Canonical ↔ ∀ n ∈ e.nodes, n.Grouped
  | .binary op left right span => by
    rw [Canonical, nodes, List.forall_mem_cons, List.forall_mem_append, grouped_binary_iff,
      canonical_iff left, canonical_iff right]
    tauto
  | .unary op operand span => by
    rw [Canonical, nodes, List.forall_mem_cons, grouped_unary_iff, canonical_iff operand, and_comm]
  | .literal _ _ | .symbol _ _ => by simp [Canonical, nodes, Grouped]
  | .call _ arguments _ => by
    rw [Canonical, nodes, List.forall_mem_cons, allCanonical_iff arguments]
    exact (and_iff_right trivial).symm
  | .group inner _ => by
    rw [Canonical, nodes, List.forall_mem_cons, canonical_iff inner]
    exact (and_iff_right trivial).symm

/-- So they do in several expressions. -/
theorem allCanonical_iff : ∀ es : List Expr, AllCanonical es ↔ ∀ n ∈ allNodes es, n.Grouped
  | [] => by simp [AllCanonical, allNodes]
  | e :: es => by
    rw [AllCanonical, allNodes, List.forall_mem_append, canonical_iff e, allCanonical_iff es]

end

/-- In a canonical expression the operators outside parentheses bind no more loosely than the whole. -/
theorem rank_power_le_of_mem_exposed : ∀ {e : Expr}, e.Canonical → ∀ op ∈ e.exposed,
    e.power.rank ≤ op.level
  | .binary op left right span, h, inner, hinner => by
    obtain ⟨hleft, hright, hpower, hpower'⟩ := h
    rw [exposed, List.mem_cons, List.mem_append] at hinner
    rcases hinner with rfl | hinner | hinner
    · exact Nat.le_of_eq (BinaryOp.rank_powerOf inner)
    · exact Nat.le_trans hpower (rank_power_le_of_mem_exposed hleft inner hinner)
    · exact Nat.le_of_lt (Nat.lt_of_lt_of_le hpower' (rank_power_le_of_mem_exposed hright inner hinner))
  | .unary sign operand span, h, inner, hinner =>
    Nat.le_trans h.2 (rank_power_le_of_mem_exposed h.1 inner hinner)
  | .literal _ _, _, _, h | .symbol _ _, _, _, h | .call _ _ _, _, _, h | .group _ _, _, _, h =>
    nomatch h

/-- Whether a canonical expression fits into a place is seen from the operators outside
parentheses. -/
lemma fits_iff (h : e.Canonical) :
    e.Fits power ↔ ∀ op ∈ e.exposed, power.rank < op.level := by
  constructor
  · intro hfits op hop
    have hlevel := rank_power_le_of_mem_exposed h op hop
    rcases hfits with hfits | hfits
    · exact Nat.lt_of_lt_of_le hfits hlevel
    · exact absurd (Nat.le_trans hfits hlevel) (Nat.not_le_of_lt (Nat.lt_succ_of_le op.level_le))
  · intro hexposed
    cases e with
    | binary op left right span =>
      refine Or.inl ?_
      have hop := hexposed op List.mem_cons_self
      rwa [← BinaryOp.rank_powerOf] at hop
    | unary _ _ _ => exact Or.inr (unary_le_power rfl)
    | _ => exact Or.inr (by decide : Power.unary ≤ .primary)

/-- A place takes an expression exactly if the powers group it and it fits there. -/
lemma canonicalFor_iff : e.CanonicalFor power ↔ e.Canonical ∧ e.Fits power := by
  constructor
  · rintro ⟨hexposed, hgrouped⟩
    have hcanonical := (canonical_iff e).2 hgrouped
    exact ⟨hcanonical, (fits_iff hcanonical).2 hexposed⟩
  · rintro ⟨hcanonical, hfits⟩
    exact ⟨(fits_iff hcanonical).1 hfits, (canonical_iff e).1 hcanonical⟩

theorem endsBare_bare : ∀ e : Expr, e.bare.endsBare = e.endsBare
  | .binary _ _ right _ => by simp [bare, endsBare, endsBare_bare right]
  | .unary _ operand _ => by simp [bare, endsBare, endsBare_bare operand]
  | .literal _ _ | .symbol _ _ | .call _ _ _ | .group _ _ => by simp [bare, endsBare]

end Expr

/-! ## What reading with a power gives -/

/-- Behind an operand a token is an operator that binds more tightly than `power`. -/
def Token.Extends (power : Power) (t : Token) : Prop :=
  (∃ op : BinaryOp, t.kind = op.kind ∧ power.rank < op.level) ∨
    t.kind = .plusPlus ∨ t.kind = .minusMinus

namespace Grammar

variable {c c' : Cursor} {power : Power} {ts rest : List Token} {t : Token}

lemma extends_iff (hpower : power ≤ .unary) : c.current.Extends power ↔ ¬ c.nextPower ≤ power := by
  constructor
  · rintro (⟨op, hop, hlevel⟩ | hstep)
    · have hc : Tables.standard.continuation c.kind = some (Tables.powerOf op, .binary) := by
        rw [Cursor.kind, hop, continuation_of_binary]
      rw [← BinaryOp.rank_powerOf] at hlevel
      rw [nextPower_of_continuation hc]
      exact Nat.not_le_of_lt hlevel
    · have hc : Tables.standard.continuation c.kind = some (.suffix, .step) := by
        rcases hstep with hkind | hkind <;> rw [Cursor.kind, hkind] <;> rfl
      rw [nextPower_of_continuation hc]
      exact Nat.not_le_of_lt (Nat.lt_of_le_of_lt hpower (by decide))
  · intro hnext
    rcases hc : Tables.standard.continuation c.kind with _ | ⟨next, _ | _⟩
    · rw [nextPower_of_none hc] at hnext
      exact absurd (Nat.zero_le _) hnext
    · obtain ⟨op, hop, rfl⟩ := continuation_binary_iff.1 hc
      rw [nextPower_of_continuation hc] at hnext
      refine Or.inl ⟨op, hop, ?_⟩
      rw [← BinaryOp.rank_powerOf]
      exact Nat.lt_of_not_le hnext
    · obtain ⟨-, hstep, hkind⟩ := continuation_step_iff.1 hc
      refine Or.inr ?_
      rw [← Cursor.kind, hkind]
      revert hstep
      cases stepOf c.kind <;> decide

/-- A canonical expression that fits into a place is read from its tokens, up to spans, if the token behind
them does not continue it. -/
lemma exists_expression_of_alike {e : Expr} (hpower : power ≤ .unary) (hcanonical : e.Canonical)
    (hfits : e.Fits power) (halike : Alike ts e.unparse)
    (hahead : c.ahead ++ [c.finish] = ts ++ t :: rest) (hextends : ¬ t.Extends power)
    (hopen : e.endsBare = true → t.kind ≠ .openParen) :
    ∃ e' c', expression .standard power c = .ok e' c' ∧ e'.bare = e.bare ∧ c.Passes ts c' ∧
      c'.current = t := by
  -- the tree that is read is the one whose nodes span their tokens
  obtain ⟨e', hspelled, he'⟩ := (Expr.spelled_of_alike halike).tighten
  obtain ⟨c', hpasses, rfl⟩ := Cursor.exists_passes_current hahead hspelled.endless
  rw [extends_iff hpower, not_not] at hextends
  rw [← Expr.canonical_bare, ← he', Expr.canonical_bare] at hcanonical
  rw [Expr.Fits, ← Expr.power_bare, ← he', Expr.power_bare] at hfits
  rw [← Expr.endsBare_bare, ← he', Expr.endsBare_bare] at hopen
  exact ⟨e', c', (expression_eq_ok_iff hpower).2 ⟨ts, hpasses, hspelled, hcanonical, hfits, hextends,
    hopen⟩, he', hpasses, rfl⟩

/-- Reading with a power.  An expression that is read is canonical for the power, and the tokens
passed are those it is written with, in order.  Conversely, an expression that is canonical for the
power is read from its tokens, up to spans, whatever is behind them: unless the next token extends it,
or is a parenthesis that makes its last variable a call, reading stops there. -/
theorem expression_levels (hpower : power ≤ .unary) :
    (∀ (c c' : Cursor) (e : Expr), expression .standard power c = .ok e c' →
      ∃ ts, c.Passes ts c' ∧ Alike ts e.unparse ∧ e.CanonicalFor power) ∧
    ∀ (c : Cursor) (e : Expr) (ts rest : List Token) (t : Token), e.CanonicalFor power →
      Alike ts e.unparse → c.ahead ++ [c.finish] = ts ++ t :: rest → ¬ t.Extends power →
      (e.endsBare = true → t.kind ≠ .openParen) →
      ∃ e' c', expression .standard power c = .ok e' c' ∧ e'.bare = e.bare ∧ c.Passes ts c' ∧
        c'.current = t := by
  constructor
  · intro c c' e h
    obtain ⟨ts, hread⟩ := (expression_eq_ok_iff hpower).1 h
    exact ⟨ts, hread.passes, hread.spelled.alike,
      Expr.canonicalFor_iff.2 ⟨hread.canonical, hread.fits⟩⟩
  · intro c e ts rest t hcanonical halike hahead hextends hopen
    obtain ⟨hcanonical, hfits⟩ := Expr.canonicalFor_iff.1 hcanonical
    exact exists_expression_of_alike hpower hcanonical hfits halike hahead hextends hopen

/-- In `-b * c + d` the right operand of an addition is read up to the second plus sign, and what is
read groups its operands. -/
theorem expression_levels_product :
    let product : Expr := .binary .multiply (.unary .negate (.symbol "b" default) default)
      (.symbol "c" default) default
    let c : Cursor := .start (product.unparse ++ [.word .plus, .named "d"]) "shell"
    ∃ e c', expression .standard .additive c = .ok e c' ∧ e.bare = product ∧
      c'.current = .word .plus ∧ e.CanonicalFor .additive := by
  intro product c
  have hproduct : product.CanonicalFor .additive := by
    refine ⟨?_, ?_⟩ <;> simp [product, Expr.exposed, Expr.nodes, Expr.Grouped, Expr.operator?] <;>
      decide
  have hplus : ¬ (Token.word .plus).Extends .additive := by
    rintro (⟨op, hop, hlevel⟩ | h | h)
    · revert hop hlevel
      cases op <;> decide
    · cases h
    · cases h
  obtain ⟨e, c', hrun, hbare, -, hcurrent⟩ :=
    (expression_levels (by decide)).2 c product product.unparse [.named "d", c.finish] (.word .plus)
      hproduct (.refl _) rfl hplus (by decide)
  obtain ⟨ts, -, -, hcanonical⟩ := (expression_levels (by decide)).1 c c' e hrun
  exact ⟨e, c', hrun, hbare.trans rfl, hcurrent, hcanonical⟩

end Grammar

end LangCheck
