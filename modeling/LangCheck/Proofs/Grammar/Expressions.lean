import LangCheck.Proofs.Grammar.Productions

/-!
# Reading expressions

What the recursion over powers reads from a cursor on (`Expr.Read`): the expression is spelled by the
tokens passed, its parts are grouped as the powers tell, its operators bind more tightly than what
surrounds it, and the token behind it does not continue it.  The main result
(`expressionWithin_eq_ok_iff`) says that this is exactly what a successful run is.  One direction is
an induction on the room for the run, where the loop carries what was read so far; the other is an
induction on the expression, where the loop is entered once for each operator on its left spine.
-/

namespace LangCheck

open Placement Grammar

namespace Expr

/-- The last token of an expression is a variable. -/
def endsBare : Expr → Bool
  | symbol _ _ => true
  | binary _ _ right _ => right.endsBare
  | unary op operand _ => !op.isPostfix && operand.endsBare
  | literal _ _ | call _ _ _ | group _ _ => false

/-- An operation binds more tightly than a given power.  Operators in front of their operand stand
everywhere. -/
def Fits (power : Power) (e : Expr) : Prop := power < e.power ∨ .unary ≤ e.power

/-- An expression is read between two cursors, in a place where operators bind more tightly than
`low`; what continues it behind the second one binds no more tightly than `high`. -/
structure Read (low high : Power) (c : Cursor) (ts : List Token) (e : Expr) (c' : Cursor) : Prop where
  passes : c.Passes ts c'
  spelled : e.Spelled tight ts
  canonical : e.Canonical
  fits : e.Fits low
  next : c'.nextPower ≤ high
  /-- A variable with a parenthesis behind it would be a call. -/
  bare : e.endsBare = true → c'.kind ≠ .openParen

/-- Arguments of a call are read between two cursors. -/
structure ArgumentsRead (c : Cursor) (ts : List Token) (es : List Expr) (c' : Cursor) : Prop where
  passes : c.Passes ts c'
  spelled : ArgumentsSpelled tight ts es
  canonical : AllCanonical es

/-! ## Reading the parts of an expression -/

namespace Read

variable {c c' c₁ : Cursor} {e left : Expr} {t : Token} {ts us : List Token} {low : Power}

/-- What would be read as an operand is read by the loop, too. -/
lemma widen (h : e.Read low low c ts c') (hlow : low ≤ .unary) :
    e.Read low e.power c ts c' := by
  refine { h with next := Nat.le_trans h.next ?_ }
  rcases h.fits with hfits | hfits
  · exact Nat.le_of_lt hfits
  · exact Nat.le_trans hlow hfits

/-- An expression with nothing behind it that would continue it is read. -/
lemma of_continuation_eq (h : c.Passes ts c') (hspelled : e.Spelled tight ts)
    (hcanonical : e.Canonical) (hnone : Tables.standard.continuation c'.kind = none)
    (hopen : c'.kind ≠ .openParen) : e.Read .default .default c ts c' := by
  refine ⟨h, hspelled, hcanonical, Or.inl (one_le_rank_power e), ?_, fun _ => hopen⟩
  rw [nextPower_of_none hnone]
  exact Nat.le_refl _

section Parts

variable {op : BinaryOp} {sign : UnaryOp} {span : Span} {high : Power}

/-- The operand of an operator in front is read behind the operator. -/
lemma operand_of_sign (h : (unary sign e span).Read low (unary sign e span).power c (t :: ts) c')
    (hsign : sign.isPostfix = false) (hspelled : e.Spelled tight ts) (hts : c₁.Passes ts c') :
    e.Read .unary .unary c₁ ts c' := by
  have hpower : sign.power = .unary := by simp [UnaryOp.power, hsign]
  refine ⟨hts, hspelled, h.canonical.1, Or.inr ?_, ?_, fun hbare => h.bare ?_⟩
  · rw [← hpower]
    exact h.canonical.2
  · rw [← hpower]
    exact h.next
  · simpa [endsBare, hsign] using hbare

/-- The operand of an operator behind it is read up to the operator. -/
lemma operand_of_step (h : (unary sign e span).Read low high c (ts ++ [t]) c')
    (hsign : sign.isPostfix = true) (ht : t.kind = sign.kind) (hlow : low ≤ .unary)
    (hspelled : e.Spelled tight ts) (h₁ : c.Passes ts c₁) (h₂ : c₁.Passes [t] c') :
    e.Read low e.power c ts c₁ := by
  have hkind : c₁.kind = sign.kind := by rw [h₂.kind_eq, ht]
  have hsuffix : Power.suffix ≤ e.power := by
    have hpower : sign.power = .suffix := by simp [UnaryOp.power, hsign]
    rw [← hpower]
    exact h.canonical.2
  refine ⟨h₁, hspelled, h.canonical.1, Or.inl (Nat.lt_of_le_of_lt hlow hsuffix), ?_, fun _ => ?_⟩
  · rw [nextPower_of_continuation (hkind ▸ continuation_of_step hsign)]
    exact hsuffix
  · rw [hkind]
    cases sign <;> decide

lemma lt_powerOf (h : (binary op left e span).Read low high c ts c') : low < Tables.powerOf op := by
  rcases h.fits with hfits | hfits
  · exact hfits
  · exact absurd hfits (Nat.not_le_of_lt (Nat.lt_succ_of_le (Power.rank_powerOf_le op)))

/-- The left operand of a binary operator is read up to the operator. -/
lemma left_of_binary (h : (binary op left e span).Read low high c (ts ++ t :: us) c')
    (ht : t.kind = op.kind) (hspelled : left.Spelled tight ts) (h₁ : c.Passes ts c₁)
    (h₂ : c₁.Passes (t :: us) c') : left.Read low left.power c ts c₁ := by
  obtain ⟨hcanonical, -, hpower, -⟩ := h.canonical
  have hkind : c₁.kind = op.kind := by rw [h₂.kind_eq, ht]
  refine ⟨h₁, hspelled, hcanonical, Or.inl (Nat.lt_of_lt_of_le h.lt_powerOf hpower), ?_,
    fun _ => ?_⟩
  · rw [nextPower_of_continuation (hkind ▸ continuation_of_binary op)]
    exact hpower
  · rw [hkind]
    exact kind_ne_openParen op

/-- The right operand of a binary operator is read behind the operator. -/
lemma right_of_binary (h : (binary op left e span).Read low (Tables.powerOf op) c ts c')
    (hspelled : e.Spelled tight us) (hus : c₁.Passes us c') :
    e.Read (Tables.powerOf op) (Tables.powerOf op) c₁ us c' := by
  obtain ⟨-, hcanonical, -, hpower⟩ := h.canonical
  exact ⟨hus, hspelled, hcanonical, Or.inl hpower, h.next, h.bare⟩

end Parts

end Read

end Expr

namespace Grammar

variable {c c' c₁ : Cursor} {e left : Expr} {ts : List Token} {low : Power} {room : Nat}
  {us : List Token} {arguments : Parser (List Expr)} {inner : Parser Expr}

/-! ## What a run reads -/

lemma callWith_sound (room : Nat) {call : Call}
    (harguments : ∀ {c es c'}, c.ahead.length < room → arguments c = .ok es c' →
      ∃ ts, es ≠ [] ∧ Expr.ArgumentsRead c ts es c')
    (hlen : c.ahead.length ≤ room + 1) (h : callWith arguments c = .ok call c') :
    ∃ ts, c.Passes ts c' ∧ call.toExpr.Spelled tight ts ∧ call.toExpr.Canonical := by
  obtain ⟨name, c₁, ⟨hn, h₁⟩, opened, c₂, ⟨ho, h₂⟩, es, c₃, h₃, closed, c₄, ⟨hcl, h₄⟩, rfl, rfl⟩ :=
    callWith_eq_ok.1 h
  obtain ⟨us, hus⟩ : ∃ us, Expr.ArgumentsRead c₂ us es c₃ := by
    split at h₃
    · obtain ⟨rfl, rfl⟩ := h₃
      exact ⟨[], .nil, .none, trivial⟩
    · have hlen₂ : c₂.ahead.length < room := by
        have := h₁.length_lt (by simp)
        have := h₂.length_lt (by simp)
        omega
      obtain ⟨us, -, hus⟩ := harguments hlen₂ h₃
      exact ⟨us, hus⟩
  exact ⟨name :: opened :: (us ++ [closed]), h₁.append (h₂.append (hus.passes.append h₄)),
    .call hn ho hus.spelled hcl (Span.covering_enclosed name closed (opened :: us)).symm,
    hus.canonical⟩

lemma operand_sound
    (harguments : ∀ {c es c'}, c.ahead.length < room → arguments c = .ok es c' →
      ∃ ts, es ≠ [] ∧ Expr.ArgumentsRead c ts es c')
    (hlen : c.ahead.length ≤ room + 1) (hc : Tables.standard.opening c.kind = some .operand)
    (h : operandWith arguments c = .ok e c') :
    ∃ ts, e.Read low .primary c ts c' ∧ e.power = .primary := by
  have hfits : Power.unary ≤ .primary := by decide
  by_cases hname : c.kind = .name
  · by_cases hnext : (c.peek 1).kind = .openParen
    · obtain ⟨call, hcall, rfl⟩ := (operandWith_of_call hname hnext).1 h
      obtain ⟨ts, h₁, hspelled, hcanonical⟩ := callWith_sound room harguments hlen hcall
      exact ⟨ts, ⟨h₁, hspelled, hcanonical, Or.inr hfits, nextPower_le_primary _,
        fun hbare => absurd hbare (by simp [Expr.endsBare, Call.toExpr])⟩, rfl⟩
    · obtain ⟨t, c₁, h₁, rfl, rfl⟩ := (operandWith_of_symbol hname hnext).1 h
      have hnext' : c'.kind ≠ .openParen := by
        rw [Cursor.peek_one (by rw [hname]; decide)] at hnext
        rwa [(Cursor.passes_singleton_iff.1 h₁).2.2]
      exact ⟨[t], ⟨h₁, .symbol (by rw [← h₁.kind_eq, hname]) rfl, trivial, Or.inr hfits,
        nextPower_le_primary _, fun _ => hnext'⟩, rfl⟩
  · obtain ⟨value, hvalue⟩ := kind_eq_of_opening_operand hc hname
    obtain ⟨h₁, rfl⟩ := (operandWith_of_literal hvalue).1 h
    exact ⟨[c.current], ⟨h₁, .literal hvalue rfl, trivial, Or.inr hfits, nextPower_le_primary _,
      fun hbare => absurd hbare (by simp [Expr.endsBare])⟩, rfl⟩

lemma group_sound
    (hinner : ∀ {c e c'}, c.ahead.length ≤ room → inner c = .ok e c' →
      ∃ ts, e.Read .default .default c ts c')
    (hlen : c.ahead.length ≤ room + 1) (h : groupWith inner c = .ok e c') :
    ∃ ts, e.Read low .primary c ts c' ∧ e.power = .primary := by
  obtain ⟨opened, c₁, ⟨ho, h₁⟩, x, c₂, hx, closed, c₃, ⟨hcl, h₃⟩, rfl, rfl⟩ := groupWith_eq_ok.1 h
  have hlen₁ := h₁.length_le_of_le_succ hlen
  obtain ⟨us, hus⟩ := hinner hlen₁ hx
  exact ⟨opened :: (us ++ [closed]), ⟨h₁.append (hus.passes.append h₃),
    .group ho hus.spelled hcl (Span.covering_enclosed opened closed us).symm, hus.canonical,
    Or.inr (by decide : Power.unary ≤ .primary), nextPower_le_primary _,
    fun hbare => absurd hbare (by simp [Expr.endsBare])⟩, rfl⟩

lemma sign_sound
    (hinner : ∀ {c e c'}, c.ahead.length ≤ room → inner c = .ok e c' →
      ∃ ts, e.Read .unary .unary c ts c')
    (hlen : c.ahead.length ≤ room + 1) (hc : Tables.standard.opening c.kind = some .sign)
    (h : signWith inner c = .ok e c') :
    ∃ ts, e.Read low .unary c ts c' ∧ e.power = .unary := by
  obtain ⟨t, c₁, h₁, x, c₂, hx, rfl, rfl⟩ := (signWith_eq_ok (kind_ne_of_opening hc)).1 h
  have hlen₁ := h₁.length_le_of_le_succ hlen
  obtain ⟨us, hus⟩ := hinner hlen₁ hx
  rw [h₁.kind_eq] at hc
  obtain ⟨hop, ht⟩ := opening_sign_iff.1 hc
  have hpower : (signOf t.kind).power = .unary := by simp [UnaryOp.power, hop]
  refine ⟨t :: us, ⟨h₁.append hus.passes, .sign hop ht hus.spelled ?_, ⟨hus.canonical, ?_⟩, Or.inr ?_,
    hus.next, ?_⟩, hpower⟩
  · rw [hus.spelled.span_eq]
    exact (Span.covering_cons t hus.spelled.ne_nil).symm
  · rw [hpower]
    rcases hus.fits with hfits | hfits
    · exact Nat.le_of_lt hfits
    · exact hfits
  · rw [Expr.power, hpower]
    exact (by decide : Power.unary ≤ .unary)
  · intro hbare
    exact hus.bare (by simpa [Expr.endsBare, hop] using hbare)

section Loop

variable {c₀ : Cursor}

lemma step_sound {power : Power} (hlow : low ≤ .unary) (hleft : left.Read low left.power c₀ ts c)
    (hc : Tables.standard.continuation c.kind = some (power, .step)) (h : step left c = .ok e c') :
    ∃ us, e.Read low e.power c₀ (ts ++ us) c' ∧ us ≠ [] := by
  obtain ⟨t, c₁, h₁, rfl, rfl⟩ := (step_eq_ok (kind_ne_of_continuation hc)).1 h
  have hnext := hleft.next
  rw [nextPower_of_continuation hc] at hnext
  rw [h₁.kind_eq] at hc
  obtain ⟨rfl, hop, ht⟩ := continuation_step_iff.1 hc
  have hpower : (stepOf t.kind).power = .suffix := by simp [UnaryOp.power, hop]
  refine ⟨[t], ⟨hleft.passes.append h₁, .step hop hleft.spelled ht ?_, ⟨hleft.canonical, ?_⟩,
    Or.inl ?_, ?_, ?_⟩, by simp⟩
  · rw [hleft.spelled.span_eq]
    exact (Span.covering_append hleft.spelled.ne_nil (List.cons_ne_nil t [])).symm
  · rwa [hpower]
  · rw [Expr.power, hpower]
    exact Nat.lt_of_le_of_lt hlow (by decide)
  · rw [Expr.power, hpower]
    exact nextPower_le_suffix _
  · exact fun hbare => absurd hbare (by simp [Expr.endsBare, hop])

lemma binary_sound {op : BinaryOp}
    (hinner : ∀ {c e c'}, c.ahead.length ≤ room → inner c = .ok e c' →
      ∃ ts, e.Read (Tables.powerOf op) (Tables.powerOf op) c ts c')
    (hlen : c.ahead.length ≤ room + 1) (hlow : low < Tables.powerOf op)
    (hleft : left.Read low left.power c₀ ts c) (hc : c.kind = op.kind)
    (h : binaryWith left inner c = .ok e c') :
    ∃ us, e.Read low e.power c₀ (ts ++ us) c' ∧ us ≠ [] := by
  obtain ⟨t, c₁, h₁, x, c₂, hx, rfl, rfl⟩ := (binaryWith_eq_ok hc).1 h
  have hlen₁ := h₁.length_le_of_le_succ hlen
  obtain ⟨us, hus⟩ := hinner hlen₁ hx
  have hleftPower : Tables.powerOf op ≤ left.power := by
    have hnext := hleft.next
    rwa [nextPower_of_continuation (continuation_binary_iff.2 ⟨op, hc, rfl⟩)] at hnext
  have hrightPower : Tables.powerOf op < x.power := by
    rcases hus.fits with hfits | hfits
    · exact hfits
    · have := Power.rank_powerOf_le op
      exact Nat.lt_of_lt_of_le (Nat.lt_succ_of_le this) hfits
  refine ⟨t :: us, ⟨hleft.passes.append (h₁.append hus.passes),
    .binary hleft.spelled (by rw [← h₁.kind_eq, hc]) hus.spelled ?_,
    ⟨hleft.canonical, hus.canonical, hleftPower, hrightPower⟩, Or.inl hlow, hus.next, hus.bare⟩,
    by simp⟩
  rw [hleft.spelled.span_eq, hus.spelled.span_eq]
  rw [Placement.tight, Span.covering_append hleft.spelled.ne_nil (by simp),
    Span.covering_cons t hus.spelled.ne_nil]

end Loop

/-! ### One round -/

section Round

variable (hexpression : ∀ {low : Power} {c c' : Cursor} {e : Expr}, low ≤ .unary →
    c.ahead.length ≤ room → expressionWithin .standard room low c = .ok e c' →
    ∃ ts, e.Read low low c ts c')

include hexpression

/-- What an expression begins with is read up to where the loop starts. -/
lemma head_sound
    (harguments : ∀ {c es c'}, c.ahead.length < room → argumentsWithin .standard room c = .ok es c' →
      ∃ ts, es ≠ [] ∧ Expr.ArgumentsRead c ts es c')
    (hlen : c.ahead.length ≤ room + 1)
    (h : head .standard room (Tables.standard.opening c.kind) c = .ok left c') :
    ∃ ts, left.Read low left.power c ts c' := by
  rcases hc : Tables.standard.opening c.kind with _ | _ | _ | _ <;> rw [hc] at h
  · simp [head] at h
  · obtain ⟨ts, hts, hpower⟩ := operand_sound harguments hlen hc h
    exact ⟨ts, hpower ▸ hts⟩
  · obtain ⟨ts, hts, hpower⟩ := group_sound (hexpression (by decide)) hlen h
    exact ⟨ts, hpower ▸ hts⟩
  · obtain ⟨ts, hts, hpower⟩ := sign_sound (hexpression (by decide)) hlen hc h
    exact ⟨ts, hpower ▸ hts⟩

/-- One more operator extends what was read so far. -/
lemma extension_sound {c₀ : Cursor} {power : Power} {form : Continuation}
    (hlen : c.ahead.length ≤ room + 1) (hlow : low ≤ .unary) (hpower : low < power)
    (hleft : left.Read low left.power c₀ ts c)
    (hc : Tables.standard.continuation c.kind = some (power, form))
    (h : extension .standard room left power form c = .ok e c') :
    ∃ us, e.Read low e.power c₀ (ts ++ us) c' ∧ us ≠ [] := by
  cases form with
  | binary =>
    obtain ⟨op, hkind, rfl⟩ := continuation_binary_iff.1 hc
    have hop : Tables.powerOf op ≤ .unary := Nat.le_trans (Power.rank_powerOf_le op) (by decide)
    exact binary_sound (hexpression hop) hlen hpower hleft hkind h
  | step => exact step_sound hlow hleft hc h

end Round

mutual

/-- What is read from a cursor on is an expression, spelled by the tokens passed. -/
theorem expressionWithin_sound : ∀ (room : Nat) {low : Power} {c c' : Cursor} {e : Expr},
    low ≤ .unary → c.ahead.length ≤ room →
    expressionWithin .standard room low c = .ok e c' → ∃ ts, e.Read low low c ts c'
  | 0, _, _, _, _, _, _, h => by simp [expressionWithin] at h
  | room + 1, low, c, c', e, hlow, hlen, h => by
    rw [expressionWithin_succ, bind_eq_ok] at h
    obtain ⟨left, c₁, hleft, hrest⟩ := h
    obtain ⟨ts, hread⟩ : ∃ ts, left.Read low left.power c ts c₁ :=
      head_sound (fun h₀ h₁ h₂ => expressionWithin_sound room h₀ h₁ h₂)
        (fun h₁ h₂ => argumentsWithin_sound room h₁ h₂) hlen hleft
    have hlen₁ : c₁.ahead.length ≤ room := by
      have := hread.passes.length_lt hread.spelled.ne_nil
      omega
    obtain ⟨us, hus⟩ := continuationWithin_sound room hlow hlen₁ hread hrest
    exact ⟨ts ++ us, hus⟩

/-- The loop extends what was read so far. -/
theorem continuationWithin_sound : ∀ (room : Nat) {low : Power} {c₀ c c' : Cursor}
    {ts : List Token} {left e : Expr}, low ≤ .unary → c.ahead.length ≤ room →
    left.Read low left.power c₀ ts c → continuationWithin .standard room low left c = .ok e c' →
    ∃ us, e.Read low low c₀ (ts ++ us) c'
  | 0, low, c₀, c, c', ts, left, e, _, hlen, hleft, h => by
    obtain ⟨rfl, rfl⟩ := pure_eq_ok.1 h
    -- no tokens are left, and the end of the input continues nothing
    have hend : c'.nextPower = .default := by
      have hahead : c'.ahead = [] := List.length_eq_zero_iff.1 (Nat.le_zero.1 hlen)
      have hkind : c'.kind = .endOfInput := by simp [Cursor.kind, Cursor.current, hahead]
      rw [Cursor.nextPower, hkind]
      rfl
    refine ⟨[], ?_⟩
    rw [List.append_nil]
    exact { hleft with next := by rw [hend]; exact Nat.zero_le _ }
  | room + 1, low, c₀, c, c', ts, left, e, hlow, hlen, hleft, h => by
    rcases hc : Tables.standard.continuation c.kind with _ | ⟨power, form⟩
    · rw [continuationWithin_of_none hc] at h
      cases h
      refine ⟨[], ?_⟩
      rw [List.append_nil]
      exact { hleft with next := by rw [nextPower_of_none hc]; exact Nat.zero_le _ }
    -- a continuation that binds too loosely is left to an outer loop
    rw [continuationWithin_succ hc] at h
    by_cases hpower : power ≤ low
    · rw [if_pos hpower] at h
      cases h
      refine ⟨[], ?_⟩
      rw [List.append_nil]
      exact { hleft with next := by rwa [nextPower_of_continuation hc] }
    rw [if_neg hpower, bind_eq_ok] at h
    obtain ⟨longer, c₁, hlonger, hrest⟩ := h
    obtain ⟨us, hread, hus⟩ := extension_sound
      (fun h₀ h₁ h₂ => expressionWithin_sound room h₀ h₁ h₂) hlen hlow (Nat.lt_of_not_le hpower) hleft
      hc hlonger
    -- a round passes at least the operator, so that the room suffices for the others
    have hlen₁ : c₁.ahead.length ≤ room := by
      have h₁ := hleft.passes.length_eq
      have h₂ := hread.passes.length_eq
      have h₃ := List.length_pos_iff.2 hus
      rw [List.length_append] at h₂
      omega
    obtain ⟨vs, hvs⟩ := continuationWithin_sound room hlow hlen₁ hread hrest
    exact ⟨us ++ vs, by rwa [← List.append_assoc]⟩

/-- What is read as arguments of a call are arguments, spelled by the tokens passed. -/
theorem argumentsWithin_sound : ∀ (room : Nat) {c c' : Cursor} {es : List Expr},
    c.ahead.length < room → argumentsWithin .standard room c = .ok es c' →
    ∃ ts, es ≠ [] ∧ Expr.ArgumentsRead c ts es c'
  | 0, _, _, _, _, h => by simp [argumentsWithin] at h
  | room + 1, c, c', es, hlen, h => by
    rw [argumentsWithin, bind_eq_ok] at h
    obtain ⟨first, c₁, hfirst, hrest⟩ := h
    obtain ⟨ts, hts⟩ := expressionWithin_sound room (by decide) (Nat.le_of_lt_succ hlen) hfirst
    rw [currentKind_bind] at hrest
    by_cases hcomma : c₁.kind = .comma
    · have hend : c₁.kind ≠ .endOfInput := by
        rw [hcomma]
        decide
      simp only [if_pos hcomma, bind_eq_ok, advance_eq_ok hend, pure_eq_ok] at hrest
      obtain ⟨comma, c₂, h₂, others, c₃, hothers, rfl, rfl⟩ := hrest
      have hlen₂ : c₂.ahead.length < room := by
        have := hts.passes.length_lt hts.spelled.ne_nil
        have := h₂.length_lt (by simp)
        omega
      obtain ⟨us, hne, hus⟩ := argumentsWithin_sound room hlen₂ hothers
      obtain ⟨second, rest, rfl⟩ := List.exists_cons_of_ne_nil hne
      exact ⟨ts ++ comma :: us, by simp, hts.passes.append (h₂.append hus.passes),
        .more hts.spelled (by rw [← h₂.kind_eq, hcomma]) hus.spelled, hts.canonical, hus.canonical⟩
    · rw [if_neg hcomma] at hrest
      obtain ⟨rfl, rfl⟩ := pure_eq_ok.1 hrest
      exact ⟨ts, by simp, hts.passes, .last hts.spelled, hts.canonical, trivial⟩

end

/-! ## Which expressions are read -/

lemma exists_continuationWithin_of_head (hroom : c.ahead.length ≤ room) (h : c.Passes ts c')
    (hts : ts ≠ [])
    (hhead : ∀ r, c.ahead.length ≤ r + 1 →
      head .standard r (Tables.standard.opening c.kind) c = .ok e c') :
    ∃ r, c'.ahead.length ≤ r ∧
      expressionWithin .standard room low c = continuationWithin .standard r low e c' := by
  have hlt := h.length_lt hts
  obtain ⟨r, rfl⟩ : ∃ r, room = r + 1 := Nat.exists_eq_add_one.2 (by omega)
  refine ⟨r, by omega, ?_⟩
  rw [expressionWithin_succ]
  change EStateM.bind _ _ c = _
  rw [EStateM.bind, hhead r hroom]

lemma exists_continuationWithin_of_extension {power : Power} {form : Continuation}
    (hroom : c.ahead.length ≤ room) (h : c.Passes ts c') (hts : ts ≠ [])
    (hc : Tables.standard.continuation c.kind = some (power, form)) (hpower : ¬ power ≤ low)
    (hextension : ∀ r, c.ahead.length ≤ r + 1 →
      extension .standard r left power form c = .ok e c') :
    ∃ r, c'.ahead.length ≤ r ∧
      continuationWithin .standard room low left c = continuationWithin .standard r low e c' := by
  have hlt := h.length_lt hts
  obtain ⟨r, rfl⟩ : ∃ r, room = r + 1 := Nat.exists_eq_add_one.2 (by omega)
  refine ⟨r, by omega, ?_⟩
  rw [continuationWithin_succ hc, if_neg hpower]
  change EStateM.bind _ _ c = _
  rw [EStateM.bind, hextension r hroom]

mutual

/-- A spelled expression begins with a token with which an expression can start. -/
theorem exists_opening {P : Placement} : ∀ {ts : List Token} {e : Expr}, e.Spelled P ts →
    ∃ t us o, ts = t :: us ∧ Tables.standard.opening t.kind = some o
  | _, _, .literal hvalue _ => ⟨_, _, _, rfl, opening_of_literal hvalue⟩
  | _, _, .symbol hname _ => ⟨_, _, .operand, rfl, by rw [hname]; rfl⟩
  | _, _, .call hname _ _ _ _ => ⟨_, _, .operand, rfl, by rw [hname]; rfl⟩
  | _, _, .group hopened _ _ _ => ⟨_, _, .group, rfl, by rw [hopened]; rfl⟩
  | _, _, .sign hop ht _ _ => by
    refine ⟨_, _, .sign, rfl, opening_sign_iff.2 ?_⟩
    rw [ht, signOf_kind hop]
    exact ⟨hop, rfl⟩
  | _, _, .step _ h _ _ => by
    obtain ⟨t, us, o, rfl, ho⟩ := exists_opening h
    exact ⟨t, _, o, rfl, ho⟩
  | _, _, .binary h _ _ _ => by
    obtain ⟨t, us, o, rfl, ho⟩ := exists_opening h
    exact ⟨t, _, o, rfl, ho⟩

/-- So do spelled arguments, if there are any. -/
theorem exists_opening_arguments {P : Placement} : ∀ {ts : List Token} {es : List Expr},
    Expr.ArgumentsSpelled P ts es → es ≠ [] →
    ∃ t us o, ts = t :: us ∧ Tables.standard.opening t.kind = some o
  | _, _, .none, hne => absurd rfl hne
  | _, _, .last h, _ => exists_opening h
  | _, _, .more h _ _, _ => by
    obtain ⟨t, us, o, rfl, ho⟩ := exists_opening h
    exact ⟨t, _, o, rfl, ho⟩

end

/-- A cursor from which an expression is read is at a token with which one can start. -/
lemma exists_opening_kind {P : Placement} (h : e.Spelled P ts) (hts : c.Passes ts c') :
    ∃ o, Tables.standard.opening c.kind = some o := by
  obtain ⟨t, us, o, rfl, ho⟩ := exists_opening h
  exact ⟨o, by rw [hts.kind_eq, ho]⟩

lemma eq_ok_of_read (h : e.Read low low c ts c')
    (hrun : ∃ r, c'.ahead.length ≤ r ∧
      expressionWithin .standard room low c = continuationWithin .standard r low e c') :
    expressionWithin .standard room low c = .ok e c' := by
  obtain ⟨r, -, hrun⟩ := hrun
  rw [hrun, continuationWithin_stops h.next]

lemma callWith_complete (room : Nat) {name opened closed : Token} {es : List Expr}
    (hname : name.kind = .name) (hopened : opened.kind = .openParen)
    (hclosed : closed.kind = .closeParen) (hes : Expr.ArgumentsSpelled tight ts es)
    (h : c.Passes (name :: opened :: (ts ++ [closed])) c') (hlen : c.ahead.length ≤ room + 1)
    (harguments : ∀ {c₂ c₃}, es ≠ [] → c₂.Passes ts c₃ → c₃.kind = .closeParen →
      c₂.ahead.length < room → arguments c₂ = .ok es c₃) :
    callWith arguments c =
      .ok ⟨name.text, es, .covering (name :: opened :: (ts ++ [closed]))⟩ c' := by
  obtain ⟨c₁, h₁, hrest⟩ := Cursor.passes_cons_iff_singleton.1 h
  obtain ⟨c₂, h₂, hrest⟩ := Cursor.passes_cons_iff_singleton.1 hrest
  obtain ⟨c₃, h₃, h₄⟩ := Cursor.passes_append_iff.1 hrest
  have hgiven : if c₂.kind = .closeParen then es = [] ∧ c₃ = c₂ else arguments c₂ = .ok es c₃ := by
    by_cases hempty : es = []
    · subst hempty
      cases hes
      rw [Cursor.passes_nil_iff.1 h₃] at h₄ ⊢
      rw [if_pos (by rw [h₄.kind_eq, hclosed])]
      exact ⟨rfl, rfl⟩
    · -- the first argument begins with a token other than a closing parenthesis
      obtain ⟨t, us, o, rfl, ho⟩ := exists_opening_arguments hes hempty
      have hparen : c₂.kind ≠ .closeParen := by
        intro hc
        rw [← h₃.kind_eq, hc] at ho
        cases ho
      rw [if_neg hparen]
      have hlen₂ : c₂.ahead.length < room := by
        have := h₁.length_lt (by simp)
        have := h₂.length_lt (by simp)
        omega
      exact harguments hempty h₃ (by rw [h₄.kind_eq, hclosed]) hlen₂
  refine callWith_eq_ok.2 ⟨name, c₁, ⟨hname, h₁⟩, opened, c₂, ⟨hopened, h₂⟩, es, c₃, hgiven, closed,
    c', ⟨hclosed, h₄⟩, ?_, rfl⟩
  exact congrArg _ (Span.covering_enclosed name closed (opened :: ts))

/-- The token behind the name tells a call from a variable. -/
lemma peek_one_of_passes {name opened : Token} (h : c.Passes (name :: opened :: ts) c') :
    (c.peek 1).kind = opened.kind := by
  obtain ⟨c₁, h₁, hrest⟩ := Cursor.passes_cons_iff_singleton.1 h
  have hend := h₁.kind_ne_end
  rw [Cursor.peek_one hend, ← (Cursor.passes_singleton_iff.1 h₁).2.2, ← Cursor.kind, hrest.kind_eq]

lemma group_complete {opened closed : Token} (hopened : opened.kind = .openParen)
    (hclosed : closed.kind = .closeParen) (h : c.Passes (opened :: (ts ++ [closed])) c')
    (hlen : c.ahead.length ≤ room + 1)
    (hinner : ∀ {c₁ c₂}, c₁.Passes ts c₂ → c₂.kind = .closeParen → c₁.ahead.length ≤ room →
      inner c₁ = .ok e c₂) :
    groupWith inner c = .ok (.group e (.covering (opened :: (ts ++ [closed])))) c' := by
  obtain ⟨c₁, h₁, hrest⟩ := Cursor.passes_cons_iff_singleton.1 h
  obtain ⟨c₂, h₂, h₃⟩ := Cursor.passes_append_iff.1 hrest
  have hlen₁ := h₁.length_le_of_le_succ hlen
  rw [Span.covering_enclosed]
  exact groupWith_eq_ok.2 ⟨opened, c₁, ⟨hopened, h₁⟩, e, c₂,
    hinner h₂ (by rw [h₃.kind_eq, hclosed]) hlen₁, closed, c', ⟨hclosed, h₃⟩, rfl, rfl⟩

lemma sign_complete {op : UnaryOp} {t : Token} (hop : op.isPostfix = false) (ht : t.kind = op.kind)
    (hspelled : e.Spelled tight ts) (h : c.Passes (t :: ts) c') (hlen : c.ahead.length ≤ room + 1)
    (hinner : ∀ {c₁}, c₁.Passes ts c' → c₁.ahead.length ≤ room → inner c₁ = .ok e c') :
    signWith inner c = .ok (.unary op e (.covering (t :: ts))) c' := by
  obtain ⟨c₁, h₁, h₂⟩ := Cursor.passes_cons_iff_singleton.1 h
  have hend := h₁.kind_ne_end
  have hlen₁ := h₁.length_le_of_le_succ hlen
  refine (signWith_eq_ok hend).2 ⟨t, c₁, h₁, e, c', hinner h₂ hlen₁, ?_, rfl⟩
  rw [ht, signOf_kind hop, hspelled.span_eq, Span.covering_cons t hspelled.ne_nil]

lemma step_complete {op : UnaryOp} {t : Token} (hop : op.isPostfix = true) (ht : t.kind = op.kind)
    (hspelled : left.Spelled tight ts) (h : c.Passes [t] c') :
    step left c = .ok (.unary op left (.covering (ts ++ [t]))) c' := by
  have hend := h.kind_ne_end
  refine (step_eq_ok hend).2 ⟨t, c', h, ?_, rfl⟩
  rw [ht, stepOf_kind hop, hspelled.span_eq,
    Span.covering_append hspelled.ne_nil (List.cons_ne_nil t [])]
  rfl

lemma binary_complete {op : BinaryOp} {t : Token} (ht : t.kind = op.kind)
    (hleft : left.Spelled tight ts) (hspelled : e.Spelled tight us) (h : c.Passes (t :: us) c')
    (hlen : c.ahead.length ≤ room + 1)
    (hinner : ∀ {c₁}, c₁.Passes us c' → c₁.ahead.length ≤ room → inner c₁ = .ok e c') :
    binaryWith left inner c = .ok (.binary op left e (.covering (ts ++ t :: us))) c' := by
  obtain ⟨c₁, h₁, h₂⟩ := Cursor.passes_cons_iff_singleton.1 h
  have hlen₁ := h₁.length_le_of_le_succ hlen
  refine (binaryWith_eq_ok (by rw [h₁.kind_eq, ht])).2
    ⟨t, c₁, h₁, e, c', hinner h₂ hlen₁, ?_, rfl⟩
  rw [hleft.span_eq, hspelled.span_eq,
    Span.covering_append hleft.ne_nil (List.cons_ne_nil t us), Span.covering_cons t hspelled.ne_nil]

mutual

/-- The loop is entered with an expression that is to be read, once its tokens are passed. -/
theorem exists_continuationWithin : ∀ {ts : List Token} {e : Expr}, e.Spelled tight ts →
    ∀ {low : Power} {c c' : Cursor} {room : Nat}, low ≤ .unary → e.Read low e.power c ts c' →
    c.ahead.length ≤ room → ∃ r, c'.ahead.length ≤ r ∧
      expressionWithin .standard room low c = continuationWithin .standard r low e c'
  | _, _, .literal hvalue hspan, low, c, c', room, _, h, hroom => by
    have hcurrent := h.passes.current_eq
    refine exists_continuationWithin_of_head hroom h.passes h.spelled.ne_nil fun r _ => ?_
    rw [Cursor.kind, hcurrent, opening_of_literal hvalue]
    rw [← hcurrent] at hvalue
    refine (operandWith_of_literal hvalue).2 ⟨by rw [hcurrent]; exact h.passes, ?_⟩
    rw [hcurrent, hspan, Span.covering_singleton]
  | _, _, .symbol hname hspan, low, c, c', room, _, h, hroom => by
    have hkind := h.passes.kind_eq
    -- in front of a parenthesis the name would be that of a function
    have hnext : (c.peek 1).kind ≠ .openParen := by
      rw [Cursor.peek_one (by rw [hkind, hname]; decide), ← Cursor.kind,
        ← (Cursor.passes_singleton_iff.1 h.passes).2.2]
      exact h.bare rfl
    refine exists_continuationWithin_of_head hroom h.passes h.spelled.ne_nil fun r _ => ?_
    rw [hkind, hname]
    refine (operandWith_of_symbol (hkind.trans hname) hnext).2 ⟨_, c', h.passes, ?_, rfl⟩
    rw [hspan, Span.covering_singleton]
  | _, _, .call hname hopened hes hclosed hspan, low, c, c', room, _, h, hroom => by
    refine exists_continuationWithin_of_head hroom h.passes h.spelled.ne_nil fun r hr => ?_
    rw [h.passes.kind_eq, hname, hspan]
    have hcall := callWith_complete r hname hopened hclosed hes h.passes hr fun hne h₃ hc hlen =>
      argumentsWithin_complete hes hne ⟨h₃, hes, h.canonical⟩ hc hlen
    have hkind : c.kind = .name := by rw [h.passes.kind_eq, hname]
    exact (operandWith_of_call hkind (by rw [peek_one_of_passes h.passes, hopened])).2
      ⟨_, hcall, rfl⟩
  | _, _, @Expr.Spelled.group _ opened closed ts inner span hopened hinner hclosed hspan, low, c, c',
      room, _, h, hroom => by
    refine exists_continuationWithin_of_head hroom h.passes h.spelled.ne_nil fun r hr => ?_
    rw [h.passes.kind_eq, hopened, hspan]
    refine group_complete hopened hclosed h.passes hr fun {c₁ c₂} h₂ hc hlen => ?_
    have hread : inner.Read .default .default c₁ ts c₂ :=
      .of_continuation_eq h₂ hinner h.canonical (by rw [hc]; rfl) (by rw [hc]; decide)
    exact eq_ok_of_read hread
      (exists_continuationWithin hinner (by decide) (hread.widen (by decide)) hlen)
  | _, _, @Expr.Spelled.sign _ op t ts operand span hop ht hoperand hspan, low, c, c', room, _, h,
      hroom => by
    refine exists_continuationWithin_of_head hroom h.passes h.spelled.ne_nil fun r hr => ?_
    rw [h.passes.kind_eq, ht, opening_of_sign hop, hspan]
    refine sign_complete hop ht hoperand h.passes hr fun {c₁} h₂ hlen => ?_
    have hread : operand.Read .unary .unary c₁ ts c' := h.operand_of_sign hop hoperand h₂
    exact eq_ok_of_read hread
      (exists_continuationWithin hoperand (by decide) (hread.widen (by decide)) hlen)
  | _, _, @Expr.Spelled.step _ op t ts operand span hop hoperand ht hspan, low, c, c', room, hlow,
      h, hroom => by
    obtain ⟨c₁, h₁, h₂⟩ := Cursor.passes_append_iff.1 h.passes
    have hc : Tables.standard.continuation c₁.kind = some (.suffix, .step) := by
      rw [h₂.kind_eq, ht, continuation_of_step hop]
    have hpower : ¬ Power.suffix ≤ low := Nat.not_le_of_lt (Nat.lt_of_le_of_lt hlow (by decide))
    -- first what stands in front of the operator, then one round of the loop
    obtain ⟨r, hr, hrun⟩ := exists_continuationWithin hoperand hlow
      (h.operand_of_step hop ht hlow hoperand h₁ h₂) hroom
    obtain ⟨r', hr', hrun'⟩ := exists_continuationWithin_of_extension hr h₂ (by simp) hc hpower
      fun _ _ => step_complete hop ht hoperand h₂
    rw [hspan]
    exact ⟨r', hr', hrun.trans hrun'⟩
  | _, _, @Expr.Spelled.binary _ op t ts us left right span hleft ht hright hspan, low, c, c', room,
      hlow, h, hroom => by
    obtain ⟨c₁, h₁, h₂⟩ := Cursor.passes_append_iff.1 h.passes
    have hop : Tables.powerOf op ≤ .unary := Nat.le_trans (Power.rank_powerOf_le op) (by decide)
    have hc : Tables.standard.continuation c₁.kind = some (Tables.powerOf op, .binary) := by
      rw [h₂.kind_eq, ht, continuation_of_binary]
    obtain ⟨r, hr, hrun⟩ := exists_continuationWithin hleft hlow
      (h.left_of_binary ht hleft h₁ h₂) hroom
    obtain ⟨r', hr', hrun'⟩ := exists_continuationWithin_of_extension hr h₂ (by simp) hc
      (Nat.not_le_of_lt h.lt_powerOf) fun s hs => binary_complete ht hleft hright h₂ hs
        fun {c₂} h₃ hlen => by
          have hread := h.right_of_binary hright h₃
          exact eq_ok_of_read hread
            (exists_continuationWithin hright hop (hread.widen hop) hlen)
    rw [hspan]
    exact ⟨r', hr', hrun.trans hrun'⟩

/-- Arguments in front of a closing parenthesis are read. -/
theorem argumentsWithin_complete : ∀ {ts : List Token} {es : List Expr},
    Expr.ArgumentsSpelled tight ts es → ∀ {c c' : Cursor} {room : Nat}, es ≠ [] →
    Expr.ArgumentsRead c ts es c' → c'.kind = .closeParen → c.ahead.length < room →
    argumentsWithin .standard room c = .ok es c'
  | _, _, .none, _, _, _, hne, _, _, _ => absurd rfl hne
  | _, _, .last _, _, _, 0, _, _, _, hroom => absurd hroom (Nat.not_lt_zero _)
  | _, _, @Expr.ArgumentsSpelled.last _ ts e hspelled, c, c', room + 1, _, h, hc, hroom => by
    have hread : e.Read .default .default c ts c' :=
      .of_continuation_eq h.passes hspelled h.canonical.1 (by rw [hc]; rfl) (by rw [hc]; decide)
    have hrun := eq_ok_of_read hread (exists_continuationWithin hspelled (by decide)
      (hread.widen (by decide)) (Nat.le_of_lt_succ hroom))
    rw [argumentsWithin, bind_eq_ok]
    refine ⟨_, c', hrun, ?_⟩
    rw [currentKind_bind, if_neg (by rw [hc]; decide)]
    rfl
  | _, _, .more _ _ _, _, _, 0, _, _, _, hroom => absurd hroom (Nat.not_lt_zero _)
  | _, _, @Expr.ArgumentsSpelled.more _ ts us comma e f es hspelled hcomma hs, c, c', room + 1, _, h,
      hc, hroom => by
    obtain ⟨c₁, h₁, hrest⟩ := Cursor.passes_append_iff.1 h.passes
    obtain ⟨c₂, h₂, h₃⟩ := Cursor.passes_cons_iff_singleton.1 hrest
    have hkind : c₁.kind = .comma := by rw [h₂.kind_eq, hcomma]
    have hread : e.Read .default .default c ts c₁ :=
      .of_continuation_eq h₁ hspelled h.canonical.1 (by rw [hkind]; rfl) (by rw [hkind]; decide)
    have hrun := eq_ok_of_read hread (exists_continuationWithin hspelled (by decide)
      (hread.widen (by decide)) (Nat.le_of_lt_succ hroom))
    have hlen : c₂.ahead.length < room := by
      have := h₁.length_lt hspelled.ne_nil
      have := h₂.length_lt (by simp)
      omega
    have hothers := argumentsWithin_complete hs (by simp) ⟨h₃, hs, h.canonical.2⟩ hc hlen
    rw [argumentsWithin, bind_eq_ok]
    refine ⟨_, c₁, hrun, ?_⟩
    rw [currentKind_bind, if_pos hkind]
    simp only [bind_eq_ok, advance_eq_ok (show c₁.kind ≠ .endOfInput by rw [hkind]; decide),
      pure_eq_ok]
    exact ⟨_, c₂, h₂, _, c', hothers, rfl, rfl⟩

end

/-- A run of the recursion over powers reads exactly the expressions that are spelled by the tokens
passed, fit into the place, and are not continued by the token behind them. -/
theorem expressionWithin_eq_ok_iff (hlow : low ≤ .unary) (hroom : c.ahead.length ≤ room) :
    expressionWithin .standard room low c = .ok e c' ↔ ∃ ts, e.Read low low c ts c' := by
  constructor
  · exact expressionWithin_sound room hlow hroom
  · rintro ⟨ts, h⟩
    exact eq_ok_of_read h (exists_continuationWithin h.spelled hlow (h.widen hlow) hroom)

/-- An expression that stands alone is read exactly if it is spelled by the tokens passed and
canonical, and the token behind it does not continue it. -/
theorem expression_eq_ok_iff (hlow : low ≤ .unary) :
    expression .standard low c = .ok e c' ↔ ∃ ts, e.Read low low c ts c' :=
  expressionWithin_eq_ok_iff hlow (Nat.le_refl _)

/-! ## Expressions and calls inside statements -/

lemma expression_sound (h : expression .standard .default c = .ok e c') :
    ∃ ts, c.Passes ts c' ∧ e.Spelled tight ts ∧ e.Canonical := by
  obtain ⟨ts, hread⟩ := (expression_eq_ok_iff (by decide)).1 h
  exact ⟨ts, hread.passes, hread.spelled, hread.canonical⟩

lemma expression_complete (h : c.Passes ts c') (hspelled : e.Spelled tight ts)
    (hcanonical : e.Canonical) (hnone : Tables.standard.continuation c'.kind = none)
    (hopen : c'.kind ≠ .openParen) : expression .standard .default c = .ok e c' :=
  (expression_eq_ok_iff (by decide)).2 ⟨ts, .of_continuation_eq h hspelled hcanonical hnone hopen⟩

lemma call_sound {call : Call} (h : Grammar.call .standard c = .ok call c') :
    ∃ ts, c.Passes ts c' ∧ call.toExpr.Spelled tight ts ∧ call.toExpr.Canonical := by
  refine callWith_sound c.ahead.length (fun hlen hrun => ?_) (Nat.le_succ _) h
  exact argumentsWithin_sound _ (Nat.lt_succ_self _) hrun

lemma call_complete {call : Call} (h : c.Passes ts c') (hspelled : call.toExpr.Spelled tight ts)
    (hcanonical : call.toExpr.Canonical) : Grammar.call .standard c = .ok call c' := by
  rcases call with ⟨callee, es, span⟩
  cases hspelled with
  | call hname hopened hes hclosed hspan =>
    obtain rfl : span = .covering _ := hspan
    exact callWith_complete c.ahead.length hname hopened hclosed hes h (Nat.le_succ _)
      fun hne h₃ hc hlen =>
        argumentsWithin_complete hes hne ⟨h₃, hes, hcanonical⟩ hc (Nat.lt_succ_self _)

end Grammar

end LangCheck
