import LangCheck.Proofs.Grammar.Locality
import LangCheck.Proofs.Grammar.Phrases

/-!
# The runs of the parsers of expressions

Every production of expressions is decided by the tokens that it passes and the one behind them, and so is
the recursion over powers, whatever room it is given, as long as it suffices.  What a failed run passed is
the beginning of an expression.
-/

namespace LangCheck.Grammar

open Placement

variable {c c₀ : Cursor} {ts : List Token} {left : Expr} {low : Power} {k o : ℕ}

lemma kind_ne_malformed_of_literal {t : Token} {value : Literal} (h : value.Spelled t) :
    t.kind ≠ .malformed := by
  rcases value with text | text | _ | _ <;> simp [Literal.Spelled] at h <;> simp [h]

/-- A list with commas between its members. -/
lemma commaList_reads {α : Type} {L M : List Token → Prop} {p : ℕ → Parser α}
    {others : ℕ → Parser (List α)} (hp : Reads (k + 1) o M p c) (hlast : ∀ us, M us → L us)
    (hmore : ∀ {us t vs}, M us → t.kind = .comma → L vs → L (us ++ t :: vs))
    (hothers : ∀ {c₁ : Cursor} {o' : ℕ}, c₁.ahead.length < c.ahead.length → o < o' →
      Reads (k + 1) o' L others c₁) :
    Reads (k + 1) o L (fun room => p room >>= fun first => do
      if (← currentKind) = .comma then
        let _ ← advance
        return first :: (← others room)
      else
        return [first]) c := by
  have hend : ∀ us, M us → L (us ++ []) := fun us hus => by
    rw [List.append_nil]
    exact hlast us hus
  refine hp.bind (fun us hus => ⟨[], hend us hus⟩) fun {first c₁ us} h₁ hus _ => ?_
  refine .currentKind_bind (.ite (fun hcomma => ?_) fun _ => .pure (hend us hus))
  refine .advance_kind_bind hcomma (by decide) (by decide) fun ht h₂ => ?_
  have hlen := (h₁.append h₂).length_lt (by simp)
  exact ((hothers hlen (by omega)).mono fun vs hvs => hmore hus ht hvs).bind_nil (.pure rfl)

/-! ## Productions -/

section Productions

variable {arguments : ℕ → Parser (List Expr)} {inner : ℕ → Parser Expr}

/-- Reads a call behind its name. -/
def callBehind (arguments : Parser (List Expr)) (name : Token) : Parser Call := do
  let _ ← expect .openParen
  let given ← if (← currentKind) = .closeParen then pure [] else arguments
  let close ← expect .closeParen
  return ⟨name.text, given, ⟨name.span.start, close.span.stop⟩⟩

lemma callWith_eq (arguments : Parser (List Expr)) :
    callWith arguments = expect .name >>= callBehind arguments := rfl

lemma callBehind_reads {name : Token} (hname : name.kind = .name)
    (harguments : ∀ {c₁ : Cursor}, c₁.ahead.length < c.ahead.length →
      Reads (k + 1) (o + 1) ArgumentTokens arguments c₁) :
    Reads (k + 1) o (fun us => CallTokens (name :: us))
      (fun room => callBehind (arguments room) name) c := by
  unfold callBehind
  refine .expect_bind (by decide) (by decide)
    ⟨.word .openParen :: ([] ++ [.word .closeParen]), callTokens hname rfl (.inl rfl) rfl⟩
    fun {opened c₁} ho h₁ => ?_
  have hclose : ∀ {given c₂ o' ts}, IfAny ArgumentTokens ts →
      Reads (k + 1) o' (fun us => CallTokens (name :: opened :: (ts ++ us))) (fun _ => do
        let close ← expect .closeParen
        return (⟨name.text, given, ⟨name.span.start, close.span.stop⟩⟩ : Call)) c₂ := fun hts =>
    .expect_bind (by decide) (by decide) ⟨[.word .closeParen], callTokens hname ho hts rfl⟩
      fun hcl _ => .pure (callTokens hname ho hts hcl)
  refine .currentKind_bind (.ite (fun _ => hclose (.inl rfl)) fun _ => ?_)
  exact (harguments (h₁.length_lt (by simp))).bind
    (fun _ hts => ⟨[.word .closeParen], callTokens hname ho (.inr hts) rfl⟩)
    fun _ hts _ => hclose (.inr hts)

lemma callWith_of_name {arguments : Parser (List Expr)} (hc : c.kind = .name) :
    callWith arguments c = callBehind arguments c.current c.next := by
  rw [callWith_eq]
  exact bind_of_ok (if_pos hc)

/-- The token behind a name tells a call from a variable. -/
lemma operandWith_of_name {arguments : Parser (List Expr)} (hc : c.kind = .name) :
    operandWith arguments c = (advance >>= fun name => do
      if (← currentKind) = .openParen then
        return (← callBehind arguments name).toExpr
      else
        return .symbol name.text name.span : Parser Expr) c := by
  have hnext : (c.peek 1).kind = c.next.kind := by
    rw [Cursor.peek_one (by rw [hc]; decide), Cursor.kind]
  rw [bind_of_ok (show advance c = .ok c.current c.next from rfl), operandWith]
  simp only [currentKind_bind, peekKind_bind, hc, hnext]
  by_cases hparen : c.next.kind = .openParen
  · simp only [if_pos hparen]
    exact bind_eq_bind (callWith_of_name hc)
  · simp only [if_neg hparen]
    rfl

lemma operandWith_reads (hc : Tables.standard.opening c.kind = some .operand)
    (harguments : ∀ {c₁ : Cursor}, c₁.ahead.length < c.ahead.length →
      Reads (k + 1) (o + 2) ArgumentTokens arguments c₁) :
    Reads (k + 1) o (ExprTokens .unary) (fun room => operandWith (arguments room)) c := by
  by_cases hname : c.kind = .name
  · refine .congr ?_ fun room d _ hd => operandWith_of_name (by rw [Cursor.kind_congr hd, hname])
    refine .advance_kind_bind hname (by decide) (by decide) fun {name c₁} ht h₁ => ?_
    refine .currentKind_bind (.ite (fun _ => ?_) fun _ => .pure (exprTokens_symbol ht))
    have hcall := callBehind_reads ht fun {c₂} (h₂ : c₂.ahead.length < c₁.ahead.length) =>
      harguments (Nat.lt_trans h₂ (h₁.length_lt (by simp)))
    exact (hcall.mono fun _ => CallTokens.expr).bind_nil (.pure rfl)
  · obtain ⟨value, hvalue⟩ := kind_eq_of_opening_operand hc hname
    have hp : Decided (k + 1) o (fun room => operandWith (arguments room)) c [c.current] c.next
        (.ok (.literal value c.current.span)) := by
      refine .step hvalue.kind_ne (kind_ne_malformed_of_literal hvalue) fun room d _ hd => ?_
      rw [← hd] at hvalue ⊢
      refine (operandWith_of_literal hvalue).2 ⟨?_, rfl⟩
      exact Cursor.passes_singleton_iff.2 ⟨rfl, hvalue.kind_ne, rfl⟩
    exact ⟨_, _, _, hp, exprTokens_literal hvalue⟩

lemma groupWith_reads (hinner : ∀ {c₁ : Cursor}, c₁.ahead.length < c.ahead.length →
      Reads (k + 1) (o + 1) (ExprTokens .default) inner c₁) :
    Reads (k + 1) o (ExprTokens low) (fun room => groupWith (inner room)) c := by
  unfold groupWith
  refine .expect_bind (by decide) (by decide)
    ⟨.word .openParen :: ([.word .trueWord] ++ [.word .closeParen]),
      exprTokens_group rfl exprTokens_true rfl⟩ fun {opened c₁} ho h₁ => ?_
  refine (hinner (h₁.length_lt (by simp))).bind
    (fun _ hts => ⟨[.word .closeParen], exprTokens_group ho hts rfl⟩) fun _ hts _ => ?_
  exact .expect_bind (by decide) (by decide) ⟨[.word .closeParen], exprTokens_group ho hts rfl⟩
    fun hcl _ => .pure (exprTokens_group ho hts hcl)

lemma signWith_reads (hc : Tables.standard.opening c.kind = some .sign)
    (hinner : ∀ {c₁ : Cursor}, c₁.ahead.length < c.ahead.length →
      Reads (k + 1) (o + 1) (ExprTokens .unary) inner c₁) :
    Reads (k + 1) o (ExprTokens low) (fun room => signWith (inner room)) c := by
  have hend := kind_ne_of_opening hc
  unfold signWith
  refine .advance_bind hend (fun hbad => by rw [hbad] at hc; cases hc) ?_
  have hrest := hinner (Cursor.length_next_lt hend)
  exact (hrest.mono fun _ => exprTokens_sign hc).bind_nil (.pure rfl)

section Loop

/-- What was read so far is extended by one more operator. -/
lemma binaryWith_reads {op : BinaryOp} (hc : c.kind = op.kind) (hlow : low < Tables.powerOf op)
    (hleft : left.Read low left.power c₀ ts c)
    (hinner : ∀ {c₁ : Cursor}, c₁.ahead.length < c.ahead.length →
      Reads (k + 1) (o + 1) (ExprTokens (Tables.powerOf op)) inner c₁) :
    Reads (k + 1) o (fun us => ExprTokens low (ts ++ us))
      (fun room => binaryWith left (inner room)) c := by
  have hend : c.kind ≠ .endOfInput := by
    rw [hc]
    exact op.kind_ne
  have hpower : Tables.powerOf op ≤ left.power := by
    have hnext := hleft.next
    rwa [nextPower_of_continuation (continuation_binary_iff.2 ⟨op, hc, rfl⟩)] at hnext
  unfold binaryWith
  refine .currentKind_bind ?_
  simp only [ofKind?_eq_some_iff.2 hc]
  refine .advance_bind hend (by rw [hc]; cases op <;> decide) ?_
  have hrest := hinner (Cursor.length_next_lt hend)
  exact (hrest.mono fun _ =>
    exprTokens_binary hleft.spelled hleft.canonical hpower hlow hc).bind_nil (.pure rfl)

lemma step_reads {power : Power} (hc : Tables.standard.continuation c.kind = some (power, .step))
    (hleft : left.Read low left.power c₀ ts c) :
    Reads k o (fun us => ExprTokens low (ts ++ us)) (fun _ => step left) c := by
  have hnext := hleft.next
  rw [nextPower_of_continuation hc] at hnext
  obtain ⟨rfl, hop, ht⟩ := continuation_step_iff.1 hc
  unfold step
  refine .advance_bind (kind_ne_of_continuation hc) (fun hbad => by rw [hbad] at hc; cases hc) ?_
  exact .pure (exprTokens_step hleft.spelled hleft.canonical hnext hop ht)

end Loop

end Productions

/-! ## The recursion -/

/-- The parsers of the recursion read what they should from a cursor on. -/
structure ExpressionsRead (k : ℕ) (c : Cursor) : Prop where
  expression : ∀ {low : Power}, low ≤ .unary →
    Reads (k + 1) 0 (ExprTokens low) (fun room => expressionWithin .standard room low) c
  continuation : ∀ {low : Power} {c₀ : Cursor} {ts : List Token} {left : Expr}, low ≤ .unary →
    left.Read low left.power c₀ ts c → Reads (k + 1) 0 (fun us => ExprTokens low (ts ++ us))
      (fun room => continuationWithin .standard room low left) c
  arguments : Reads (k + 1) 1 ArgumentTokens (argumentsWithin .standard) c

/-- Where no expression begins, none is read. -/
lemma expressionWithin_reads_of_none (p : Power) (hc : Tables.standard.opening c.kind = none) :
    Reads (k + 1) 0 (ExprTokens p) (fun room => expressionWithin .standard room low) c := by
  refine (Reads.unexpected ⟨_, exprTokens_true⟩).congr fun room d hroom hd => ?_
  cases room with
  | zero => rw [expressionWithin]
  | succ room =>
    rw [expressionWithin_succ, Cursor.kind_congr hd, hc]
    rfl

/-- Where an expression begins, first its head is read and then what continues it. -/
lemma expressionWithin_of_opening {form : Opening} {room : ℕ}
    (hc : Tables.standard.opening c.kind = some form) (hroom : c.ahead.length ≤ room) :
    expressionWithin .standard room low c =
      (head .standard (room - 1) (some form) >>= continuationWithin .standard (room - 1) low) c := by
  obtain ⟨room, rfl⟩ := Cursor.exists_room (kind_ne_of_opening hc) hroom
  rw [expressionWithin_succ, hc]
  rfl

section Recursion

variable (ih : ∀ c₁ : Cursor, c₁.ahead.length < c.ahead.length → ExpressionsRead k c₁)

include ih

lemma head_reads {form : Opening} (hc : Tables.standard.opening c.kind = some form) :
    Reads (k + 1) 0 (ExprTokens .unary)
      (fun room => head .standard (room - 1) (some form)) c := by
  cases form with
  | operand =>
    exact operandWith_reads hc fun h₁ => (ih _ h₁).arguments.within fun _ _ _ => by omega
  | group =>
    exact groupWith_reads fun h₁ => ((ih _ h₁).expression (by decide)).within fun _ _ _ => by omega
  | sign =>
    exact signWith_reads hc fun h₁ => ((ih _ h₁).expression (by decide)).within fun _ _ _ => by omega

lemma extension_reads {power : Power} {form : Continuation} (hlow : low < power)
    (hleft : left.Read low left.power c₀ ts c)
    (hc : Tables.standard.continuation c.kind = some (power, form)) :
    Reads (k + 1) 0 (fun us => ExprTokens low (ts ++ us))
      (fun room => extension .standard (room - 1) left power form) c := by
  cases form with
  | binary =>
    obtain ⟨op, hkind, rfl⟩ := continuation_binary_iff.1 hc
    have hop : Tables.powerOf op ≤ .unary := Nat.le_trans (Power.rank_powerOf_le op) (by decide)
    exact binaryWith_reads hkind hlow hleft fun h₁ =>
      ((ih _ h₁).expression hop).within fun _ _ _ => by omega
  | step => exact step_reads hc hleft

lemma continuationWithin_reads (hlow : low ≤ .unary) (hleft : left.Read low left.power c₀ ts c) :
    Reads (k + 1) 0 (fun us => ExprTokens low (ts ++ us))
      (fun room => continuationWithin .standard room low left) c := by
  have hdone : ExprTokens low (ts ++ []) := by
    rw [List.append_nil]
    exact ⟨left, hleft.spelled, hleft.canonical, hleft.fits⟩
  by_cases hstop : c.nextPower ≤ low
  · refine (Reads.pure (a := left) hdone).congr fun room d _ hd => ?_
    exact continuationWithin_stops (by rwa [Cursor.nextPower, Cursor.kind_congr hd])
  rcases hc : Tables.standard.continuation c.kind with _ | ⟨power, form⟩
  · rw [nextPower_of_none hc] at hstop
    exact absurd (Nat.zero_le _) hstop
  rw [nextPower_of_continuation hc] at hstop
  have hpower : low < power := Nat.lt_of_not_le hstop
  -- one round of the loop, and the others behind it
  refine .congr (q := fun room => extension .standard (room - 1) left power form >>=
    continuationWithin .standard (room - 1) low) ?_ fun room d hroom hd => ?_
  · refine (extension_reads ih hpower hleft hc).bind (fun us hus => ⟨[], by simpa using hus⟩)
      fun {longer c₁ us} h₁ _ hlonger => ?_
    obtain ⟨vs, hread, hvs⟩ := extension_sound (expressionWithin_sound _) (by omega) hlow hpower hleft
      hc hlonger
    obtain rfl : us = vs := List.append_cancel_left ((hleft.passes.append h₁).unique hread.passes)
    have hrest := (ih c₁ (h₁.length_lt hvs)).continuation hlow hread
    have hpos := List.length_pos_iff.2 hvs
    exact (hrest.mono fun ws hws => by rwa [← List.append_assoc]).within fun _ _ _ => by omega
  · have hne : d.kind ≠ .endOfInput := by
      rw [Cursor.kind_congr hd]
      exact kind_ne_of_continuation hc
    obtain ⟨room, rfl⟩ := Cursor.exists_room hne hroom
    rw [continuationWithin_succ (by rw [Cursor.kind_congr hd, hc]), if_neg hstop]
    rfl

lemma expressionWithin_reads (hlow : low ≤ .unary) :
    Reads (k + 1) 0 (ExprTokens low) (fun room => expressionWithin .standard room low) c := by
  rcases hc : Tables.standard.opening c.kind with _ | form
  · exact expressionWithin_reads_of_none low hc
  · refine .congr (q := fun room => head .standard (room - 1) (some form) >>=
      continuationWithin .standard (room - 1) low) ?_ fun room d hroom hd => ?_
    · refine (head_reads ih hc).bind (fun us hus => ⟨[], by simpa using hus.anywhere⟩)
        fun {left c₁ us} h₁ hus hleft => ?_
      rw [← hc] at hleft
      obtain ⟨vs, hread⟩ : ∃ vs, left.Read low left.power c vs c₁ :=
        head_sound (expressionWithin_sound _) (argumentsWithin_sound _) (by omega) hleft
      obtain rfl : us = vs := h₁.unique hread.passes
      have hpos := List.length_pos_iff.2 hus.ne_nil
      exact ((ih c₁ (h₁.length_lt hus.ne_nil)).continuation hlow hread).within
        fun _ _ _ => by omega
    · exact expressionWithin_of_opening (by rwa [Cursor.kind_congr hd]) hroom

lemma argumentsWithin_reads : Reads (k + 1) 1 ArgumentTokens (argumentsWithin .standard) c := by
  refine .congr (commaList_reads (p := fun room => expressionWithin .standard (room - 1) .default)
    ?_ (fun _ => ExprTokens.last) ExprTokens.more fun h₁ ho =>
      (ih _ h₁).arguments.within (g := fun room => room - 1) fun _ _ _ => by omega)
    fun room d hroom _ => ?_
  · exact (expressionWithin_reads ih (by decide)).within fun _ _ _ => by omega
  · obtain ⟨room, rfl⟩ := Nat.exists_eq_add_one.2 (show 0 < room by omega)
    rw [argumentsWithin]
    rfl

end Recursion

/-- Each round passes a token, so that the parsers of the recursion read what they should everywhere. -/
theorem expressionsRead (k : ℕ) (c : Cursor) : ExpressionsRead k c :=
  have ih : ∀ c₁ : Cursor, c₁.ahead.length < c.ahead.length → ExpressionsRead k c₁ :=
    fun c₁ _ => expressionsRead k c₁
  ⟨expressionWithin_reads ih, continuationWithin_reads ih, argumentsWithin_reads ih⟩
termination_by c.ahead.length

/-! ## Expressions and calls inside statements -/

lemma expression_reads :
    Reads (k + 1) o (ExprTokens .default) (fun _ => expression .standard .default) c :=
  ((expressionsRead k c).expression (by decide)).withRoom

lemma arguments_reads : Reads (k + 1) o ArgumentTokens (fun _ => arguments .standard) c :=
  Reads.withRoom (p := fun room => argumentsWithin .standard (room + 1))
    ((expressionsRead k c).arguments.within fun _ _ _ => by omega)

end LangCheck.Grammar
