import LangCheck.Grammar.Cursor
import Mathlib.Tactic.Lemma

/-!
# Runs of parsers

A successful run of a parser takes the cursor over some tokens.  `Cursor.Passes` says which ones; none
of them is an end of input.  The lemmas below open the runs of parsers that are put together from
others (`bind_eq_ok`) and tell what the parsers do that look at one token only: with them a run of a
production is a chain of passages.
-/

namespace LangCheck

/-- The span from the beginning of the first to the end of the last of some tokens. -/
def Span.covering (ts : List Token) : Span :=
  ⟨(ts.head?.map (·.span.start)).getD default, (ts.getLast?.map (·.span.stop)).getD default⟩

namespace Span

variable {t : Token} {ts us : List Token}

lemma start_covering_append (h : ts ≠ []) : (covering (ts ++ us)).start = (covering ts).start := by
  cases ts with
  | nil => exact absurd rfl h
  | cons t ts => rfl

lemma stop_covering_append (h : us ≠ []) : (covering (ts ++ us)).stop = (covering us).stop := by
  rw [covering, covering, List.getLast?_append, List.getLast?_eq_some_getLast h, Option.some_or]

lemma stop_covering_cons (h : ts ≠ []) : (covering (t :: ts)).stop = (covering ts).stop :=
  @stop_covering_append [t] ts h

@[simp] lemma covering_singleton : covering [t] = t.span := rfl

/-- Tokens between two others do not count. -/
lemma covering_enclosed (t u : Token) (ts : List Token) :
    covering (t :: (ts ++ [u])) = ⟨t.span.start, u.span.stop⟩ := by
  simp [covering, List.getLast?_cons]

lemma covering_cons (t : Token) (h : ts ≠ []) :
    covering (t :: ts) = ⟨t.span.start, (covering ts).stop⟩ := by
  rw [← stop_covering_cons h]
  rfl

lemma covering_append (hts : ts ≠ []) (hus : us ≠ []) :
    covering (ts ++ us) = ⟨(covering ts).start, (covering us).stop⟩ := by
  rw [← start_covering_append hts, ← stop_covering_append hus]

end Span

namespace Grammar

/-- A cursor comes from one place to another over the given tokens, none of which is an end of
input. -/
inductive Cursor.Passes : Cursor → List Token → Cursor → Prop
  | nil {c : Cursor} : Passes c [] c
  | cons {c c' : Cursor} {ts : List Token} :
      c.kind ≠ .endOfInput → Passes c.next ts c' → Passes c (c.current :: ts) c'

namespace Cursor

variable {c c' c₁ c₂ : Cursor} {t : Token} {ts us rest : List Token}

@[simp] lemma passes_nil_iff : c.Passes [] c' ↔ c' = c := by
  constructor
  · rintro ⟨⟩
    rfl
  · rintro rfl
    exact .nil

lemma passes_cons_iff :
    c.Passes (t :: ts) c' ↔ c.current = t ∧ t.kind ≠ .endOfInput ∧ c.next.Passes ts c' := by
  constructor
  · rintro ⟨⟩
    exact ⟨rfl, by assumption, by assumption⟩
  · rintro ⟨rfl, hkind, h⟩
    exact .cons hkind h

lemma passes_singleton_iff :
    c.Passes [t] c' ↔ c.current = t ∧ t.kind ≠ .endOfInput ∧ c' = c.next := by
  rw [passes_cons_iff, passes_nil_iff]

lemma passes_append_iff : c.Passes (ts ++ us) c' ↔ ∃ c₁, c.Passes ts c₁ ∧ c₁.Passes us c' := by
  induction ts generalizing c with
  | nil => simp
  | cons t ts ih => simp [passes_cons_iff, ih, and_assoc]

lemma passes_cons_iff_singleton :
    c.Passes (t :: ts) c' ↔ ∃ c₁, c.Passes [t] c₁ ∧ c₁.Passes ts c' := by
  rw [← List.singleton_append, passes_append_iff]

lemma Passes.append (h : c.Passes ts c₁) (h' : c₁.Passes us c') : c.Passes (ts ++ us) c' :=
  passes_append_iff.2 ⟨c₁, h, h'⟩

lemma Passes.current_eq (h : c.Passes (t :: ts) c') : c.current = t := (passes_cons_iff.1 h).1

lemma Passes.kind_eq (h : c.Passes (t :: ts) c') : c.kind = t.kind := by
  rw [kind, h.current_eq]

lemma current_of_ahead (h : c.ahead = t :: rest) : c.current = t := by
  simp [current, h]

/-- A cursor that is not at an end of input has a token ahead, and the next one stands behind it. -/
lemma exists_ahead_of_kind_ne (h : c.kind ≠ .endOfInput) : ∃ rest, c.ahead = c.current :: rest ∧
    c.next = { c with passed := c.current.span.stop, ahead := rest } := by
  rcases ha : c.ahead with _ | ⟨t, rest⟩
  · simp [kind, current, ha] at h
  · have hcurrent := current_of_ahead ha
    rw [kind, hcurrent] at h
    refine ⟨rest, by rw [hcurrent], ?_⟩
    rw [hcurrent, next, ha]
    exact if_neg h

/-- Passing a token leaves the others. -/
lemma ahead_of_kind_ne (h : c.kind ≠ .endOfInput) : c.ahead = c.current :: c.next.ahead := by
  obtain ⟨rest, ha, hnext⟩ := exists_ahead_of_kind_ne h
  rw [hnext]
  exact ha

lemma passed_next (h : c.kind ≠ .endOfInput) : c.next.passed = c.current.span.stop := by
  obtain ⟨rest, -, hnext⟩ := exists_ahead_of_kind_ne h
  rw [hnext]

lemma finish_next (c : Cursor) : c.next.finish = c.finish := by
  unfold next
  split
  · rfl
  · split <;> rfl

lemma Passes.ahead_eq (h : c.Passes ts c') : c.ahead = ts ++ c'.ahead := by
  induction h with
  | nil => rfl
  | cons hkind _ ih => rw [ahead_of_kind_ne hkind, ih, List.cons_append]

lemma Passes.finish_eq (h : c.Passes ts c') : c'.finish = c.finish := by
  induction h with
  | nil => rfl
  | cons _ _ ih => rw [ih, finish_next]

lemma Passes.length_eq (h : c.Passes ts c') : c.ahead.length = ts.length + c'.ahead.length := by
  rw [h.ahead_eq, List.length_append]

lemma Passes.kind_ne (h : c.Passes ts c') : ∀ t ∈ ts, t.kind ≠ .endOfInput := by
  induction h with
  | nil => simp
  | cons hkind _ ih =>
    intro t ht
    rcases List.mem_cons.1 ht with rfl | ht
    · exact hkind
    · exact ih t ht

lemma Passes.length_lt (h : c.Passes ts c') (hts : ts ≠ []) : c'.ahead.length < c.ahead.length := by
  have := h.length_eq
  have := List.length_pos_iff.2 hts
  omega

/-- Behind a token there is less ahead. -/
lemma Passes.length_le_of_le_succ {n : Nat} (h : c.Passes (t :: ts) c') (hlen : c.ahead.length ≤ n + 1) :
    c'.ahead.length ≤ n :=
  Nat.le_of_lt_succ (Nat.lt_of_lt_of_le (h.length_lt (List.cons_ne_nil t ts)) hlen)

/-- A cursor from which tokens are passed is not at an end of input. -/
lemma Passes.kind_ne_end (h : c.Passes (t :: ts) c') : c.kind ≠ .endOfInput := by
  rw [h.kind_eq]
  exact h.kind_ne t List.mem_cons_self

lemma Passes.kind_ne_end_of_ne_nil (h : c.Passes ts c') (hts : ts ≠ []) : c.kind ≠ .endOfInput := by
  obtain ⟨t, ts, rfl⟩ := List.exists_cons_of_ne_nil hts
  exact h.kind_ne_end

/-- Behind some tokens, the token passed last is the last of them. -/
lemma Passes.passed_eq (h : c.Passes ts c') (hts : ts ≠ []) :
    c'.passed = (Span.covering ts).stop := by
  induction h with
  | nil => exact absurd rfl hts
  | @cons c c' ts hkind h ih =>
    rcases ts with _ | ⟨t, ts⟩
    · rw [passes_nil_iff.1 h, passed_next hkind]
      rfl
    · rw [ih (List.cons_ne_nil t ts), Span.stop_covering_cons (List.cons_ne_nil t ts)]

/-- The span from where a run begins to where it ends is that of the tokens passed. -/
lemma Passes.span_eq (h : c.Passes ts c') (hts : ts ≠ []) :
    (⟨c.position, c'.passed⟩ : Span) = .covering ts := by
  rw [h.passed_eq hts]
  cases h with
  | nil => exact absurd rfl hts
  | cons _ _ => rfl

/-- A cursor can pass the tokens ahead of it, as long as none of them is an end of input. -/
lemma exists_passes (hahead : c.ahead = ts ++ rest) (hts : ∀ t ∈ ts, t.kind ≠ .endOfInput) :
    ∃ c', c.Passes ts c' ∧ c'.ahead = rest := by
  induction ts generalizing c with
  | nil => exact ⟨c, .nil, hahead⟩
  | cons t ts ih =>
    have hcurrent : c.current = t := current_of_ahead hahead
    have hkind : c.kind ≠ .endOfInput := by
      rw [kind, hcurrent]
      exact hts t List.mem_cons_self
    have hnext : c.next.ahead = ts ++ rest := by
      have := (ahead_of_kind_ne hkind).symm.trans hahead
      exact (List.cons.inj this).2
    obtain ⟨c', hpasses, hrest⟩ := ih hnext fun s hs => hts s (List.mem_cons_of_mem t hs)
    refine ⟨c', ?_, hrest⟩
    rw [← hcurrent]
    exact .cons hkind hpasses

/-- A cursor can pass the tokens in front of another one, which may be the one that ends the list. -/
lemma exists_passes_current (h : c.ahead ++ [c.finish] = ts ++ t :: rest)
    (hts : ∀ t ∈ ts, t.kind ≠ .endOfInput) : ∃ c', c.Passes ts c' ∧ c'.current = t := by
  have hends : ∃ us, c.ahead = ts ++ us ∧ us ++ [c.finish] = t :: rest := by
    rcases List.append_eq_append_iff.1 h with ⟨us, rfl, hrest⟩ | ⟨us, hus, hrest⟩
    · exact ⟨[], by cases us <;> simp_all⟩
    · exact ⟨us, hus, hrest.symm⟩
  obtain ⟨us, hus, hrest⟩ := hends
  obtain ⟨c', hpasses, hahead⟩ := exists_passes hus hts
  refine ⟨c', hpasses, ?_⟩
  rw [current, hahead, hpasses.finish_eq]
  cases us <;> exact (List.cons.inj hrest).1

/-- The kind of the second token ahead. -/
lemma peek_one (h : c.kind ≠ .endOfInput) : c.peek 1 = c.next.current := by
  rw [← peek_zero c.next, peek, peek, finish_next, ahead_of_kind_ne h, List.getElem?_cons_succ]

end Cursor

/-! ## Opening runs -/

section Runs

variable {α β : Type} {p : Parser α} {f : α → Parser β} {g : α → β} {c c' : Cursor} {a : α} {b : β}
  {k : Kind} {t : Token}

lemma bind_eq_ok :
    (p >>= f) c = .ok b c' ↔ ∃ a c₁, p c = .ok a c₁ ∧ f a c₁ = .ok b c' := by
  change EStateM.bind p f c = _ ↔ _
  rw [EStateM.bind]
  rcases p c with ⟨a, c₁⟩ | ⟨e, c₁⟩
  · constructor
    · exact fun h => ⟨a, c₁, rfl, h⟩
    · rintro ⟨_, _, ⟨⟩, h⟩
      exact h
  · simp

lemma map_eq_ok : (g <$> p) c = .ok b c' ↔ ∃ a, p c = .ok a c' ∧ b = g a := by
  change EStateM.map g p c = _ ↔ _
  rw [EStateM.map]
  rcases p c with ⟨a, c₁⟩ | ⟨e, c₁⟩
  · constructor
    · rintro ⟨⟩
      exact ⟨a, rfl, rfl⟩
    · rintro ⟨_, ⟨⟩, rfl⟩
      rfl
  · simp

lemma pure_eq_ok {a' : α} : (pure a : Parser α) c = .ok a' c' ↔ a' = a ∧ c' = c := by
  constructor
  · rintro ⟨⟩
    exact ⟨rfl, rfl⟩
  · rintro ⟨rfl, rfl⟩
    rfl

lemma ite_bind_eq_ok {P : Prop} [Decidable P] {q : Parser α} :
    (if P then p >>= f else q >>= f) c = .ok b c' ↔
      ∃ a c₁, (if P then p c = .ok a c₁ else q c = .ok a c₁) ∧ f a c₁ = .ok b c' := by
  split <;> exact bind_eq_ok

@[simp] lemma currentKind_bind (f : Kind → Parser β) : (currentKind >>= f) c = f c.kind c := rfl

@[simp] lemma peekKind_bind (n : Nat) (f : Kind → Parser β) :
    (peekKind n >>= f) c = f (c.peek n).kind c := rfl

@[simp] lemma position_bind (f : Position → Parser β) : (position >>= f) c = f c.position c := rfl

@[simp] lemma passed_bind (f : Position → Parser β) : (passed >>= f) c = f c.passed c := rfl

lemma advance_eq_ok (h : c.kind ≠ .endOfInput) : advance c = .ok t c' ↔ c.Passes [t] c' := by
  rw [Cursor.passes_singleton_iff]
  constructor
  · rintro ⟨⟩
    exact ⟨rfl, h, rfl⟩
  · rintro ⟨rfl, -, rfl⟩
    rfl

lemma expectOr_eq_ok {error : SyntaxError} (hk : k ≠ .endOfInput) :
    expectOr k error c = .ok t c' ↔ t.kind = k ∧ c.Passes [t] c' := by
  rw [Cursor.passes_singleton_iff, expectOr]
  constructor
  · intro h
    split at h
    · next hkind =>
      cases h
      exact ⟨hkind, rfl, by rwa [← Cursor.kind, hkind], rfl⟩
    · split at h <;> cases h
  · rintro ⟨hkind, rfl, -, rfl⟩
    exact if_pos hkind

lemma expect_eq_ok (hk : k ≠ .endOfInput) :
    expect k c = .ok t c' ↔ t.kind = k ∧ c.Passes [t] c' :=
  expectOr_eq_ok hk

lemma expectHinted_eq_ok {hint : String} (hk : k ≠ .endOfInput) :
    expectHinted k hint c = .ok t c' ↔ t.kind = k ∧ c.Passes [t] c' :=
  expectOr_eq_ok hk

@[simp] lemma unexpected_eq_ok : (unexpected : Parser α) c = .ok a c' ↔ False := by
  simp [unexpected]

@[simp] lemma misplaced_eq_ok {hint : String} :
    (misplaced hint : Parser α) c = .ok a c' ↔ False := by
  simp [misplaced]

end Runs

end Grammar

end LangCheck
