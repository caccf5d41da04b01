import LangCheck.Grammar.Program
import LangCheck.Proofs.Grammar.Blocks
import LangCheck.Proofs.Grammar.Shapes
import LangCheck.Proofs.Grammar.Spans

/-!
# Reading programs

What the parsers of items and programs read.  The main result says that reading is the inverse of
writing (`Program.ofTokens_inverse`): canonical programs are read, up to spans, from the tokens that
they are written with, and whatever is read is canonical and was written with the tokens in front of
the end of the input.
-/

namespace LangCheck

open Grammar Placement

namespace Grammar

variable {c c' : Cursor} {ts us : List Token}

/-- No number is written with a minus sign of its own. -/
def Unsigned (ts : List Token) : Prop :=
  ∀ t ∈ ts, t.kind = .number → (Literal.number t.text).negated? = none

/-! ## Parameters -/

/-- Tokens spell a parameter that can be read from them. -/
def ParameterRead (ts : List Token) (q : Parameter) : Prop := q.Spelled tight ts ∧ q.ty ≠ .unknown

lemma ty_ne_of_kind? {ty : Ty} {k : Kind} (h : ty.kind? = some k) : ty ≠ .unknown := by
  rintro rfl
  cases h

lemma parameter_eq_ok {q : Parameter} :
    parameter .standard c = .ok q c' ↔ ∃ ts, c.Passes ts c' ∧ ParameterRead ts q := by
  simp only [parameter, position_bind, bind_eq_ok, type_eq_ok, expectHinted_eq_ok, ne_eq,
    reduceCtorEq, not_false_eq_true, pure_eq_ok]
  constructor
  · rintro ⟨ty, c₁, ⟨word, h₁, hty⟩, name, c₂, ⟨hname, h₂⟩, rfl, rfl⟩
    refine ⟨[word, name], h₁.append h₂, .intro hty hname ?_, ty_ne_of_kind? hty⟩
    rw [Cursor.position, h₁.current_eq]
    rfl
  · rintro ⟨ts, hts, ⟨hty, hname, hspan⟩, -⟩
    obtain ⟨c₁, h₁, h₂⟩ := Cursor.passes_cons_iff_singleton.1 hts
    refine ⟨_, c₁, ⟨_, h₁, hty⟩, _, c', ⟨hname, h₂⟩, ?_, rfl⟩
    rw [hspan, Cursor.position, h₁.current_eq]
    rfl

lemma parametersWithin_sound : ∀ (room : Nat) {c c' : Cursor} {qs : List Parameter},
    parametersWithin .standard room c = .ok qs c' →
    ∃ ts, c.Passes ts c' ∧ ParametersSpelled tight ts qs ∧ (∀ q ∈ qs, q.ty ≠ .unknown) ∧ qs ≠ []
  | 0, _, _, _, h => by simp [parametersWithin] at h
  | room + 1, c, c', qs, h => by
    simp only [parametersWithin, bind_eq_ok, parameter_eq_ok, currentKind_bind] at h
    obtain ⟨q, c₁, ⟨ts, h₁, hq, hty⟩, h⟩ := h
    by_cases hcomma : c₁.kind = .comma
    · have hend : c₁.kind ≠ .endOfInput := by
        rw [hcomma]
        decide
      simp only [if_pos hcomma, bind_eq_ok, advance_eq_ok hend, pure_eq_ok] at h
      obtain ⟨comma, c₂, h₂, others, c₃, hothers, rfl, rfl⟩ := h
      obtain ⟨us, h₃, hspelled, htys, hne⟩ := parametersWithin_sound room hothers
      obtain ⟨r, rs, rfl⟩ := List.exists_cons_of_ne_nil hne
      refine ⟨ts ++ comma :: us, h₁.append (h₂.append h₃),
        .more hq (by rw [← h₂.kind_eq, hcomma]) hspelled, ?_, by simp⟩
      rw [List.forall_mem_cons]
      exact ⟨hty, htys⟩
    · rw [if_neg hcomma] at h
      obtain ⟨rfl, rfl⟩ := pure_eq_ok.1 h
      exact ⟨ts, h₁, .last hq, by simpa using hty, by simp⟩

lemma parametersWithin_complete {qs : List Parameter} (hqs : ParametersSpelled tight ts qs) :
    ∀ {c c' : Cursor} {room : Nat}, qs ≠ [] → c.Passes ts c' → (∀ q ∈ qs, q.ty ≠ .unknown) →
      c'.kind = .closeParen → c.ahead.length < room →
      parametersWithin .standard room c = .ok qs c' := by
  induction hqs with
  | none => exact fun hne => absurd rfl hne
  | @last ts q hq =>
    intro c c' room _ h htys hc' hroom
    obtain ⟨room, rfl⟩ := Nat.exists_eq_add_one_of_ne_zero (Nat.ne_of_gt (Nat.zero_lt_of_lt hroom))
    have hcomma : c'.kind ≠ .comma := by
      rw [hc']
      decide
    simp only [parametersWithin, bind_eq_ok, parameter_eq_ok, currentKind_bind]
    refine ⟨q, c', ⟨ts, h, hq, htys q List.mem_cons_self⟩, ?_⟩
    rw [if_neg hcomma]
    rfl
  | @more ts us comma q r qs hq hcomma _ ih =>
    intro c c' room _ h htys hc' hroom
    obtain ⟨room, rfl⟩ := Nat.exists_eq_add_one_of_ne_zero (Nat.ne_of_gt (Nat.zero_lt_of_lt hroom))
    obtain ⟨c₁, h₁, hrest⟩ := Cursor.passes_append_iff.1 h
    obtain ⟨c₂, h₂, h₃⟩ := Cursor.passes_cons_iff_singleton.1 hrest
    have hkind : c₁.kind = .comma := by rw [h₂.kind_eq, hcomma]
    have hend : c₁.kind ≠ .endOfInput := by
      rw [hkind]
      decide
    have hlen : c₂.ahead.length < room := by
      have := h₁.length_eq
      have := h₂.length_lt (by simp)
      omega
    rw [List.forall_mem_cons] at htys
    simp only [parametersWithin, bind_eq_ok, parameter_eq_ok, currentKind_bind]
    refine ⟨q, c₁, ⟨ts, h₁, hq, htys.1⟩, ?_⟩
    simp only [if_pos hkind, bind_eq_ok, advance_eq_ok hend, pure_eq_ok]
    exact ⟨comma, c₂, h₂, r :: qs, c', ih (by simp) h₃ htys.2 hc' hlen, rfl, rfl⟩

lemma parameters_sound {qs : List Parameter} (h : parameters .standard c = .ok qs c') :
    ∃ (opened : Token) (ts : List Token) (closed : Token),
      c.Passes (opened :: (ts ++ [closed])) c' ∧ opened.kind = .openParen ∧
      ParametersSpelled tight ts qs ∧ closed.kind = .closeParen ∧ ∀ q ∈ qs, q.ty ≠ .unknown := by
  simp only [parameters, bind_eq_ok, expect_eq_ok, ne_eq, reduceCtorEq, not_false_eq_true,
    currentKind_bind, ite_bind_eq_ok, pure_eq_ok] at h
  obtain ⟨opened, c₁, ⟨ho, h₁⟩, given, c₂, hgiven, closed, c₃, ⟨hcl, h₃⟩, rfl, rfl⟩ := h
  split at hgiven
  · obtain ⟨rfl, rfl⟩ := hgiven
    exact ⟨opened, [], closed, h₁.append h₃, ho, .none, hcl, by simp⟩
  · obtain ⟨ts, h₂, hspelled, htys, -⟩ := parametersWithin_sound _ hgiven
    exact ⟨opened, ts, closed, h₁.append (h₂.append h₃), ho, hspelled, hcl, htys⟩

lemma kind_of_parameters {P : Placement} {qs : List Parameter} (hqs : ParametersSpelled P ts qs)
    (hne : qs ≠ []) (h : c.Passes ts c') : c.kind ≠ .closeParen := by
  have hword : ∀ {us q}, Parameter.Spelled P us q → ∀ {c₁}, c.Passes us c₁ → c.kind ≠ .closeParen := by
    intro us q hq c₁ h₁ hc
    obtain ⟨hty, -, -⟩ := hq
    have := isTypeWord_of_kind? hty
    rw [← h₁.kind_eq, hc] at this
    cases this
  cases hqs with
  | none => exact absurd rfl hne
  | last hq => exact hword hq h
  | more hq _ _ =>
    obtain ⟨c₁, h₁, -⟩ := Cursor.passes_append_iff.1 h
    exact hword hq h₁

lemma parameters_complete {qs : List Parameter} {opened closed : Token}
    (h : c.Passes (opened :: (ts ++ [closed])) c') (ho : opened.kind = .openParen)
    (hqs : ParametersSpelled tight ts qs) (hcl : closed.kind = .closeParen)
    (htys : ∀ q ∈ qs, q.ty ≠ .unknown) : parameters .standard c = .ok qs c' := by
  obtain ⟨c₁, h₁, hrest⟩ := Cursor.passes_cons_iff_singleton.1 h
  obtain ⟨c₂, h₂, h₃⟩ := Cursor.passes_append_iff.1 hrest
  have hc₂ : c₂.kind = .closeParen := by rw [h₃.kind_eq, hcl]
  simp only [parameters, bind_eq_ok, expect_eq_ok, ne_eq, reduceCtorEq, not_false_eq_true,
    currentKind_bind, ite_bind_eq_ok, pure_eq_ok]
  refine ⟨opened, c₁, ⟨ho, h₁⟩, qs, c₂, ?_, closed, c', ⟨hcl, h₃⟩, rfl, rfl⟩
  by_cases hne : qs = []
  · subst hne
    cases hqs
    obtain rfl := Cursor.passes_nil_iff.1 h₂
    rw [if_pos hc₂]
    exact ⟨rfl, rfl⟩
  · rw [if_neg (kind_of_parameters hqs hne h₂)]
    exact parametersWithin_complete hqs hne h₂ htys hc₂ (Nat.lt_succ_self _)

/-! ## Items -/

lemma literal_eq_ok {value : Literal} :
    literal c = .ok value c' ↔ ∃ t, c.Passes [t] c' ∧ value.Spelled t := by
  rw [literal]
  constructor
  · intro h
    rcases hlit : literalOf? c.current with _ | other
    · simp [hlit] at h
    · rw [hlit] at h
      cases h
      have hspelled := literalOf?_eq_some_iff.1 hlit
      exact ⟨c.current, Cursor.passes_singleton_iff.2 ⟨rfl, hspelled.kind_ne, rfl⟩, hspelled⟩
  · rintro ⟨t, hts, hspelled⟩
    obtain ⟨rfl, -, rfl⟩ := Cursor.passes_singleton_iff.1 hts
    rw [literalOf?_eq_some_iff.2 hspelled]

/-- Tokens are the literal that initialises a global variable: a literal, or a minus sign and a number. -/
inductive LiteralTaken : List Token → Literal → Prop
  | literal {t : Token} {value : Literal} : value.Spelled t → LiteralTaken [t] value
  | negated {minus number : Token} :
      minus.kind = .minus → number.kind = .number →
        LiteralTaken [minus, number] (.number ("-" ++ number.text))

lemma globalValue_eq_ok {value : Literal} :
    globalValue c = .ok value c' ↔ ∃ ts, c.Passes ts c' ∧ LiteralTaken ts value := by
  rw [globalValue, currentKind_bind, peekKind_bind]
  constructor
  · intro h
    split at h
    · next hc =>
      obtain ⟨hminus, hnumber⟩ := hc
      have hend : c.kind ≠ .endOfInput := by
        rw [hminus]
        decide
      simp only [bind_eq_ok, advance_eq_ok hend, pure_eq_ok] at h
      obtain ⟨minus, c₁, h₁, number, c₂, h₂, rfl, rfl⟩ := h
      have hkind : c₁.kind = .number := by
        rw [Cursor.peek_one hend] at hnumber
        rw [(Cursor.passes_singleton_iff.1 h₁).2.2]
        exact hnumber
      rw [advance_eq_ok (by rw [hkind]; decide)] at h₂
      exact ⟨[minus, number], h₁.append h₂,
        .negated (by rw [← h₁.kind_eq, hminus]) (by rw [← h₂.kind_eq, hkind])⟩
    · obtain ⟨t, hts, hspelled⟩ := literal_eq_ok.1 h
      exact ⟨[t], hts, .literal hspelled⟩
  · rintro ⟨ts, h, hvalue⟩
    cases hvalue with
    | @literal t _ hspelled =>
      have hminus : ¬(c.kind = .minus ∧ (c.peek 1).kind = .number) := by
        rintro ⟨hc, -⟩
        rw [h.kind_eq] at hc
        rcases value with text | text | _ | _ <;> simp [Literal.Spelled, hc] at hspelled
      rw [if_neg hminus]
      exact literal_eq_ok.2 ⟨t, h, hspelled⟩
    | @negated minus number hminus hnumber =>
      obtain ⟨c₁, h₁, h₂⟩ := Cursor.passes_cons_iff_singleton.1 h
      have hkind : c.kind = .minus := by rw [h.kind_eq, hminus]
      have hkind₁ : c₁.kind = .number := by rw [h₂.kind_eq, hnumber]
      rw [if_pos ⟨hkind, by rw [peek_one_of_passes h, hnumber]⟩]
      simp only [bind_eq_ok, advance_eq_ok (show c.kind ≠ .endOfInput by rw [hkind]; decide),
        pure_eq_ok]
      exact ⟨minus, c₁, h₁, number, c', (advance_eq_ok (by rw [hkind₁]; decide)).2 h₂, rfl, rfl⟩

/-- A literal is read from the tokens that spell it, and if numbers have no minus sign of their own, from
no others. -/
lemma literalTaken_of_spelled {value : Literal} (h : value.GlobalSpelled ts) :
    LiteralTaken ts value := by
  cases h with
  | literal _ hspelled => exact .literal hspelled
  | negated hvalue hminus hnumber =>
    obtain rfl := Literal.negated?_eq_some_iff.1 hvalue
    exact .negated hminus hnumber

lemma LiteralTaken.globalSpelled {value : Literal} (hunsigned : Unsigned ts)
    (h : LiteralTaken ts value) : value.GlobalSpelled ts := by
  cases h with
  | @literal t _ hspelled =>
    refine .literal ?_ hspelled
    cases value with
    | number text =>
      obtain ⟨hkind, rfl⟩ := hspelled
      exact hunsigned t (List.mem_singleton_self t) hkind
    | _ => rfl
  | negated hminus hnumber => exact .negated (Literal.negated?_eq_some_iff.2 rfl) hminus hnumber

/-- Tokens are an equals sign and the literal of a global variable, or there are none. -/
def InitializerTaken (ts : List Token) : Option Literal → Prop
  | none => ts = []
  | some value => ∃ t us, ts = t :: us ∧ t.kind = .assign ∧ LiteralTaken us value

lemma initializerTaken_of_spelled {value : Option Literal} (h : GlobalInitializerSpelled ts value) :
    InitializerTaken ts value := by
  cases value with
  | none => exact h
  | some value =>
    obtain ⟨t, us, rfl, ht, hspelled⟩ := h
    exact ⟨t, us, rfl, ht, literalTaken_of_spelled hspelled⟩

lemma InitializerTaken.spelled {value : Option Literal} (hunsigned : Unsigned ts)
    (h : InitializerTaken ts value) : GlobalInitializerSpelled ts value := by
  cases value with
  | none => exact h
  | some value =>
    obtain ⟨t, us, rfl, ht, htaken⟩ := h
    exact ⟨t, us, rfl, ht,
      htaken.globalSpelled fun u hu => hunsigned u (List.mem_cons_of_mem _ hu)⟩

/-- Tokens are what an item is read from. -/
inductive ItemTaken : List Token → Item → Prop
  | global {cs vs : List Token} {word name semicolon : Token} {isConst : Bool} {ty : Ty}
      {value : Option Literal} :
      ConstSpelled cs isConst → ty.kind? = some word.kind → name.kind = .name →
      InitializerTaken vs value → semicolon.kind = .semicolon →
        ItemTaken (cs ++ word :: name :: (vs ++ [semicolon]))
          (.global ⟨name.text, ty, isConst, value,
            .covering (cs ++ word :: name :: (vs ++ [semicolon]))⟩)
  | function {word name opened closed : Token} {ts us : List Token} {ty : Ty} {qs : List Parameter}
      {body : Block} :
      ty.kind? = some word.kind → name.kind = .name → opened.kind = .openParen →
      ParametersSpelled tight ts qs → (∀ q ∈ qs, q.ty ≠ .unknown) → closed.kind = .closeParen →
      BlockRead us body →
        ItemTaken (word :: name :: opened :: (ts ++ closed :: us))
          (.function ⟨name.text, ty, qs, body,
            .covering (word :: name :: opened :: (ts ++ closed :: us))⟩)

/-- Tokens spell an item that can be read from them. -/
def ItemRead (ts : List Token) (item : Item) : Prop := item.Spelled tight ts ∧ item.Canonical

lemma ItemRead.taken {result : Item} (h : ItemRead ts result) : ItemTaken ts result := by
  obtain ⟨hspelled, hcanonical⟩ := h
  cases hspelled with
  | @global cs vs word name semicolon isConst ty value span hconst hty hname hvalue hs hspan =>
    obtain rfl : span = .covering _ := hspan
    exact .global hconst hty hname (initializerTaken_of_spelled hvalue) hs
  | @function word name opened closed ts us ty qs body span hty hname ho hqs hcl hbody hspan =>
    obtain rfl : span = .covering _ := hspan
    exact .function hty hname ho hqs hcanonical.2.1 hcl ⟨hbody, hcanonical.2.2⟩

lemma ItemTaken.canonical {result : Item} (h : ItemTaken ts result) : result.Canonical := by
  cases h with
  | global _ hty _ _ _ => exact ty_ne_of_kind? hty
  | function hty _ _ _ htys _ hbody => exact ⟨ty_ne_of_kind? hty, htys, hbody.2⟩

lemma ItemTaken.spelled {result : Item} (hunsigned : Unsigned ts) (h : ItemTaken ts result) :
    result.Spelled tight ts := by
  cases h with
  | global hconst hty hname hvalue hs =>
    refine .global hconst hty hname (hvalue.spelled fun t ht => hunsigned t ?_) hs rfl
    simp [ht]
  | function hty hname ho hqs htys hcl hbody => exact .function hty hname ho hqs hcl hbody.1 rfl

lemma ItemTaken.ne_nil {result : Item} (h : ItemTaken ts result) : ts ≠ [] := by
  cases h <;> simp

/-- What is read as an item is read from the tokens passed. -/
lemma itemTaken_of_item {result : Item} (h : item .standard c = .ok result c') :
    ∃ ts, c.Passes ts c' ∧ ItemTaken ts result := by
  simp only [item, position_bind, bind_eq_ok, type_eq_ok, expectHinted_eq_ok, ne_eq, reduceCtorEq,
    not_false_eq_true, currentKind_bind] at h
  obtain ⟨isConst, c₁, h₁, ty, c₂, ⟨word, h₂, hty⟩, name, c₃, ⟨hname, h₃⟩, h⟩ := h
  obtain ⟨cs, h₁, hconst⟩ := constMark_sound h₁
  have h₁₃ := h₁.append (h₂.append h₃)
  by_cases hparen : c₃.kind = .openParen
  · cases isConst with
    -- functions cannot be marked as constant
    | true => simp [hparen] at h
    | false =>
      obtain rfl : cs = [] := hconst
      simp only [if_pos hparen, Bool.false_eq_true, if_false, bind_eq_ok, pure_eq_ok] at h
      obtain ⟨qs, c₄, hqs, body, c₅, hbody, rfl, rfl⟩ := h
      obtain ⟨opened, ts, closed, h₄, ho, hqs, hcl, htys⟩ := parameters_sound hqs
      obtain ⟨us, h₅, hbody, hcanonical⟩ := block_sound hbody
      have hpasses : c.Passes (word :: name :: opened :: (ts ++ closed :: us)) c' := by
        simpa using h₁₃.append (h₄.append h₅)
      have hspan := hpasses.span_eq (by simp)
      rw [h₅.passed_eq hbody.ne_nil, ← span_of_block hbody] at hspan
      rw [hspan]
      exact ⟨_, hpasses, .function hty hname ho hqs htys hcl ⟨hbody, hcanonical⟩⟩
  · rw [if_neg hparen, currentKind_bind] at h
    -- with and without an initialiser, what follows is a semicolon
    obtain ⟨vs, c₄, value, semicolon, h₄, hvalue, hs, h₅, rfl⟩ : ∃ vs c₄ value semicolon,
        c₃.Passes vs c₄ ∧ InitializerTaken vs value ∧ semicolon.kind = .semicolon ∧
          c₄.Passes [semicolon] c' ∧
          result = .global ⟨name.text, ty, isConst, value, c.position, semicolon.span.stop⟩ := by
      by_cases hassign : c₃.kind = .assign
      · have hend : c₃.kind ≠ .endOfInput := by
          rw [hassign]
          decide
        simp only [if_pos hassign, bind_eq_ok, advance_eq_ok hend, map_eq_ok, expect_eq_ok, ne_eq,
          reduceCtorEq, not_false_eq_true, pure_eq_ok] at h
        obtain ⟨t, c₄, h₄, _, c₅, ⟨value, hvalue, rfl⟩, semicolon, c₆, ⟨hs, h₆⟩, rfl, rfl⟩ := h
        obtain ⟨us, h₅, htaken⟩ := globalValue_eq_ok.1 hvalue
        exact ⟨t :: us, c₅, some value, semicolon, h₄.append h₅,
          ⟨t, us, rfl, by rw [← h₄.kind_eq, hassign], htaken⟩, hs, h₆, rfl⟩
      · simp only [if_neg hassign, bind_eq_ok, expect_eq_ok, ne_eq, reduceCtorEq, not_false_eq_true,
          pure_eq_ok] at h
        obtain ⟨_, c₄, ⟨rfl, rfl⟩, semicolon, c₅, ⟨hs, h₅⟩, rfl, rfl⟩ := h
        exact ⟨[], c₄, none, semicolon, .nil, rfl, hs, h₅, rfl⟩
    have hpasses : c.Passes (cs ++ word :: name :: (vs ++ [semicolon])) c' := by
      simpa using h₁₃.append (h₄.append h₅)
    have hspan := hpasses.span_eq (by simp)
    rw [h₅.passed_eq (by simp)] at hspan
    have hcover : (⟨c.position, semicolon.span.stop⟩ : Span) = .covering _ := hspan
    rw [hcover]
    exact ⟨_, hpasses, .global hconst hty hname hvalue hs⟩

lemma item_of_taken {result : Item} (h : c.Passes ts c') (hitem : ItemTaken ts result) :
    item .standard c = .ok result c' := by
  simp only [item, position_bind, bind_eq_ok, type_eq_ok, expectHinted_eq_ok, ne_eq, reduceCtorEq,
    not_false_eq_true, currentKind_bind]
  cases hitem with
  | @global cs vs word name semicolon isConst ty value hconst hty hname hvalue hs =>
    have hspan := h.span_eq (by simp)
    obtain ⟨c₁, h₁, hrest⟩ := Cursor.passes_append_iff.1 h
    obtain ⟨c₂, h₂, hrest⟩ := Cursor.passes_cons_iff_singleton.1 hrest
    obtain ⟨c₃, h₃, hrest⟩ := Cursor.passes_cons_iff_singleton.1 hrest
    obtain ⟨c₄, h₄, h₅⟩ := Cursor.passes_append_iff.1 hrest
    rw [h₅.passed_eq (by simp)] at hspan
    refine ⟨isConst, c₁, constMark_complete h₁ hconst (kind_ne_const hty h₂), ty, c₂, ⟨word, h₂, hty⟩,
      name, c₃, ⟨hname, h₃⟩, ?_⟩
    cases value with
    | none =>
      obtain rfl : vs = [] := hvalue
      obtain rfl := Cursor.passes_nil_iff.1 h₄
      have hc₄ : c₄.kind = .semicolon := by rw [h₅.kind_eq, hs]
      rw [if_neg (by rw [hc₄]; decide), currentKind_bind, if_neg (by rw [hc₄]; decide)]
      simp only [bind_eq_ok, expect_eq_ok, ne_eq, reduceCtorEq, not_false_eq_true, pure_eq_ok,
        ← hspan]
      exact ⟨none, c₄, ⟨rfl, rfl⟩, semicolon, c', ⟨hs, h₅⟩, rfl, rfl⟩
    | some value =>
      obtain ⟨t, us, rfl, ht, htaken⟩ := hvalue
      obtain ⟨c₅, h₆, h₇⟩ := Cursor.passes_cons_iff_singleton.1 h₄
      have hc₃ : c₃.kind = .assign := by rw [h₆.kind_eq, ht]
      have hend : c₃.kind ≠ .endOfInput := by
        rw [hc₃]
        decide
      rw [if_neg (by rw [hc₃]; decide), currentKind_bind, if_pos hc₃]
      simp only [bind_eq_ok, advance_eq_ok hend, map_eq_ok, expect_eq_ok, ne_eq, reduceCtorEq,
        not_false_eq_true, pure_eq_ok, ← hspan]
      exact ⟨t, c₅, h₆, some value, c₄, ⟨value, globalValue_eq_ok.2 ⟨us, h₇, htaken⟩, rfl⟩,
        semicolon, c', ⟨hs, h₅⟩, rfl, rfl⟩
  | @function word name opened closed ts us ty qs body hty hname ho hqs htys hcl hbody =>
    have hspan := h.span_eq (by simp)
    have hall : c.Passes ([word] ++ ([name] ++ (opened :: (ts ++ [closed]) ++ us))) c' := by
      simpa using h
    obtain ⟨c₁, h₁, hrest⟩ := Cursor.passes_append_iff.1 hall
    obtain ⟨c₂, h₂, hrest⟩ := Cursor.passes_append_iff.1 hrest
    obtain ⟨c₃, h₃, h₄⟩ := Cursor.passes_append_iff.1 hrest
    rw [h₄.passed_eq hbody.1.ne_nil, ← span_of_block hbody.1] at hspan
    have hconst : constMark c = .ok false c :=
      constMark_complete .nil rfl (kind_ne_const hty h₁)
    refine ⟨false, c, hconst, ty, c₁, ⟨word, h₁, hty⟩, name, c₂, ⟨hname, h₂⟩, ?_⟩
    rw [if_pos (by rw [h₃.kind_eq, ho])]
    simp only [Bool.false_eq_true, if_false, bind_eq_ok, pure_eq_ok, ← hspan]
    exact ⟨qs, c₃, parameters_complete h₃ ho hqs hcl htys, body, c',
      block_complete h₄ hbody, rfl, rfl⟩

lemma item_eq_ok {result : Item} :
    item .standard c = .ok result c' ↔ ∃ ts, c.Passes ts c' ∧ ItemTaken ts result :=
  ⟨itemTaken_of_item, fun ⟨_, h, hitem⟩ => item_of_taken h hitem⟩

/-! ## Programs -/

/-- Tokens are what items are read from, one after the other. -/
inductive ItemsTaken : List Token → List Item → Prop
  | nil : ItemsTaken [] []
  | cons {ts us : List Token} {first : Item} {others : List Item} :
      ItemTaken ts first → ItemsTaken us others → ItemsTaken (ts ++ us) (first :: others)

lemma ItemsTaken.canonical {items : List Item} (h : ItemsTaken ts items) :
    ∀ item ∈ items, item.Canonical := by
  induction h with
  | nil => simp
  | cons hfirst _ ih => exact List.forall_mem_cons.2 ⟨hfirst.canonical, ih⟩

lemma ItemsTaken.spelled {items : List Item} (hunsigned : Unsigned ts) (h : ItemsTaken ts items) :
    Item.AllSpelled tight ts items := by
  induction h with
  | nil => exact .nil
  | cons hfirst _ ih =>
    exact .cons (hfirst.spelled fun t ht => hunsigned t (List.mem_append_left _ ht))
      (ih fun t ht => hunsigned t (List.mem_append_right _ ht))

lemma itemsTaken_of_read {items : List Item} (h : Item.AllSpelled tight ts items)
    (hcanonical : ∀ item ∈ items, item.Canonical) : ItemsTaken ts items := by
  induction h with
  | nil => exact .nil
  | cons hfirst _ ih =>
    rw [List.forall_mem_cons] at hcanonical
    exact .cons (ItemRead.taken ⟨hfirst, hcanonical.1⟩) (ih hcanonical.2)

lemma itemsTaken_of_itemsWithin : ∀ (room : Nat) {c c' : Cursor} {items : List Item},
    c.ahead.length ≤ room → itemsWithin .standard room c = .ok items c' →
    ∃ ts, c.Passes ts c' ∧ ItemsTaken ts items ∧ c'.kind = .endOfInput
  | 0, c, c', items, hlen, h => by
    obtain ⟨rfl, rfl⟩ := pure_eq_ok.1 h
    have hnil : c'.ahead = [] := List.eq_nil_of_length_eq_zero (Nat.le_zero.1 hlen)
    exact ⟨[], .nil, .nil, by rw [Cursor.kind, Cursor.current, hnil]; rfl⟩
  | room + 1, c, c', items, hlen, h => by
    rw [itemsWithin, currentKind_bind] at h
    by_cases hend : c.kind = .endOfInput
    · rw [if_pos hend] at h
      obtain ⟨rfl, rfl⟩ := pure_eq_ok.1 h
      exact ⟨[], .nil, .nil, hend⟩
    · simp only [if_neg hend, bind_eq_ok, pure_eq_ok] at h
      obtain ⟨first, c₁, hfirst, others, c₂, hothers, rfl, rfl⟩ := h
      obtain ⟨ts, h₁, hfirst⟩ := item_eq_ok.1 hfirst
      have hlen₁ : c₁.ahead.length ≤ room := by
        have := h₁.length_lt hfirst.ne_nil
        omega
      obtain ⟨us, h₂, hothers, hc'⟩ := itemsTaken_of_itemsWithin room hlen₁ hothers
      exact ⟨ts ++ us, h₁.append h₂, .cons hfirst hothers, hc'⟩

lemma itemsWithin_of_taken {items : List Item} (hitems : ItemsTaken ts items) :
    ∀ {c c' : Cursor} {room : Nat}, c.ahead.length ≤ room → c.Passes ts c' →
      c'.kind = .endOfInput → itemsWithin .standard room c = .ok items c' := by
  induction hitems with
  | nil =>
    intro c c' room _ h hc'
    obtain rfl := Cursor.passes_nil_iff.1 h
    cases room with
    | zero => rfl
    | succ room =>
      rw [itemsWithin, currentKind_bind, if_pos hc']
      rfl
  | @cons ts us first others hfirst _ ih =>
    intro c c' room hlen h hc'
    obtain ⟨c₁, h₁, h₂⟩ := Cursor.passes_append_iff.1 h
    have hlt := h₁.length_lt hfirst.ne_nil
    obtain ⟨room, rfl⟩ : ∃ n, room = n + 1 := Nat.exists_eq_add_one_of_ne_zero (by omega)
    have hend := h₁.kind_ne_end_of_ne_nil hfirst.ne_nil
    rw [itemsWithin, currentKind_bind, if_neg hend]
    simp only [bind_eq_ok, pure_eq_ok]
    exact ⟨first, c₁, item_eq_ok.2 ⟨ts, h₁, hfirst⟩, others, c', ih (by omega) h₂ hc', rfl, rfl⟩

/-! ## Lists of tokens -/

/-- The tokens in front of the first end of input. -/
def beforeEnd (ts : List Token) : List Token := ts.takeWhile (·.kind != .endOfInput)

lemma Cursor.Passes.eq_beforeEnd (h : c.Passes ts c') (hc' : c'.kind = .endOfInput) :
    ts = beforeEnd c.ahead := by
  rw [beforeEnd, h.ahead_eq, List.takeWhile_append_of_pos (by simpa using h.kind_ne)]
  rcases ha : c'.ahead with _ | ⟨t, rest⟩
  · simp
  · have ht : t.kind = .endOfInput := by rw [← hc', Cursor.kind, Cursor.current_of_ahead ha]
    simp [ht]

/-- Whether the list of tokens ends with an end of input does not matter. -/
lemma ahead_start (ts : List Token) (file : String) :
    (∃ t : Token, t.kind = .endOfInput ∧ ts = (Cursor.start ts file).ahead ++ [t]) ∨
      (Cursor.start ts file).ahead = ts := by
  unfold Cursor.start
  rcases List.eq_nil_or_concat ts with rfl | ⟨front, t, rfl⟩
  · exact Or.inr rfl
  · rw [List.concat_eq_append, List.getLast?_append, List.getLast?_singleton, Option.some_or]
    by_cases ht : t.kind = .endOfInput
    · simp [ht]
    · simp [ht]

lemma beforeEnd_ahead_start (ts : List Token) (file : String) :
    beforeEnd (Cursor.start ts file).ahead = beforeEnd ts := by
  rcases ahead_start ts file with ⟨t, ht, hts⟩ | h
  · generalize (Cursor.start ts file).ahead = front at hts
    subst hts
    rw [beforeEnd, beforeEnd, List.takeWhile_append]
    split
    · next hlen =>
      rw [(List.takeWhile_prefix _).eq_of_length hlen]
      simp [ht]
    · rfl
  · rw [h]

lemma Unsigned.beforeEnd (h : Unsigned ts) : Unsigned (beforeEnd ts) := fun t ht =>
  h t (List.takeWhile_subset _ ht)

end Grammar

namespace Program

variable {p : Program} {ts : List Token} {eof : Token} {file : String}

/-- What is read from tokens is read from those in front of the first end of input, and the program
starts with the first token. -/
lemma itemsTaken_of_ofTokens (h : ofTokens ts file = .ok p) :
    ItemsTaken (beforeEnd ts) p.items ∧ p.span.start = (Cursor.start ts file).position := by
  rw [ofTokens] at h
  split at h
  · next q c' hrun =>
    cases h
    simp only [program, position_bind, bind_eq_ok, pure_eq_ok] at hrun
    obtain ⟨items, c₁, hitems, rfl, -⟩ := hrun
    obtain ⟨us, hpasses, htaken, hc'⟩ := itemsTaken_of_itemsWithin _ (Nat.le_refl _) hitems
    rw [hpasses.eq_beforeEnd hc', beforeEnd_ahead_start] at htaken
    exact ⟨htaken, rfl⟩
  · cases h

/-- Whatever is read from tokens is canonical. -/
theorem canonical_of_ofTokens (h : ofTokens ts file = .ok p) : p.Canonical :=
  (itemsTaken_of_ofTokens h).1.canonical

/-- If numbers have no minus sign of their own, what is read is spelled by the tokens in front of the first
end of input, each node spans its tokens, and the program starts with the first token. -/
theorem sound_of_ofTokens (hunsigned : Unsigned ts) (h : ofTokens ts file = .ok p) :
    p.Canonical ∧ Item.AllSpelled tight (beforeEnd ts) p.items ∧
      p.span.start = (Cursor.start ts file).position := by
  obtain ⟨htaken, hstart⟩ := itemsTaken_of_ofTokens h
  exact ⟨htaken.canonical, htaken.spelled hunsigned.beforeEnd, hstart⟩

/-- A canonical program is read, up to spans, from every list of tokens that spells it. -/
theorem ofTokens_of_spelled (file : String) (hcanonical : p.Canonical) (hspelled : p.Spelled ts)
    (heof : eof.kind = .endOfInput) :
    ∃ q, ofTokens (ts ++ [eof]) file = .ok q ∧ q.bare = p.bare := by
  -- the spans of what is read are those of its tokens
  obtain ⟨items, hitems, hbare⟩ := hspelled.tighten
  have hbareItems : (⟨items, default⟩ : Program).bare = p.bare := by
    rw [bare, hbare]
    rfl
  have hcanonicalItems : ∀ item ∈ items, item.Canonical := by
    have h := (canonical_bare p).2 hcanonical
    rw [← hbareItems, canonical_bare] at h
    exact h
  have hahead : (Cursor.start (ts ++ [eof]) file).ahead = ts ++ [] := by
    simp [Cursor.start, heof]
  -- none of the tokens is an end of input, so that the cursor gets past all of them
  obtain ⟨c', hpasses, hrest⟩ := Cursor.exists_passes hahead hspelled.endless
  have hc' : c'.kind = .endOfInput := by
    rw [Cursor.kind, Cursor.current, hrest]
    rfl
  let q : Program := ⟨items, ⟨(Cursor.start (ts ++ [eof]) file).position, c'.position⟩⟩
  have hrun : program .standard (.start (ts ++ [eof]) file) = .ok q c' := by
    simp only [program, position_bind, bind_eq_ok, pure_eq_ok]
    exact ⟨items, c', itemsWithin_of_taken (itemsTaken_of_read hitems hcanonicalItems)
      (Nat.le_refl _) hpasses hc', rfl, rfl⟩
  refine ⟨q, ?_, hbareItems⟩
  rw [ofTokens, hrun]

/-- A value that was computed from a program tells that one was read. -/
lemma exists_eq_ok_of_map {α ε β : Type} {r : Except ε α} {f : α → β} {b : β} (h : r.map f = .ok b) :
    ∃ a, r = .ok a ∧ f a = b := by
  cases r with
  | error e => cases h
  | ok a => exact ⟨a, rfl, Except.ok.inj h⟩

/-- A value that was computed from an error tells that there was one. -/
lemma exists_eq_error_of_mapError {α ε β : Type} {r : Except ε α} {f : ε → β} {b : β}
    (h : (r.map fun _ => ()).mapError f = .error b) : ∃ e, r = .error e ∧ f e = b := by
  cases r with
  | error e => exact ⟨e, rfl, Except.error.inj h⟩
  | ok a => cases h

/-- Reading is the inverse of writing.  However a canonical program is written, it is read, up to
spans, from its tokens with an end of input behind.  Whatever is read from a list of tokens in which
numbers have no minus sign of their own is canonical, and the tokens in front of the first end of input
are those that it is written with in some way. -/
theorem ofTokens_inverse (file : String) :
    (∀ (p : Program) (w : Writing) (eof : Token), p.Canonical → eof.kind = .endOfInput →
      ∃ q, ofTokens (p.unparse w ++ [eof]) file = .ok q ∧ q.bare = p.bare) ∧
    (∀ (ts : List Token) (p : Program), Unsigned ts → ofTokens ts file = .ok p →
      p.Canonical ∧ ∃ w, Alike (beforeEnd ts) (p.unparse w)) := by
  constructor
  · intro p w eof hcanonical heof
    exact ofTokens_of_spelled file hcanonical (unparse_spelled w hcanonical) heof
  · intro ts p hunsigned h
    obtain ⟨hcanonical, hspelled, -⟩ := sound_of_ofTokens hunsigned h
    exact ⟨hcanonical, hspelled.exists_alike⟩

/-- A negative number and a chain of two conditions. -/
def ladder : Program :=
  let leave : Block := ⟨[.returning none default], default⟩
  let second : Stmt := .conditional (.literal (.bool false) default) leave none default
  let first : Stmt :=
    .conditional (.literal (.bool true) default) leave (some ⟨[second], default⟩) default
  ⟨[.global ⟨"low", .int, true, some (.number "-5"), default⟩,
    .function ⟨"main", .void, [], ⟨[first], default⟩, default⟩], default⟩

/-- The chain may be written in two ways, and both are read. -/
theorem ofTokens_inverse_ladder :
    ladder.unparse .braced ≠ ladder.unparse (fun _ => true) ∧
    (∃ q, ofTokens (ladder.unparse .braced ++ [.word .endOfInput]) "" = .ok q ∧
      q.bare = ladder.bare) ∧
    ∃ q, ofTokens (ladder.unparse (fun _ => true) ++ [.word .endOfInput]) "" = .ok q ∧
      q.bare = ladder.bare ∧ q.Canonical ∧
        ∃ w, Alike (beforeEnd (ladder.unparse (fun _ => true) ++ [.word .endOfInput]))
          (q.unparse w) := by
  have hcanonical : ladder.Canonical := by
    simp [Canonical, ladder, Item.Canonical, Stmt.AllCanonical, Stmt.Canonical, Expr.Canonical]
  obtain ⟨hread, hwritten⟩ := ofTokens_inverse ""
  obtain ⟨q, hq, hbare⟩ := hread ladder (fun _ => true) (.word .endOfInput) hcanonical rfl
  have hunsigned : Unsigned (ladder.unparse (fun _ => true) ++ [.word .endOfInput]) := by
    unfold Unsigned
    decide
  obtain ⟨hqcanonical, hqwritten⟩ := hwritten _ q hunsigned hq
  exact ⟨by decide, hread ladder .braced _ hcanonical rfl, q, hq, hbare, hqcanonical, hqwritten⟩

end Program

end LangCheck
