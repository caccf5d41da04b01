import LangCheck.Grammar.Statement
import LangCheck.Proofs.Grammar.Expressions

/-!
# Reading statements

What the statement parsers read from a cursor on.  For each production there are two lemmas: what a
run reads is spelled by the tokens passed and canonical (`…_sound`), and what is spelled and canonical
is read, provided that the token behind it does not belong to it (`…_complete`).  Statements with
blocks in them come later.
-/

namespace LangCheck.Grammar

open Placement

variable {c c' : Cursor} {ts us : List Token} {ty : Ty} {k : Kind}

/-! ## Declarations -/

lemma ofKind?_eq_some_iff_kind? : Ty.ofKind? k = some ty ↔ ty.kind? = some k := by
  constructor
  · intro h
    unfold Ty.ofKind? at h
    split at h <;> cases h <;> rfl
  · cases ty <;> rintro ⟨⟩ <;> rfl

lemma isTypeWord_of_kind? (h : ty.kind? = some k) : k.isTypeWord = true := by
  rw [← Ty.isSome_ofKind?, ofKind?_eq_some_iff_kind?.2 h, Option.isSome_some]

lemma type_eq_ok :
    type .standard c = .ok ty c' ↔ ∃ t, c.Passes [t] c' ∧ ty.kind? = some t.kind := by
  have hrun : ∀ {τ}, Ty.ofKind? c.kind = some τ → type .standard c = .ok τ c.next := by
    intro τ hτ
    rw [type]
    simp only [Tables.standard, hτ]
    simp only [primitiveType, currentKind_bind, hτ]
    rfl
  constructor
  · intro h
    rcases hτ : Ty.ofKind? c.kind with _ | τ
    · rw [type] at h
      simp only [Tables.standard, hτ] at h
      split at h
      · cases h
      · simp at h
    · rw [hrun hτ] at h
      cases h
      have hkind := ofKind?_eq_some_iff_kind?.1 hτ
      refine ⟨c.current, Cursor.passes_singleton_iff.2 ⟨rfl, ?_, rfl⟩, hkind⟩
      intro hend
      rw [Cursor.kind, hend] at hkind
      cases ty <;> cases hkind
  · rintro ⟨t, h, hkind⟩
    rw [← h.kind_eq] at hkind
    rw [hrun (ofKind?_eq_some_iff_kind?.2 hkind), (Cursor.passes_singleton_iff.1 h).2.2]

/-- The word of a type is not `const`. -/
lemma kind_ne_const {t : Token} (hty : ty.kind? = some t.kind) (h : c.Passes [t] c') :
    c.kind ≠ .constWord := by
  intro hc
  have := isTypeWord_of_kind? hty
  rw [← h.kind_eq, hc] at this
  cases this

lemma constMark_sound {b : Bool} (h : constMark c = .ok b c') :
    ∃ ts, c.Passes ts c' ∧ ConstSpelled ts b := by
  rw [constMark, currentKind_bind] at h
  by_cases hc : c.kind = .constWord
  · have hend : c.kind ≠ .endOfInput := by
      rw [hc]
      decide
    simp only [if_pos hc, bind_eq_ok, advance_eq_ok hend, pure_eq_ok] at h
    obtain ⟨t, c₁, h₁, rfl, rfl⟩ := h
    exact ⟨[t], h₁, t, rfl, by rw [← h₁.kind_eq, hc]⟩
  · rw [if_neg hc] at h
    obtain ⟨rfl, rfl⟩ := pure_eq_ok.1 h
    exact ⟨[], .nil, rfl⟩

lemma constMark_complete {b : Bool} (h : c.Passes ts c') (hspelled : ConstSpelled ts b)
    (hnext : c'.kind ≠ .constWord) : constMark c = .ok b c' := by
  rw [constMark, currentKind_bind]
  cases b with
  | true =>
    obtain ⟨t, rfl, ht⟩ := hspelled
    have hc : c.kind = .constWord := by rw [h.kind_eq, ht]
    have hend : c.kind ≠ .endOfInput := by
      rw [hc]
      decide
    simp only [if_pos hc, bind_eq_ok, advance_eq_ok hend, pure_eq_ok]
    exact ⟨t, c', h, trivial, rfl⟩
  | false =>
    obtain rfl : ts = [] := hspelled
    rw [Cursor.passes_nil_iff.1 h] at hnext ⊢
    rw [if_neg hnext]
    rfl

/-- The end of something in a statement: a semicolon or a closing parenthesis. -/
def Cursor.Closes (c : Cursor) : Prop := c.kind = .semicolon ∨ c.kind = .closeParen

lemma Cursor.Closes.continuation_eq (h : c.Closes) :
    Tables.standard.continuation c.kind = none := by
  rcases h with h | h <;> rw [h] <;> rfl

lemma Cursor.Closes.kind_ne (h : c.Closes) : c.kind ≠ .openParen := by
  rcases h with h | h <;> rw [h] <;> decide

lemma expression_complete_of_closes {e : Expr} (h : c.Passes ts c') (hspelled : e.Spelled tight ts)
    (hcanonical : e.Canonical) (hc : c'.Closes) : expression .standard .default c = .ok e c' :=
  expression_complete h hspelled hcanonical hc.continuation_eq hc.kind_ne

lemma varDecl_sound {d : VarDecl} (h : varDecl .standard c = .ok d c') :
    ∃ ts, c.Passes ts c' ∧ d.Spelled tight ts ∧ d.Canonical := by
  simp only [varDecl, bind_eq_ok, position_bind, expectHinted_eq_ok, ne_eq, reduceCtorEq,
    not_false_eq_true, currentKind_bind, type_eq_ok] at h
  obtain ⟨isConst, c₁, h₁, ty, c₂, ⟨word, h₂, hty⟩, name, c₃, ⟨hname, h₃⟩, h⟩ := h
  obtain ⟨cs, h₁, hconst⟩ := constMark_sound h₁
  have hne : ty ≠ .unknown := by
    rintro rfl
    cases hty
  have h₁₃ := h₁.append (h₂.append h₃)
  by_cases hassign : c₃.kind = .assign
  · have hend : c₃.kind ≠ .endOfInput := by
      rw [hassign]
      decide
    simp only [if_pos hassign, bind_eq_ok, advance_eq_ok hend, map_eq_ok, passed_bind,
      pure_eq_ok] at h
    obtain ⟨t, c₄, h₄, value, c₅, ⟨e, he, rfl⟩, rfl, rfl⟩ := h
    obtain ⟨us, h₅, hspelled, hcanonical⟩ := expression_sound he
    have hpasses : c.Passes (cs ++ word :: name :: t :: us) c' := by
      simpa using h₁₃.append (h₄.append h₅)
    refine ⟨_, hpasses, .intro hconst hty hname ⟨t, us, rfl, by rw [← h₄.kind_eq, hassign], hspelled⟩
      (hpasses.span_eq (by simp)), hne, ?_⟩
    rintro f ⟨⟩
    exact hcanonical
  · simp only [if_neg hassign, bind_eq_ok, passed_bind, pure_eq_ok] at h
    obtain ⟨value, c₄, ⟨rfl, rfl⟩, rfl, rfl⟩ := h
    have hpasses : c.Passes (cs ++ word :: name :: []) c' := by simpa using h₁₃
    exact ⟨_, hpasses, .intro hconst hty hname rfl (hpasses.span_eq (by simp)), hne,
      by simp⟩

lemma varDecl_complete {d : VarDecl} (h : c.Passes ts c') (hspelled : d.Spelled tight ts)
    (hcanonical : d.Canonical) (hc : c'.Closes) : varDecl .standard c = .ok d c' := by
  rcases hspelled with @⟨cs, vs, word, name, isConst, ty, value, span, hconst, hty, hname, hvalue,
    hspan⟩
  obtain rfl : span = .covering _ := hspan
  have hrange := h.span_eq (by simp)
  obtain ⟨c₁, h₁, hrest⟩ := Cursor.passes_append_iff.1 h
  obtain ⟨c₂, h₂, hrest⟩ := Cursor.passes_cons_iff_singleton.1 hrest
  obtain ⟨c₃, h₃, h₄⟩ := Cursor.passes_cons_iff_singleton.1 hrest
  simp only [varDecl, bind_eq_ok, position_bind, expectHinted_eq_ok, ne_eq, reduceCtorEq,
    not_false_eq_true, currentKind_bind, type_eq_ok]
  refine ⟨_, c₁, constMark_complete h₁ hconst (kind_ne_const hty h₂), _, c₂, ⟨_, h₂, hty⟩, _, c₃,
    ⟨hname, h₃⟩, ?_⟩
  cases value with
  | none =>
    obtain rfl : vs = [] := hvalue
    obtain rfl := Cursor.passes_nil_iff.1 h₄
    have hassign : c'.kind ≠ .assign := by
      rcases hc with hc | hc <;> rw [hc] <;> decide
    simp only [if_neg hassign, bind_eq_ok, passed_bind, pure_eq_ok, ← hrange]
    exact ⟨none, c', ⟨rfl, rfl⟩, rfl, rfl⟩
  | some e =>
    obtain ⟨t, us, rfl, ht, he⟩ := hvalue
    obtain ⟨c₄, h₄, h₅⟩ := Cursor.passes_cons_iff_singleton.1 h₄
    have hassign : c₃.kind = .assign := by rw [h₄.kind_eq, ht]
    have hend : c₃.kind ≠ .endOfInput := by
      rw [hassign]
      decide
    have hrun := expression_complete_of_closes h₅ he (hcanonical.2 e rfl) hc
    simp only [if_pos hassign, bind_eq_ok, advance_eq_ok hend, map_eq_ok, passed_bind, pure_eq_ok,
      ← hrange]
    exact ⟨t, c₄, h₄, some e, c', ⟨e, hrun, rfl⟩, rfl, rfl⟩

/-! ## Assignments -/

lemma assignOp?_eq_some_iff {op : AssignOp} : assignOp? k = some op ↔ k = op.kind := by
  constructor
  · intro h
    unfold assignOp? at h
    split at h <;> cases h <;> rfl
  · rintro rfl
    cases op <;> rfl

lemma assignment_sound {a : Assignment} (h : assignment .standard c = .ok a c') :
    ∃ ts, c.Passes ts c' ∧ a.Spelled tight ts ∧ a.Canonical := by
  simp only [assignment, bind_eq_ok, expect_eq_ok, ne_eq, reduceCtorEq, not_false_eq_true,
    currentKind_bind] at h
  obtain ⟨name, c₁, ⟨hname, h₁⟩, h⟩ := h
  rcases hop : assignOp? c₁.kind with _ | op
  · simp [hop] at h
  have hkind := assignOp?_eq_some_iff.1 hop
  have hend : c₁.kind ≠ .endOfInput := by
    rw [hkind]
    cases op <;> decide
  simp only [hop, bind_eq_ok, advance_eq_ok hend] at h
  obtain ⟨t, c₂, h₂, h⟩ := h
  have ht : t.kind = op.kind := by rw [← h₂.kind_eq, hkind]
  by_cases htakes : op.takesValue = true
  · simp only [if_pos htakes, bind_eq_ok, map_eq_ok, passed_bind, pure_eq_ok] at h
    obtain ⟨value, c₃, ⟨e, he, rfl⟩, rfl, rfl⟩ := h
    obtain ⟨us, h₃, hspelled, hcanonical⟩ := expression_sound he
    have hpasses : c.Passes (name :: t :: us) c' := h₁.append (h₂.append h₃)
    have hspan := hpasses.span_eq (by simp)
    rw [Cursor.position, h₁.current_eq] at hspan
    refine ⟨_, hpasses, .value hname ht htakes hspelled hspan, by simp [htakes], ?_⟩
    rintro f ⟨⟩
    exact hcanonical
  · simp only [if_neg htakes, bind_eq_ok, passed_bind, pure_eq_ok] at h
    obtain ⟨value, c₃, ⟨rfl, rfl⟩, rfl, rfl⟩ := h
    have hpasses : c.Passes [name, t] c' := h₁.append h₂
    have hspan := hpasses.span_eq (by simp)
    rw [Cursor.position, h₁.current_eq] at hspan
    exact ⟨_, hpasses, .step hname ht (by simpa using htakes) hspan, by simp [htakes],
      by simp⟩

lemma assignment_complete {a : Assignment} (h : c.Passes ts c') (hspelled : a.Spelled tight ts)
    (hcanonical : a.Canonical) (hc : c'.Closes) : assignment .standard c = .ok a c' := by
  have hrange := h.span_eq hspelled.ne_nil
  simp only [assignment, bind_eq_ok, expect_eq_ok, ne_eq, reduceCtorEq, not_false_eq_true,
    currentKind_bind]
  cases hspelled with
  | @value name t us op e span hname ht htakes he hspan =>
    obtain rfl : span = .covering _ := hspan
    obtain ⟨c₁, h₁, hrest⟩ := Cursor.passes_cons_iff_singleton.1 h
    obtain ⟨c₂, h₂, h₃⟩ := Cursor.passes_cons_iff_singleton.1 hrest
    rw [Cursor.position, h₁.current_eq] at hrange
    have hop : assignOp? c₁.kind = some op := assignOp?_eq_some_iff.2 (by rw [h₂.kind_eq, ht])
    have hend := h₂.kind_ne_end
    have hrun := expression_complete_of_closes h₃ he (hcanonical.2 e rfl) hc
    refine ⟨name, c₁, ⟨hname, h₁⟩, ?_⟩
    simp only [hop, bind_eq_ok, advance_eq_ok hend, if_pos htakes, map_eq_ok, passed_bind,
      pure_eq_ok, ← hrange]
    exact ⟨t, c₂, h₂, some e, c', ⟨e, hrun, rfl⟩, rfl, rfl⟩
  | @step name t op span hname ht htakes hspan =>
    obtain rfl : span = .covering _ := hspan
    obtain ⟨c₁, h₁, h₂⟩ := Cursor.passes_cons_iff_singleton.1 h
    rw [Cursor.position, h₁.current_eq] at hrange
    have hop : assignOp? c₁.kind = some op := assignOp?_eq_some_iff.2 (by rw [h₂.kind_eq, ht])
    have hend := h₂.kind_ne_end
    refine ⟨name, c₁, ⟨hname, h₁⟩, ?_⟩
    simp only [hop, bind_eq_ok, advance_eq_ok hend, htakes, Bool.false_eq_true, if_false, passed_bind,
      pure_eq_ok, ← hrange]
    exact ⟨t, c', h₂, none, c', ⟨rfl, rfl⟩, rfl, rfl⟩

/-! ## Statements without statements in them -/

/-- Tokens spell a statement that can be read from them. -/
def StmtRead (ts : List Token) (s : Stmt) : Prop := s.Spelled tight ts ∧ s.Canonical

/-- Tokens spell a block that can be read from them. -/
def BlockRead (ts : List Token) (b : Block) : Prop :=
  b.Spelled tight ts ∧ Stmt.AllCanonical b.body

lemma declarationStmt_sound {s : Stmt} (h : declarationStmt .standard c = .ok s c') :
    ∃ ts, c.Passes ts c' ∧ StmtRead ts s := by
  simp only [declarationStmt, bind_eq_ok, expect_eq_ok, ne_eq, reduceCtorEq, not_false_eq_true,
    pure_eq_ok] at h
  obtain ⟨d, c₁, hd, semicolon, c₂, ⟨hs, h₂⟩, rfl, rfl⟩ := h
  obtain ⟨ts, h₁, hspelled, hcanonical⟩ := varDecl_sound hd
  exact ⟨ts ++ [semicolon], h₁.append h₂, .declaration hspelled hs, hcanonical⟩

lemma declarationStmt_complete {d : VarDecl} {semicolon : Token}
    (h : c.Passes (ts ++ [semicolon]) c') (hspelled : d.Spelled tight ts) (hcanonical : d.Canonical)
    (hs : semicolon.kind = .semicolon) :
    declarationStmt .standard c = .ok (.declaration d) c' := by
  obtain ⟨c₁, h₁, h₂⟩ := Cursor.passes_append_iff.1 h
  have hrun := varDecl_complete h₁ hspelled hcanonical (Or.inl (by rw [h₂.kind_eq, hs]))
  simp only [declarationStmt, bind_eq_ok, expect_eq_ok, ne_eq, reduceCtorEq, not_false_eq_true,
    pure_eq_ok]
  exact ⟨d, c₁, hrun, semicolon, c', ⟨hs, h₂⟩, rfl, rfl⟩

lemma namedStmt_sound {s : Stmt} (h : namedStmt .standard c = .ok s c') :
    ∃ ts, c.Passes ts c' ∧ StmtRead ts s := by
  rw [namedStmt, peekKind_bind] at h
  by_cases hnext : (c.peek 1).kind = .openParen
  · simp only [if_pos hnext, bind_eq_ok, map_eq_ok, expect_eq_ok, ne_eq, reduceCtorEq,
      not_false_eq_true, pure_eq_ok] at h
    obtain ⟨_, c₁, ⟨call, hcall, rfl⟩, semicolon, c₂, ⟨hs, h₂⟩, rfl, rfl⟩ := h
    obtain ⟨ts, h₁, hspelled, hcanonical⟩ := call_sound hcall
    exact ⟨ts ++ [semicolon], h₁.append h₂, .call hspelled hs, hcanonical⟩
  · simp only [if_neg hnext, bind_eq_ok, map_eq_ok, expect_eq_ok, ne_eq, reduceCtorEq,
      not_false_eq_true, pure_eq_ok] at h
    obtain ⟨_, c₁, ⟨a, ha, rfl⟩, semicolon, c₂, ⟨hs, h₂⟩, rfl, rfl⟩ := h
    obtain ⟨ts, h₁, hspelled, hcanonical⟩ := assignment_sound ha
    exact ⟨ts ++ [semicolon], h₁.append h₂, .assignment hspelled hs, hcanonical⟩

lemma namedStmt_complete_of_call {call : Call} {semicolon : Token}
    (h : c.Passes (ts ++ [semicolon]) c') (hspelled : call.toExpr.Spelled tight ts)
    (hcanonical : call.toExpr.Canonical) (hs : semicolon.kind = .semicolon) :
    namedStmt .standard c = .ok (.call call) c' := by
  obtain ⟨c₁, h₁, h₂⟩ := Cursor.passes_append_iff.1 h
  have hrun := call_complete h₁ hspelled hcanonical
  have hnext : (c.peek 1).kind = .openParen := by
    rcases call with ⟨callee, es, span⟩
    cases hspelled with
    | call _ hopened _ _ _ => rw [peek_one_of_passes h₁, hopened]
  rw [namedStmt, peekKind_bind]
  simp only [if_pos hnext, bind_eq_ok, map_eq_ok, expect_eq_ok, ne_eq, reduceCtorEq,
    not_false_eq_true, pure_eq_ok]
  exact ⟨_, c₁, ⟨call, hrun, rfl⟩, semicolon, c', ⟨hs, h₂⟩, rfl, rfl⟩

lemma namedStmt_complete_of_assignment {a : Assignment} {semicolon : Token}
    (h : c.Passes (ts ++ [semicolon]) c') (hspelled : a.Spelled tight ts)
    (hcanonical : a.Canonical) (hs : semicolon.kind = .semicolon) :
    namedStmt .standard c = .ok (.assignment a) c' := by
  obtain ⟨c₁, h₁, h₂⟩ := Cursor.passes_append_iff.1 h
  have hrun := assignment_complete h₁ hspelled hcanonical (Or.inl (by rw [h₂.kind_eq, hs]))
  have hnext : (c.peek 1).kind ≠ .openParen := by
    cases hspelled with
    | @value _ _ _ op _ _ _ ht _ _ _ =>
      rw [peek_one_of_passes h₁, ht]
      cases op <;> decide
    | @step _ _ op _ _ ht _ _ =>
      rw [peek_one_of_passes h₁, ht]
      cases op <;> decide
  rw [namedStmt, peekKind_bind]
  simp only [if_neg hnext, bind_eq_ok, map_eq_ok, expect_eq_ok, ne_eq, reduceCtorEq,
    not_false_eq_true, pure_eq_ok]
  exact ⟨_, c₁, ⟨a, hrun, rfl⟩, semicolon, c', ⟨hs, h₂⟩, rfl, rfl⟩

/-- An expression in front of a semicolon, if there is one. -/
lemma expressionIfAny_sound {e : Option Expr}
    (h : if c.kind = .semicolon then e = none ∧ c' = c
      else ∃ f, expression .standard .default c = .ok f c' ∧ e = some f) :
    ∃ ts, c.Passes ts c' ∧ Expr.SpelledIfAny tight ts e ∧ ∀ f, e = some f → f.Canonical := by
  split at h
  · obtain ⟨rfl, rfl⟩ := h
    exact ⟨[], .nil, rfl, by simp⟩
  · obtain ⟨f, hf, rfl⟩ := h
    obtain ⟨ts, hpasses, hspelled, hcanonical⟩ := expression_sound hf
    refine ⟨ts, hpasses, hspelled, ?_⟩
    rintro g ⟨⟩
    exact hcanonical

lemma expressionIfAny_complete {e : Option Expr} (h : c.Passes ts c')
    (hspelled : Expr.SpelledIfAny tight ts e) (hcanonical : ∀ f, e = some f → f.Canonical)
    (hc : c'.kind = .semicolon) :
    if c.kind = .semicolon then e = none ∧ c' = c
      else ∃ f, expression .standard .default c = .ok f c' ∧ e = some f := by
  cases e with
  | none =>
    obtain rfl : ts = [] := hspelled
    obtain rfl := Cursor.passes_nil_iff.1 h
    rw [if_pos hc]
    exact ⟨rfl, rfl⟩
  | some f =>
    have hspelled : f.Spelled tight ts := hspelled
    obtain ⟨o, ho⟩ := exists_opening_kind hspelled h
    rw [if_neg fun hk => by rw [hk] at ho; cases ho]
    exact ⟨f, expression_complete_of_closes h hspelled (hcanonical f rfl) (Or.inl hc), rfl⟩

lemma returning_sound {s : Stmt} (hc : c.kind = .returnWord) (h : returning .standard c = .ok s c') :
    ∃ ts, c.Passes ts c' ∧ StmtRead ts s := by
  have hend : c.kind ≠ .endOfInput := by
    rw [hc]
    decide
  simp only [returning, bind_eq_ok, advance_eq_ok hend, expect_eq_ok, ne_eq, reduceCtorEq,
    not_false_eq_true, currentKind_bind, ite_bind_eq_ok, map_eq_ok, pure_eq_ok] at h
  obtain ⟨word, c₁, h₁, value, c₂, h₂, semicolon, c₃, ⟨hs, h₃⟩, rfl, rfl⟩ := h
  obtain ⟨ts, h₂, hspelled, hcanonical⟩ := expressionIfAny_sound h₂
  exact ⟨word :: (ts ++ [semicolon]), h₁.append (h₂.append h₃),
    .returning (by rw [← h₁.kind_eq, hc]) hspelled hs (Span.covering_enclosed word semicolon ts).symm,
    hcanonical⟩

lemma returning_complete {word semicolon : Token} {value : Option Expr}
    (h : c.Passes (word :: (ts ++ [semicolon])) c') (hspelled : Expr.SpelledIfAny tight ts value)
    (hcanonical : ∀ e, value = some e → e.Canonical) (hs : semicolon.kind = .semicolon) :
    returning .standard c =
      .ok (.returning value (.covering (word :: (ts ++ [semicolon])))) c' := by
  obtain ⟨c₁, h₁, hrest⟩ := Cursor.passes_cons_iff_singleton.1 h
  obtain ⟨c₂, h₂, h₃⟩ := Cursor.passes_append_iff.1 hrest
  have hend := h₁.kind_ne_end
  simp only [returning, bind_eq_ok, advance_eq_ok hend, expect_eq_ok, ne_eq, reduceCtorEq,
    not_false_eq_true, currentKind_bind, ite_bind_eq_ok, map_eq_ok, pure_eq_ok,
    Span.covering_enclosed]
  exact ⟨word, c₁, h₁, value, c₂,
    expressionIfAny_complete h₂ hspelled hcanonical (by rw [h₃.kind_eq, hs]), semicolon, c', ⟨hs, h₃⟩,
    rfl, rfl⟩

/-! ## Headers -/

lemma condition_sound {e : Expr} (h : condition .standard c = .ok e c') :
    ∃ (opened : Token) (ts : List Token) (closed : Token),
      c.Passes (opened :: (ts ++ [closed])) c' ∧ opened.kind = .openParen ∧
      e.Spelled tight ts ∧ closed.kind = .closeParen ∧ e.Canonical := by
  simp only [condition, bind_eq_ok, expect_eq_ok, ne_eq, reduceCtorEq, not_false_eq_true,
    pure_eq_ok] at h
  obtain ⟨opened, c₁, ⟨ho, h₁⟩, _, c₂, he, closed, c₃, ⟨hcl, h₃⟩, rfl, rfl⟩ := h
  obtain ⟨ts, h₂, hspelled, hcanonical⟩ := expression_sound he
  exact ⟨opened, ts, closed, h₁.append (h₂.append h₃), ho, hspelled, hcl, hcanonical⟩

lemma condition_complete {e : Expr} {opened closed : Token}
    (h : c.Passes (opened :: (ts ++ [closed])) c') (ho : opened.kind = .openParen)
    (hspelled : e.Spelled tight ts) (hcl : closed.kind = .closeParen) (hcanonical : e.Canonical) :
    condition .standard c = .ok e c' := by
  obtain ⟨c₁, h₁, hrest⟩ := Cursor.passes_cons_iff_singleton.1 h
  obtain ⟨c₂, h₂, h₃⟩ := Cursor.passes_append_iff.1 hrest
  have hrun := expression_complete_of_closes h₂ hspelled hcanonical
    (Or.inr (by rw [h₃.kind_eq, hcl]))
  simp only [condition, bind_eq_ok, expect_eq_ok, ne_eq, reduceCtorEq, not_false_eq_true, pure_eq_ok]
  exact ⟨opened, c₁, ⟨ho, h₁⟩, e, c₂, hrun, closed, c', ⟨hcl, h₃⟩, rfl, rfl⟩

lemma forInit_sound {s : Option Stmt} (h : forInit .standard c = .ok s c') :
    ∃ ts, c.Passes ts c' ∧ InitSpelled tight ts s ∧ Stmt.InitCanonical s := by
  rw [forInit, currentKind_bind] at h
  split at h
  · obtain ⟨rfl, rfl⟩ := pure_eq_ok.1 h
    exact ⟨[], .nil, .none, trivial⟩
  · split at h
    · simp only [bind_eq_ok, pure_eq_ok] at h
      obtain ⟨d, c₁, hd, rfl, rfl⟩ := h
      obtain ⟨ts, h₁, hspelled, hcanonical⟩ := varDecl_sound hd
      exact ⟨ts, h₁, .declaration hspelled, hcanonical⟩
    · simp only [bind_eq_ok, pure_eq_ok] at h
      obtain ⟨a, c₁, ha, rfl, rfl⟩ := h
      obtain ⟨ts, h₁, hspelled, hcanonical⟩ := assignment_sound ha
      exact ⟨ts, h₁, .assignment hspelled, hcanonical⟩

/-- A declaration begins with `const` or the word of a type. -/
lemma kind_of_varDecl {P : Placement} {d : VarDecl} (hspelled : d.Spelled P ts)
    (h : c.Passes ts c') : c.kind = .constWord ∨ c.kind.isTypeWord = true := by
  rcases hspelled with @⟨cs, vs, word, name, isConst, ty, value, span, hconst, hty, -, -, -⟩
  cases isConst with
  | true =>
    obtain ⟨t, rfl, ht⟩ := hconst
    exact Or.inl (by rw [h.kind_eq, ht])
  | false =>
    obtain rfl : cs = [] := hconst
    refine Or.inr ?_
    rw [h.kind_eq]
    exact isTypeWord_of_kind? hty

/-- An assignment begins with a name. -/
lemma kind_of_assignment {P : Placement} {a : Assignment} (hspelled : a.Spelled P ts)
    (h : c.Passes ts c') : c.kind = .name := by
  cases hspelled with
  | value hname _ _ _ _ => rw [h.kind_eq, hname]
  | step hname _ _ _ => rw [h.kind_eq, hname]

lemma forInit_complete {s : Option Stmt} (h : c.Passes ts c') (hspelled : InitSpelled tight ts s)
    (hcanonical : Stmt.InitCanonical s) (hc : c'.kind = .semicolon) :
    forInit .standard c = .ok s c' := by
  rw [forInit, currentKind_bind]
  cases hspelled with
  | none =>
    obtain rfl := Cursor.passes_nil_iff.1 h
    rw [if_pos hc]
    rfl
  | declaration hd =>
    have hkind := kind_of_varDecl hd h
    have hsemicolon : c.kind ≠ .semicolon := by
      intro hk
      rw [hk] at hkind
      simp [Kind.isTypeWord] at hkind
    rw [if_neg hsemicolon, if_pos hkind]
    simp only [bind_eq_ok, pure_eq_ok]
    exact ⟨_, c', varDecl_complete h hd hcanonical (Or.inl hc), rfl, rfl⟩
  | assignment ha =>
    have hkind := kind_of_assignment ha h
    rw [if_neg (by rw [hkind]; decide), if_neg (by rw [hkind]; decide)]
    simp only [bind_eq_ok, pure_eq_ok]
    exact ⟨_, c', assignment_complete h ha hcanonical (Or.inl hc), rfl, rfl⟩

end LangCheck.Grammar
