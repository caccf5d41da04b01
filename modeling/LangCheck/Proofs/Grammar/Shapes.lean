import LangCheck.Proofs.Grammar.Tokens
import LangCheck.Proofs.Grammar.Unparse

/-!
# Every spelling is written

The tokens that spell a program are those that are written out in one of the ways of writing it, up to
spans and the texts that are not read (`Program.Spelled.exists_shape`).
-/

namespace LangCheck

variable {P : Placement} {t : Token} {ts us : List Token}

/-- Whether the text of a token of the kind is read. -/
def Kind.hasText : Kind → Bool
  | name | number | text => true
  | _ => false

/-- What is read of a token: its kind, and for some kinds its text. -/
def Token.shape (t : Token) : Kind × String := (t.kind, if t.kind.hasText then t.text else "")

/-- Two lists of tokens read the same. -/
def Alike (ts us : List Token) : Prop := ts.map Token.shape = us.map Token.shape

namespace Alike

@[simp] lemma refl (ts : List Token) : Alike ts ts := rfl

lemma append {ts' us' : List Token} (h : Alike ts us) (h' : Alike ts' us') :
    Alike (ts ++ ts') (us ++ us') := by
  rw [Alike, List.map_append, List.map_append, h, h']

lemma cons {u : Token} (h : t.shape = u.shape) (h' : Alike ts us) : Alike (t :: ts) (u :: us) := by
  rw [Alike, List.map_cons, List.map_cons, h, h']

lemma single {u : Token} (h : t.shape = u.shape) : Alike [t] [u] := cons h rfl

lemma exists_cons {u : Token} (h : Alike ts (u :: us)) :
    ∃ t ts', ts = t :: ts' ∧ t.shape = u.shape ∧ Alike ts' us :=
  List.map_eq_cons_iff.1 h

lemma exists_append {vs : List Token} (h : Alike ts (us ++ vs)) :
    ∃ ts₁ ts₂, ts = ts₁ ++ ts₂ ∧ Alike ts₁ us ∧ Alike ts₂ vs := by
  rw [Alike, List.map_append] at h
  obtain ⟨ts₁, ts₂, rfl, h₁, h₂⟩ := List.map_eq_append_iff.1 h
  exact ⟨ts₁, ts₂, rfl, h₁, h₂⟩

lemma exists_single {u : Token} (h : Alike ts [u]) : ∃ t, ts = [t] ∧ t.shape = u.shape := by
  obtain ⟨t, _, rfl, ht, hnil⟩ := h.exists_cons
  obtain rfl := List.map_eq_nil_iff.1 hnil
  exact ⟨t, rfl, ht⟩

lemma exists_enclosed {opened closed : Token} (h : Alike ts (opened :: (us ++ [closed]))) :
    ∃ o ts' c, ts = o :: (ts' ++ [c]) ∧ o.shape = opened.shape ∧ Alike ts' us ∧
      c.shape = closed.shape := by
  obtain ⟨o, _, rfl, ho, h⟩ := h.exists_cons
  obtain ⟨ts', _, rfl, hts, h⟩ := h.exists_append
  obtain ⟨c, rfl, hc⟩ := h.exists_single
  exact ⟨o, ts', c, rfl, ho, hts, hc⟩

end Alike

/-! ## Tokens -/

lemma Token.shape_word {k : Kind} (h : t.kind = k) (hk : k.hasText = false) :
    t.shape = (Token.word k).shape := by
  simp [shape, word, h, hk]

lemma Token.shape_named (h : t.kind = .name) : t.shape = (Token.named t.text).shape := by
  simp [shape, named, h, Kind.hasText]

lemma Token.kind_eq_of_shape_eq {u : Token} (h : t.shape = u.shape) : t.kind = u.kind :=
  congrArg Prod.fst h

lemma Token.text_eq_of_shape_eq {u : Token} (h : t.shape = u.shape)
    (hu : u.kind.hasText = true) : t.text = u.text := by
  have ht := kind_eq_of_shape_eq h
  simpa [shape, ht, hu] using h

lemma Literal.Spelled.shape_eq {value : Literal} (h : value.Spelled t) :
    t.shape = value.token.shape := by
  rcases value with text | text | _ | _
  · obtain ⟨hkind, rfl⟩ := h
    simp [Token.shape, token, hkind, Kind.hasText]
  · obtain ⟨hkind, rfl⟩ := h
    simp [Token.shape, token, hkind, Kind.hasText]
  · exact Token.shape_word h rfl
  · exact Token.shape_word h rfl

lemma Literal.Spelled.of_shape_eq {u : Token} {value : Literal} (hu : value.Spelled u)
    (h : t.shape = u.shape) : value.Spelled t := by
  have hkind := Token.kind_eq_of_shape_eq h
  rcases value with text | text | _ | _
  · exact ⟨hkind.trans hu.1, (Token.text_eq_of_shape_eq h (by rw [hu.1]; rfl)).trans hu.2⟩
  · exact ⟨hkind.trans hu.1, (Token.text_eq_of_shape_eq h (by rw [hu.1]; rfl)).trans hu.2⟩
  · exact hkind.trans hu
  · exact hkind.trans hu

lemma Ty.hasText_of_kind? {ty : Ty} {k : Kind} (h : ty.kind? = some k) : k.hasText = false := by
  cases ty <;> cases h <;> rfl

lemma Ty.shape_eq {ty : Ty} (h : ty.kind? = some t.kind) : t.shape = ty.token.shape := by
  rw [token, h, Option.getD_some]
  exact Token.shape_word rfl (hasText_of_kind? h)

@[simp] lemma BinaryOp.hasText_kind (op : BinaryOp) : op.kind.hasText = false := by
  cases op <;> rfl

@[simp] lemma UnaryOp.hasText_kind (op : UnaryOp) : op.kind.hasText = false := by
  cases op <;> rfl

@[simp] lemma AssignOp.hasText_kind (op : AssignOp) : op.kind.hasText = false := by
  cases op <;> rfl

/-! ## Expressions -/

mutual

theorem Expr.Spelled.alike :
    ∀ {ts : List Token} {e : Expr}, e.Spelled P ts → Alike ts e.unparse
  | _, _, .literal hvalue _ => by
    rw [Expr.unparse]
    exact .single hvalue.shape_eq
  | _, _, .symbol ht _ => by
    rw [Expr.unparse]
    exact .single (Token.shape_named ht)
  | _, _, .call hname hopened hes hclosed _ => by
    rw [Expr.unparse]
    exact .cons (Token.shape_named hname) (.cons (Token.shape_word hopened rfl)
      (hes.alike.append (.single (Token.shape_word hclosed rfl))))
  | _, _, .group hopened he hclosed _ => by
    rw [Expr.unparse]
    exact .cons (Token.shape_word hopened rfl)
      (he.alike.append (.single (Token.shape_word hclosed rfl)))
  | _, _, .sign hop ht he _ => by
    rw [Expr.unparse, if_neg (by simp [hop])]
    exact .cons (Token.shape_word ht (by simp)) he.alike
  | _, _, .step hop he ht _ => by
    rw [Expr.unparse, if_pos hop]
    exact he.alike.append (.single (Token.shape_word ht (by simp)))
  | _, _, .binary hl ht hr _ => by
    rw [Expr.unparse]
    exact hl.alike.append (.cons (Token.shape_word ht (by simp)) hr.alike)

theorem Expr.ArgumentsSpelled.alike : ∀ {ts : List Token} {es : List Expr},
    Expr.ArgumentsSpelled P ts es → Alike ts (Expr.unparseArguments es)
  | _, _, .none => by
    rw [Expr.unparseArguments]
    exact .refl []
  | _, _, .last he => by
    rw [Expr.unparseArguments]
    exact he.alike
  | _, _, .more he hcomma hes => by
    rw [Expr.unparseArguments]
    exact he.alike.append (.cons (Token.shape_word hcomma rfl) hes.alike)

end

mutual

/-- What tokens spell does not depend on what is not read of them. -/
theorem Expr.Spelled.of_alike : ∀ {us : List Token} {e : Expr}, e.Spelled P us →
    ∀ {ts : List Token}, Alike ts us → e.Spelled .free ts
  | _, _, .literal hvalue _, _, h => by
    obtain ⟨t, rfl, ht⟩ := h.exists_single
    exact .literal (hvalue.of_shape_eq ht) trivial
  | _, _, .symbol hname _, _, h => by
    obtain ⟨t, rfl, ht⟩ := h.exists_single
    rw [← Token.text_eq_of_shape_eq ht (by rw [hname]; rfl)]
    exact .symbol ((Token.kind_eq_of_shape_eq ht).trans hname) trivial
  | _, _, .call hname hopened hes hclosed _, _, h => by
    obtain ⟨name, _, rfl, hn, h⟩ := h.exists_cons
    obtain ⟨opened, ts, closed, rfl, ho, hts, hc⟩ := h.exists_enclosed
    rw [← Token.text_eq_of_shape_eq hn (by rw [hname]; rfl)]
    exact .call ((Token.kind_eq_of_shape_eq hn).trans hname)
      ((Token.kind_eq_of_shape_eq ho).trans hopened) (hes.of_alike hts)
      ((Token.kind_eq_of_shape_eq hc).trans hclosed) trivial
  | _, _, .group hopened he hclosed _, _, h => by
    obtain ⟨opened, ts, closed, rfl, ho, hts, hc⟩ := h.exists_enclosed
    exact .group ((Token.kind_eq_of_shape_eq ho).trans hopened) (he.of_alike hts)
      ((Token.kind_eq_of_shape_eq hc).trans hclosed) trivial
  | _, _, .sign hop hu he _, _, h => by
    obtain ⟨t, ts, rfl, ht, hts⟩ := h.exists_cons
    exact .sign hop ((Token.kind_eq_of_shape_eq ht).trans hu) (he.of_alike hts) trivial
  | _, _, .step hop he hu _, _, h => by
    obtain ⟨ts, _, rfl, hts, h⟩ := h.exists_append
    obtain ⟨t, rfl, ht⟩ := h.exists_single
    exact .step hop (he.of_alike hts) ((Token.kind_eq_of_shape_eq ht).trans hu) trivial
  | _, _, .binary hl hu hr _, _, h => by
    obtain ⟨ts, _, rfl, hts, h⟩ := h.exists_append
    obtain ⟨t, vs, rfl, ht, hvs⟩ := h.exists_cons
    exact .binary (hl.of_alike hts) ((Token.kind_eq_of_shape_eq ht).trans hu) (hr.of_alike hvs)
      trivial

theorem Expr.ArgumentsSpelled.of_alike : ∀ {us : List Token} {es : List Expr},
    Expr.ArgumentsSpelled P us es → ∀ {ts : List Token}, Alike ts us →
      Expr.ArgumentsSpelled .free ts es
  | _, _, .none, _, h => by
    obtain rfl := List.map_eq_nil_iff.1 h
    exact .none
  | _, _, .last he, _, h => .last (he.of_alike h)
  | _, _, .more he hcomma hes, _, h => by
    obtain ⟨ts, _, rfl, hts, h⟩ := h.exists_append
    obtain ⟨t, vs, rfl, ht, hvs⟩ := h.exists_cons
    exact .more (he.of_alike hts) ((Token.kind_eq_of_shape_eq ht).trans hcomma) (hes.of_alike hvs)

end

/-- Tokens that read as an expression is written spell it. -/
lemma Expr.spelled_of_alike {e : Expr} (h : Alike ts e.unparse) : e.Spelled .free ts :=
  e.unparse_spelled.of_alike h

lemma Expr.SpelledIfAny.alike {e : Option Expr} (h : Expr.SpelledIfAny P ts e) :
    Alike ts (Expr.unparseIfAny e) := by
  cases e with
  | none =>
    obtain rfl : ts = [] := h
    exact .refl []
  | some e => exact Expr.Spelled.alike h

/-! ## Statements -/

lemma ConstSpelled.alike {b : Bool} (h : ConstSpelled ts b) : Alike ts (constTokens b) := by
  cases b with
  | false =>
    obtain rfl : ts = [] := h
    exact .refl []
  | true =>
    obtain ⟨t, rfl, ht⟩ := h
    exact .single (Token.shape_word ht rfl)

lemma VarDecl.Spelled.alike {d : VarDecl} (h : d.Spelled P ts) : Alike ts d.unparse := by
  rcases h with @⟨cs, vs, word, name, isConst, ty, value, span, hconst, hty, hname, hvalue, -⟩
  have hvs : Alike vs (initializerTokens value) := by
    cases value with
    | none =>
      obtain rfl : vs = [] := hvalue
      exact .refl []
    | some e =>
      obtain ⟨t, us, rfl, ht, he⟩ := hvalue
      exact .cons (Token.shape_word ht rfl) he.alike
  exact hconst.alike.append (.cons (Ty.shape_eq hty) (.cons (Token.shape_named hname) hvs))

lemma Assignment.Spelled.alike {a : Assignment} (h : a.Spelled P ts) : Alike ts a.unparse := by
  cases h with
  | value hname ht _ he _ =>
    exact .cons (Token.shape_named hname) (.cons (Token.shape_word ht (by simp)) he.alike)
  | step hname ht _ _ =>
    exact .cons (Token.shape_named hname) (.single (Token.shape_word ht (by simp)))

lemma ConditionSpelled.alike {k : Kind} {e : Expr} (hk : k.hasText = false)
    (h : ConditionSpelled P k ts e) : Alike ts (headerTokens k e.unparse) := by
  obtain ⟨hfirst, hopened, he, hclosed⟩ := h
  exact .cons (Token.shape_word hfirst hk) (.cons (Token.shape_word hopened rfl)
    (he.alike.append (.single (Token.shape_word hclosed rfl))))

lemma InitSpelled.alike {init : Option Stmt} (h : InitSpelled P ts init) :
    Alike ts (Stmt.unparseHeader init) := by
  cases h with
  | none => exact .refl []
  | declaration hd => exact hd.alike
  | assignment ha => exact ha.alike

lemma UpdateSpelled.alike {update : Option Stmt} (h : UpdateSpelled P ts update) :
    Alike ts (Stmt.unparseHeader update) := by
  cases h with
  | none => exact .refl []
  | assignment ha => exact ha.alike

lemma ForSpelled.alike {init update : Option Stmt} {e : Option Expr}
    (h : ForSpelled P ts init e update) :
    Alike ts (forTokens (Stmt.unparseHeader init) (Expr.unparseIfAny e)
      (Stmt.unparseHeader update)) := by
  obtain ⟨hfirst, hopened, hinit, hsecond, he, hthird, hupdate, hclosed⟩ := h
  exact .cons (Token.shape_word hfirst rfl) (.cons (Token.shape_word hopened rfl)
    (hinit.alike.append (.cons (Token.shape_word hsecond rfl)
      (he.alike.append (.cons (Token.shape_word hthird rfl)
        (hupdate.alike.append (.single (Token.shape_word hclosed rfl))))))))

lemma Alike.braced {opened closed : Token} (h : Alike ts us) (hopened : opened.kind = .openBrace)
    (hclosed : closed.kind = .closeBrace) :
    Alike (opened :: (ts ++ [closed])) (bracedTokens us) :=
  .cons (Token.shape_word hopened rfl) (h.append (.single (Token.shape_word hclosed rfl)))

mutual

theorem Stmt.Spelled.exists_alike : ∀ {ts : List Token} {s : Stmt}, s.Spelled P ts →
    ∃ w, Alike ts (s.unparse w)
  | _, _, .declaration hd hs => by
    refine ⟨Writing.braced, ?_⟩
    rw [Stmt.unparse]
    exact hd.alike.append (.single (Token.shape_word hs rfl))
  | _, _, .assignment ha hs => by
    refine ⟨Writing.braced, ?_⟩
    rw [Stmt.unparse]
    exact ha.alike.append (.single (Token.shape_word hs rfl))
  | _, _, .call hcall hs => by
    refine ⟨Writing.braced, ?_⟩
    rw [Stmt.unparse]
    exact hcall.alike.append (.single (Token.shape_word hs rfl))
  | _, _, .returning hword he hs _ => by
    refine ⟨Writing.braced, ?_⟩
    rw [Stmt.unparse]
    exact .cons (Token.shape_word hword rfl) (he.alike.append (.single (Token.shape_word hs rfl)))
  | _, _, @Stmt.Spelled.conditional _ hs ts us e ⟨thenBody, _⟩ none span he hthen helse _ => by
    cases helse
    obtain ⟨w, hw⟩ := hthen.exists_alike
    refine ⟨w, ?_⟩
    rw [Stmt.unparse]
    exact (he.alike rfl).append (hw.append (.refl []))
  | _, _, @Stmt.Spelled.conditional _ hs ts us e ⟨thenBody, _⟩ (some ⟨elseBody, _⟩) span he hthen
      helse _ => by
    obtain ⟨l, hl⟩ := hthen.exists_alike
    obtain ⟨here, r, hr⟩ := helse.exists_alike _ rfl
    -- the two blocks are written independently of each other
    refine ⟨.node here l r, ?_⟩
    rw [Stmt.unparse]
    exact (he.alike rfl).append (hl.append hr)
  | _, _, @Stmt.Spelled.whileLoop _ hs ts e ⟨body, _⟩ span he hbody _ => by
    obtain ⟨w, hw⟩ := hbody.exists_alike
    refine ⟨w, ?_⟩
    rw [Stmt.unparse]
    exact (he.alike rfl).append hw
  | _, _, @Stmt.Spelled.forLoop _ hs ts init e update ⟨body, _⟩ span hhead hbody _ => by
    obtain ⟨w, hw⟩ := hbody.exists_alike
    refine ⟨w, ?_⟩
    rw [Stmt.unparse]
    exact hhead.alike.append hw

/-- An else part is written with or without braces. -/
theorem Stmt.ElseSpelled.exists_alike : ∀ {ts : List Token} {elseBlock : Option Block},
    Stmt.ElseSpelled P ts elseBlock → ∀ b ∈ elseBlock, ∃ here r, Alike ts (.word .elseWord ::
      if here && Stmt.areConditional b.body then Stmt.unparseAll r b.body
      else bracedTokens (Stmt.unparseAll r b.body))
  | _, _, .none, _, hb => nomatch hb
  | _, _, .block hword hb, _, rfl => by
    obtain ⟨r, hr⟩ := hb.exists_alike
    exact ⟨false, r, .cons (Token.shape_word hword rfl) hr⟩
  | _, _, .nested hword hconditional hs _, _, rfl => by
    obtain ⟨r, hr⟩ := hs.exists_alike
    refine ⟨true, .node false r r, ?_⟩
    simp only [Bool.true_and, Stmt.areConditional, hconditional, if_true, Stmt.unparseAll,
      List.append_nil, Writing.left_node]
    exact .cons (Token.shape_word hword rfl) hr

theorem BlockOf.Spelled.exists_alike : ∀ {ts : List Token} {b : Block}, b.Spelled P ts →
    ∃ w, Alike ts (bracedTokens (Stmt.unparseAll w b.body))
  | _, _, .intro hopened hss hclosed _ => by
    obtain ⟨w, hw⟩ := hss.exists_alike
    exact ⟨w, hw.braced hopened hclosed⟩

theorem Stmt.AllSpelled.exists_alike : ∀ {ts : List Token} {ss : List Stmt},
    Stmt.AllSpelled P ts ss → ∃ w, Alike ts (Stmt.unparseAll w ss)
  | _, _, .nil => by
    refine ⟨Writing.braced, ?_⟩
    rw [Stmt.unparseAll]
    exact .refl []
  | _, _, .cons hs hss => by
    obtain ⟨l, hl⟩ := hs.exists_alike
    obtain ⟨r, hr⟩ := hss.exists_alike
    refine ⟨.node false l r, ?_⟩
    rw [Stmt.unparseAll]
    exact hl.append hr

end

/-! ## Programs -/

lemma ParametersSpelled.alike {qs : List Parameter} (h : ParametersSpelled P ts qs) :
    Alike ts (parameterTokens qs) := by
  have hparameter : ∀ {us q}, Parameter.Spelled P us q → Alike us q.unparse := by
    rintro us q ⟨hty, hname, -⟩
    exact .cons (Ty.shape_eq hty) (.single (Token.shape_named hname))
  induction h with
  | none => exact .refl []
  | last hq => exact hparameter hq
  | more hq hcomma _ ih =>
    exact (hparameter hq).append (.cons (Token.shape_word hcomma rfl) ih)

lemma Literal.GlobalSpelled.alike {value : Literal} (h : value.GlobalSpelled ts) :
    Alike ts value.globalTokens := by
  unfold globalTokens
  cases h with
  | literal hnone hspelled =>
    rw [hnone]
    exact .single hspelled.shape_eq
  | negated hsome hminus hnumber =>
    rw [hsome]
    refine .cons (Token.shape_word hminus rfl) (.single ?_)
    simp [Token.shape, hnumber]

lemma GlobalInitializerSpelled.alike {value : Option Literal}
    (h : GlobalInitializerSpelled ts value) : Alike ts (globalInitializerTokens value) := by
  cases value with
  | none =>
    obtain rfl : ts = [] := h
    exact .refl []
  | some value =>
    obtain ⟨t, us, rfl, ht, hspelled⟩ := h
    exact .cons (Token.shape_word ht rfl) hspelled.alike

lemma Item.Spelled.exists_alike {item : Item} (h : item.Spelled P ts) :
    ∃ w, Alike ts (item.unparse w) := by
  cases h with
  | global hconst hty hname hvalue hs _ =>
    exact ⟨Writing.braced, hconst.alike.append (.cons (Ty.shape_eq hty) (.cons
      (Token.shape_named hname) (hvalue.alike.append (.single (Token.shape_word hs rfl)))))⟩
  | function hty hname hopened hqs hclosed hbody _ =>
    obtain ⟨w, hw⟩ := hbody.exists_alike
    exact ⟨w, .cons (Ty.shape_eq hty) (.cons (Token.shape_named hname)
      (.cons (Token.shape_word hopened rfl)
        (hqs.alike.append (.cons (Token.shape_word hclosed rfl) hw))))⟩

/-- Tokens that spell items are those written out in some way. -/
theorem Item.AllSpelled.exists_alike {items : List Item} (h : Item.AllSpelled P ts items) :
    ∃ w, Alike ts (Item.unparseAll w items) := by
  induction h with
  | nil => exact ⟨Writing.braced, .refl []⟩
  | cons h _ ih =>
    obtain ⟨l, hl⟩ := h.exists_alike
    obtain ⟨r, hr⟩ := ih
    exact ⟨.node false l r, hl.append hr⟩

end LangCheck
