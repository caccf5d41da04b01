import LangCheck.Proofs.Grammar.Spelling

/-!
# The tokens of a spelling

Whatever is spelled is spelled by at least one token, and none of its tokens is an end of input.
-/

namespace LangCheck

variable {P : Placement} {ts : List Token}

/-! ## Tokens are there -/

lemma Expr.Spelled.ne_nil {e : Expr} (h : e.Spelled P ts) : ts ≠ [] := by
  cases h <;> simp

lemma VarDecl.Spelled.ne_nil {d : VarDecl} (h : d.Spelled P ts) : ts ≠ [] := by
  cases h
  simp

lemma Assignment.Spelled.ne_nil {a : Assignment} (h : a.Spelled P ts) : ts ≠ [] := by
  cases h <;> simp

lemma ConditionSpelled.ne_nil {word : Kind} {e : Expr} (h : ConditionSpelled P word ts e) :
    ts ≠ [] := by
  cases h
  simp

lemma ForSpelled.ne_nil {init update : Option Stmt} {e : Option Expr}
    (h : ForSpelled P ts init e update) : ts ≠ [] := by
  cases h
  simp

lemma BlockOf.Spelled.ne_nil {b : Block} (h : b.Spelled P ts) : ts ≠ [] := by
  cases h
  simp

lemma Stmt.Spelled.ne_nil {s : Stmt} (h : s.Spelled P ts) : ts ≠ [] := by
  cases h with
  | conditional hcondition _ _ _ => simp [hcondition.ne_nil]
  | whileLoop hcondition _ _ => simp [hcondition.ne_nil]
  | forLoop hhead _ _ => simp [hhead.ne_nil]
  | _ => simp

/-! ## No token ends the input -/

/-- None of the tokens is an end of input. -/
def Endless (ts : List Token) : Prop := ∀ t ∈ ts, t.kind ≠ .endOfInput

@[simp] lemma endless_nil : Endless [] := by
  simp [Endless]

@[simp] lemma endless_cons {t : Token} : Endless (t :: ts) ↔ t.kind ≠ .endOfInput ∧ Endless ts := by
  simp [Endless]

@[simp] lemma endless_append {us : List Token} : Endless (ts ++ us) ↔ Endless ts ∧ Endless us := by
  simp [Endless, or_imp, forall_and]

lemma Literal.Spelled.kind_ne {t : Token} {value : Literal} (h : value.Spelled t) :
    t.kind ≠ .endOfInput := by
  rcases value with text | text | _ | _ <;> simp [Literal.Spelled] at h <;> simp [h]

@[simp] lemma BinaryOp.kind_ne (op : BinaryOp) : op.kind ≠ .endOfInput := by
  cases op <;> decide

@[simp] lemma UnaryOp.kind_ne (op : UnaryOp) : op.kind ≠ .endOfInput := by
  cases op <;> decide

@[simp] lemma AssignOp.kind_ne (op : AssignOp) : op.kind ≠ .endOfInput := by
  cases op <;> decide

lemma Ty.kind_ne_of_kind? {ty : Ty} {k : Kind} (h : ty.kind? = some k) : k ≠ .endOfInput := by
  cases ty <;> cases h <;> decide

mutual

theorem Expr.Spelled.endless : ∀ {ts : List Token} {e : Expr}, e.Spelled P ts → Endless ts
  | _, _, .literal hvalue _ => by simp [hvalue.kind_ne]
  | _, _, .symbol ht _ => by simp [ht]
  | _, _, .call hname hopened hes hclosed _ => by simp [hname, hopened, hclosed, hes.endless]
  | _, _, .group hopened he hclosed _ => by simp [hopened, hclosed, he.endless]
  | _, _, .sign _ ht he _ => by simp [ht, he.endless]
  | _, _, .step _ he ht _ => by simp [ht, he.endless]
  | _, _, .binary hleft ht hright _ => by simp [ht, hleft.endless, hright.endless]

theorem Expr.ArgumentsSpelled.endless :
    ∀ {ts : List Token} {es : List Expr}, Expr.ArgumentsSpelled P ts es → Endless ts
  | _, _, .none => endless_nil
  | _, _, .last he => he.endless
  | _, _, .more he hcomma hes => by simp [hcomma, he.endless, hes.endless]

end

lemma Expr.SpelledIfAny.endless {e : Option Expr} (h : Expr.SpelledIfAny P ts e) : Endless ts := by
  cases e with
  | none =>
    obtain rfl : ts = [] := h
    exact endless_nil
  | some e => exact Expr.Spelled.endless h

lemma ConstSpelled.endless {b : Bool} (h : ConstSpelled ts b) : Endless ts := by
  cases b with
  | false =>
    obtain rfl : ts = [] := h
    exact endless_nil
  | true =>
    obtain ⟨t, rfl, ht⟩ := h
    simp [ht]

lemma VarDecl.Spelled.endless {d : VarDecl} (h : d.Spelled P ts) : Endless ts := by
  rcases h with @⟨cs, vs, word, name, isConst, ty, value, span, hconst, hty, hname, hvalue, -⟩
  have hvs : Endless vs := by
    cases value with
    | none =>
      obtain rfl : vs = [] := hvalue
      exact endless_nil
    | some e =>
      obtain ⟨t, us, rfl, ht, he⟩ := hvalue
      simp [ht, he.endless]
  simp [hconst.endless, Ty.kind_ne_of_kind? hty, hname, hvs]

lemma Assignment.Spelled.endless {a : Assignment} (h : a.Spelled P ts) : Endless ts := by
  cases h with
  | value hname ht _ he _ => simp [hname, ht, he.endless]
  | step hname ht _ _ => simp [hname, ht]

lemma ConditionSpelled.endless {word : Kind} {e : Expr} (hword : word ≠ .endOfInput)
    (h : ConditionSpelled P word ts e) : Endless ts := by
  obtain ⟨hfirst, hopened, he, hclosed⟩ := h
  simp [hfirst, hopened, hclosed, hword, he.endless]

lemma InitSpelled.endless {init : Option Stmt} (h : InitSpelled P ts init) : Endless ts := by
  cases h with
  | none => exact endless_nil
  | declaration hd => exact hd.endless
  | assignment ha => exact ha.endless

lemma UpdateSpelled.endless {update : Option Stmt} (h : UpdateSpelled P ts update) : Endless ts := by
  cases h with
  | none => exact endless_nil
  | assignment ha => exact ha.endless

lemma ForSpelled.endless {init update : Option Stmt} {e : Option Expr}
    (h : ForSpelled P ts init e update) : Endless ts := by
  obtain ⟨hfirst, hopened, hinit, hsecond, he, hthird, hupdate, hclosed⟩ := h
  simp [hfirst, hopened, hsecond, hthird, hclosed, hinit.endless, hupdate.endless, he.endless]

mutual

theorem Stmt.Spelled.endless : ∀ {ts : List Token} {s : Stmt}, s.Spelled P ts → Endless ts
  | _, _, .declaration hd hs => by simp [hd.endless, hs]
  | _, _, .assignment ha hs => by simp [ha.endless, hs]
  | _, _, .call hcall hs => by simp [hcall.endless, hs]
  | _, _, .returning hword he hs _ => by simp [hword, hs, he.endless]
  | _, _, .conditional he hthen helse _ => by
    simp [he.endless (by decide), hthen.endless, helse.endless]
  | _, _, .whileLoop he hbody _ => by simp [he.endless (by decide), hbody.endless]
  | _, _, .forLoop hhead hbody _ => by simp [hhead.endless, hbody.endless]

theorem Stmt.ElseSpelled.endless :
    ∀ {ts : List Token} {b : Option Block}, Stmt.ElseSpelled P ts b → Endless ts
  | _, _, .none => endless_nil
  | _, _, .block hword hb => by simp [hword, hb.endless]
  | _, _, .nested hword _ hs _ => by simp [hword, hs.endless]

theorem BlockOf.Spelled.endless : ∀ {ts : List Token} {b : Block}, b.Spelled P ts → Endless ts
  | _, _, .intro hopened hss hclosed _ => by simp [hopened, hclosed, hss.endless]

theorem Stmt.AllSpelled.endless :
    ∀ {ts : List Token} {ss : List Stmt}, Stmt.AllSpelled P ts ss → Endless ts
  | _, _, .nil => endless_nil
  | _, _, .cons hs hss => by simp [hs.endless, hss.endless]

end

lemma ParametersSpelled.endless {qs : List Parameter} (h : ParametersSpelled P ts qs) :
    Endless ts := by
  have hparameter : ∀ {us q}, Parameter.Spelled P us q → Endless us := by
    rintro us q ⟨hty, hname, -⟩
    simp [Ty.kind_ne_of_kind? hty, hname]
  induction h with
  | none => exact endless_nil
  | last hq => exact hparameter hq
  | more hq hcomma _ ih => simp [hparameter hq, hcomma, ih]

lemma Item.Spelled.endless {item : Item} (h : item.Spelled P ts) : Endless ts := by
  cases h with
  | @global cs vs word name semicolon isConst ty value span hconst hty hname hvalue hs _ =>
    have hvs : Endless vs := by
      cases value with
      | none =>
        obtain rfl : vs = [] := hvalue
        exact endless_nil
      | some value =>
        obtain ⟨t, us, rfl, ht, hspelled⟩ := hvalue
        cases hspelled with
        | literal _ hspelled => simp [ht, hspelled.kind_ne]
        | negated _ hminus hnumber => simp [ht, hminus, hnumber]
    simp [hconst.endless, Ty.kind_ne_of_kind? hty, hname, hvs, hs]
  | function hty hname hopened hqs hclosed hbody _ =>
    simp [Ty.kind_ne_of_kind? hty, hname, hopened, hqs.endless, hclosed, hbody.endless]

/-- Among the tokens that spell items none is an end of input. -/
theorem Item.AllSpelled.endless {items : List Item} (h : Item.AllSpelled P ts items) :
    Endless ts := by
  induction h with
  | nil => exact endless_nil
  | cons h _ ih => simp [h.endless, ih]

end LangCheck
