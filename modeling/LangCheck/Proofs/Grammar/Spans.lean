import LangCheck.Proofs.Grammar.Canonical
import LangCheck.Proofs.Grammar.Tokens

/-!
# Giving a tree the spans of its tokens

Tokens that spell a tree spell one of the same shape in which each node spans its tokens
(`Item.AllSpelled.tighten`).  In such a tree the span of an expression is known from its tokens
(`Expr.Spelled.span_eq`).
-/

namespace LangCheck

open Placement

variable {P : Placement} {ts : List Token}

lemma Expr.Spelled.span_eq {e : Expr} (h : e.Spelled tight ts) : e.span = .covering ts := by
  cases h <;> assumption

/-! ## Expressions -/

mutual

theorem Expr.Spelled.tighten : ∀ {ts : List Token} {e : Expr}, e.Spelled free ts →
    ∃ e' : Expr, e'.Spelled tight ts ∧ e'.bare = e.bare
  | _, _, .literal hvalue _ => ⟨_, .literal hvalue rfl, rfl⟩
  | _, _, .symbol hname _ => ⟨_, .symbol hname rfl, rfl⟩
  | _, _, .call hname hopened h hclosed _ => by
    obtain ⟨es', hes', hbare⟩ := h.tighten
    exact ⟨_, .call hname hopened hes' hclosed rfl, by simp [Expr.bare, hbare]⟩
  | _, _, .group hopened h hclosed _ => by
    obtain ⟨e', he', hbare⟩ := h.tighten
    exact ⟨_, .group hopened he' hclosed rfl, by simp [Expr.bare, hbare]⟩
  | _, _, .sign hop ht h _ => by
    obtain ⟨e', he', hbare⟩ := h.tighten
    exact ⟨_, .sign hop ht he' rfl, by simp [Expr.bare, hbare]⟩
  | _, _, .step hop h ht _ => by
    obtain ⟨e', he', hbare⟩ := h.tighten
    exact ⟨_, .step hop he' ht rfl, by simp [Expr.bare, hbare]⟩
  | _, _, .binary hl ht hr _ => by
    obtain ⟨l', hl', hlbare⟩ := hl.tighten
    obtain ⟨r', hr', hrbare⟩ := hr.tighten
    exact ⟨_, .binary hl' ht hr' rfl, by simp [Expr.bare, hlbare, hrbare]⟩

theorem Expr.ArgumentsSpelled.tighten : ∀ {ts : List Token} {es : List Expr},
    Expr.ArgumentsSpelled free ts es →
      ∃ es', Expr.ArgumentsSpelled tight ts es' ∧ Expr.allBare es' = Expr.allBare es
  | _, _, .none => ⟨[], .none, rfl⟩
  | _, _, .last h => by
    obtain ⟨e', he', hbare⟩ := h.tighten
    exact ⟨_, .last he', by simp [Expr.allBare, hbare]⟩
  | _, _, .more h hcomma hs => by
    obtain ⟨e', he', hbare⟩ := h.tighten
    obtain ⟨_ | ⟨f', es'⟩, hes', hsbare⟩ := hs.tighten
    · simp [Expr.allBare] at hsbare
    · refine ⟨_, .more he' hcomma hes', ?_⟩
      rw [Expr.allBare, hbare, hsbare]
      simp [Expr.allBare]

end

lemma Expr.SpelledIfAny.tighten {e : Option Expr} (h : Expr.SpelledIfAny free ts e) :
    ∃ e', Expr.SpelledIfAny tight ts e' ∧ e'.map Expr.bare = e.map Expr.bare := by
  cases e with
  | none => exact ⟨none, h, rfl⟩
  | some e =>
    obtain ⟨e', he', hbare⟩ := Expr.Spelled.tighten h
    exact ⟨some e', he', by simp [hbare]⟩

/-! ## Declarations and assignments -/

lemma InitializerSpelled.tighten {e : Option Expr} (h : InitializerSpelled free ts e) :
    ∃ e', InitializerSpelled tight ts e' ∧ e'.map Expr.bare = e.map Expr.bare := by
  cases e with
  | none => exact ⟨none, h, rfl⟩
  | some e =>
    obtain ⟨t, us, rfl, ht, he⟩ := h
    obtain ⟨e', he', hbare⟩ := he.tighten
    exact ⟨some e', ⟨t, us, rfl, ht, he'⟩, by simp [hbare]⟩

lemma VarDecl.Spelled.tighten {d : VarDecl} (h : d.Spelled free ts) :
    ∃ d' : VarDecl, d'.Spelled tight ts ∧ d'.bare = d.bare := by
  obtain ⟨hconst, hty, hname, hvalue, -⟩ := h
  obtain ⟨e', he', hbare⟩ := hvalue.tighten
  exact ⟨_, .intro hconst hty hname he' rfl, by simp [VarDecl.bare, hbare]⟩

lemma Assignment.Spelled.tighten {a : Assignment} (h : a.Spelled free ts) :
    ∃ a' : Assignment, a'.Spelled tight ts ∧ a'.bare = a.bare := by
  cases h with
  | value hname ht hop he _ =>
    obtain ⟨e', he', hbare⟩ := he.tighten
    exact ⟨_, .value hname ht hop he' rfl, by simp [Assignment.bare, hbare]⟩
  | step hname ht hop _ => exact ⟨_, .step hname ht hop rfl, by simp [Assignment.bare]⟩

/-! ## Statements -/

lemma ConditionSpelled.tighten {word : Kind} {e : Expr} (h : ConditionSpelled free word ts e) :
    ∃ e', ConditionSpelled tight word ts e' ∧ e'.bare = e.bare := by
  obtain ⟨hfirst, hopened, he, hclosed⟩ := h
  obtain ⟨e', he', hbare⟩ := he.tighten
  exact ⟨e', .intro hfirst hopened he' hclosed, hbare⟩

lemma InitSpelled.tighten {s : Option Stmt} (h : InitSpelled free ts s) :
    ∃ s', InitSpelled tight ts s' ∧ Stmt.bare? s' = Stmt.bare? s := by
  cases h with
  | none => exact ⟨Option.none, .none, rfl⟩
  | declaration h =>
    obtain ⟨d', hd', hbare⟩ := h.tighten
    exact ⟨_, .declaration hd', by simp [Stmt.bare?, Stmt.bare, hbare]⟩
  | assignment h =>
    obtain ⟨a', ha', hbare⟩ := h.tighten
    exact ⟨_, .assignment ha', by simp [Stmt.bare?, Stmt.bare, hbare]⟩

lemma UpdateSpelled.tighten {s : Option Stmt} (h : UpdateSpelled free ts s) :
    ∃ s', UpdateSpelled tight ts s' ∧ Stmt.bare? s' = Stmt.bare? s := by
  cases h with
  | none => exact ⟨Option.none, .none, rfl⟩
  | assignment h =>
    obtain ⟨a', ha', hbare⟩ := h.tighten
    exact ⟨_, .assignment ha', by simp [Stmt.bare?, Stmt.bare, hbare]⟩

lemma ForSpelled.tighten {init update : Option Stmt} {condition : Option Expr}
    (h : ForSpelled free ts init condition update) :
    ∃ init' condition' update', ForSpelled tight ts init' condition' update' ∧
      Stmt.bare? init' = Stmt.bare? init ∧ condition'.map Expr.bare = condition.map Expr.bare ∧
      Stmt.bare? update' = Stmt.bare? update := by
  obtain ⟨hfirst, hopened, hinit, hsecond, hcondition, hthird, hupdate, hclosed⟩ := h
  obtain ⟨init', hinit', hibare⟩ := hinit.tighten
  obtain ⟨condition', hcondition', hcbare⟩ := hcondition.tighten
  obtain ⟨update', hupdate', hubare⟩ := hupdate.tighten
  exact ⟨init', condition', update',
    .intro hfirst hopened hinit' hsecond hcondition' hthird hupdate' hclosed, hibare, hcbare, hubare⟩

lemma Stmt.isConditional_of_bare_eq {s s' : Stmt} (h : s'.bare = s.bare)
    (hs : s.isConditional = true) : s'.isConditional = true := by
  have hbare : ∀ s : Stmt, s.bare.isConditional = s.isConditional := by
    intro s
    cases s with
    | conditional condition thenBlock elseBlock span =>
      rcases elseBlock with _ | elseBlock <;> simp [Stmt.bare, Stmt.isConditional]
    | _ => simp [Stmt.bare, Stmt.isConditional]
  rw [← hbare, h, hbare, hs]

/-- A block without its spans. -/
def BlockOf.bare (b : Block) : Block := ⟨Stmt.allBare b.body, default⟩

lemma Stmt.bare_conditional (condition : Expr) (thenBlock : Block) (elseBlock : Option Block)
    (span : Span) :
    (Stmt.conditional condition thenBlock elseBlock span).bare =
      .conditional condition.bare thenBlock.bare (elseBlock.map BlockOf.bare) default := by
  rcases elseBlock with _ | elseBlock <;> simp [Stmt.bare, BlockOf.bare]

mutual

theorem Stmt.Spelled.tighten : ∀ {ts : List Token} {s : Stmt}, s.Spelled free ts →
    ∃ s' : Stmt, s'.Spelled tight ts ∧ s'.bare = s.bare
  | _, _, .declaration h hsemicolon => by
    obtain ⟨d', hd', hbare⟩ := h.tighten
    exact ⟨_, .declaration hd' hsemicolon, by simp [Stmt.bare, hbare]⟩
  | _, _, .assignment h hsemicolon => by
    obtain ⟨a', ha', hbare⟩ := h.tighten
    exact ⟨_, .assignment ha' hsemicolon, by simp [Stmt.bare, hbare]⟩
  | _, _, .call h hsemicolon => by
    cases h with
    | call hname hopened h hclosed _ =>
      obtain ⟨es', hes', hbare⟩ := h.tighten
      exact ⟨_, .call (.call hname hopened hes' hclosed rfl) hsemicolon, by simp [Stmt.bare, hbare]⟩
  | _, _, .returning hword h hsemicolon _ => by
    obtain ⟨e', he', hbare⟩ := h.tighten
    exact ⟨_, .returning hword he' hsemicolon rfl, by simp [Stmt.bare, hbare]⟩
  | _, _, .conditional hcondition hthen helse _ => by
    obtain ⟨e', he', hebare⟩ := hcondition.tighten
    obtain ⟨b', hb', hbbare⟩ := hthen.tighten
    obtain ⟨o', ho', hobare⟩ := helse.tighten
    exact ⟨_, .conditional he' hb' ho' rfl, by simp [Stmt.bare_conditional, hebare, hbbare, hobare]⟩
  | _, _, .whileLoop hcondition hbody _ => by
    obtain ⟨e', he', hebare⟩ := hcondition.tighten
    obtain ⟨b', hb', hbbare⟩ := hbody.tighten
    exact ⟨_, .whileLoop he' hb' rfl, by simpa [Stmt.bare, hebare, BlockOf.bare] using hbbare⟩
  | _, _, .forLoop hhead hbody _ => by
    obtain ⟨i', c', u', hhead', hibare, hcbare, hubare⟩ := hhead.tighten
    obtain ⟨b', hb', hbbare⟩ := hbody.tighten
    exact ⟨_, .forLoop hhead' hb' rfl, by
      simpa [Stmt.bare, hibare, hcbare, hubare, BlockOf.bare] using hbbare⟩

theorem Stmt.ElseSpelled.tighten : ∀ {ts : List Token} {b : Option Block},
    Stmt.ElseSpelled free ts b →
      ∃ b', Stmt.ElseSpelled tight ts b' ∧ b'.map BlockOf.bare = b.map BlockOf.bare
  | _, _, .none => ⟨none, .none, rfl⟩
  | _, _, .block hword h => by
    obtain ⟨b', hb', hbare⟩ := h.tighten
    exact ⟨_, .block hword hb', by simp [hbare]⟩
  | _, _, .nested hword hs h _ => by
    obtain ⟨s', hs', hbare⟩ := h.tighten
    exact ⟨_, .nested hword (Stmt.isConditional_of_bare_eq hbare hs) hs' rfl, by
      simp [BlockOf.bare, Stmt.allBare, hbare]⟩

theorem BlockOf.Spelled.tighten : ∀ {ts : List Token} {b : Block}, b.Spelled free ts →
    ∃ b' : Block, b'.Spelled tight ts ∧ b'.bare = b.bare
  | _, _, .intro hopened h hclosed _ => by
    obtain ⟨ss', hss', hbare⟩ := h.tighten
    exact ⟨_, .intro hopened hss' hclosed rfl, by simp [BlockOf.bare, hbare]⟩

theorem Stmt.AllSpelled.tighten : ∀ {ts : List Token} {ss : List Stmt}, Stmt.AllSpelled free ts ss →
    ∃ ss', Stmt.AllSpelled tight ts ss' ∧ Stmt.allBare ss' = Stmt.allBare ss
  | _, _, .nil => ⟨[], .nil, rfl⟩
  | _, _, .cons h hs => by
    obtain ⟨s', hs', hbare⟩ := h.tighten
    obtain ⟨ss', hss', hsbare⟩ := hs.tighten
    exact ⟨_, .cons hs' hss', by simp [Stmt.allBare, hbare, hsbare]⟩

end

/-! ## Programs -/

lemma Parameter.Spelled.tighten {q : Parameter} (h : q.Spelled free ts) :
    ∃ q' : Parameter, q'.Spelled tight ts ∧ q'.bare = q.bare := by
  obtain ⟨hty, hname, -⟩ := h
  exact ⟨_, .intro hty hname rfl, rfl⟩

lemma ParametersSpelled.tighten {qs : List Parameter} (h : ParametersSpelled free ts qs) :
    ∃ qs', ParametersSpelled tight ts qs' ∧ qs'.map Parameter.bare = qs.map Parameter.bare := by
  induction h with
  | none => exact ⟨[], .none, rfl⟩
  | last h =>
    obtain ⟨q', hq', hbare⟩ := h.tighten
    exact ⟨[q'], .last hq', by simpa using hbare⟩
  | more h hcomma _ ih =>
    obtain ⟨q', hq', hbare⟩ := h.tighten
    obtain ⟨_ | ⟨r', qs'⟩, hqs', hsbare⟩ := ih
    · simp at hsbare
    · refine ⟨q' :: r' :: qs', .more hq' hcomma hqs', ?_⟩
      rw [List.map_cons, hsbare, hbare]
      rfl

lemma Item.Spelled.tighten {item : Item} (h : item.Spelled free ts) :
    ∃ item' : Item, item'.Spelled tight ts ∧ item'.bare = item.bare := by
  cases h with
  | global hconst hty hname hvalue hsemicolon _ =>
    exact ⟨_, .global hconst hty hname hvalue hsemicolon rfl, rfl⟩
  | function hty hname hopened hqs hclosed hbody _ =>
    obtain ⟨qs', hqs', hqbare⟩ := hqs.tighten
    obtain ⟨b', hb', hbbare⟩ := hbody.tighten
    refine ⟨_, .function hty hname hopened hqs' hclosed hb' rfl, ?_⟩
    have hbody' : Stmt.allBare b'.body = _ := congrArg BlockOf.body hbbare
    simp only [Item.bare, hqbare, hbody', BlockOf.bare]

/-- Tokens that spell items spell some that are the same up to spans, and in which each node spans its
tokens. -/
theorem Item.AllSpelled.tighten {items : List Item} (h : Item.AllSpelled free ts items) :
    ∃ items', Item.AllSpelled tight ts items' ∧ items'.map Item.bare = items.map Item.bare := by
  induction h with
  | nil => exact ⟨[], .nil, rfl⟩
  | cons h _ ih =>
    obtain ⟨item', hitem', hbare⟩ := h.tighten
    obtain ⟨items', hitems', hsbare⟩ := ih
    exact ⟨_, .cons hitem' hitems', by simp [hbare, hsbare]⟩

end LangCheck
