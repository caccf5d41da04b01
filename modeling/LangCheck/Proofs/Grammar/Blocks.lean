import LangCheck.Proofs.Grammar.Statements

/-!
# Reading blocks

What the parsers of blocks and of the statements with blocks in them read.  One production at a time,
the statements and `if`s inside are given as parsers of which this is known for fewer tokens
(`SoundWithin`, `CompleteWithin`); the induction on the room ties the knot.
-/

namespace LangCheck.Grammar

open Placement

variable {c c' : Cursor} {ts us : List Token} {k : Kind}

/-! ## Statements with blocks in them -/

lemma span_of_block {b : Block} (h : b.Spelled tight ts) : b.span = .covering ts := by
  cases h
  assumption

lemma span_of_isConditional {s : Stmt} (h : s.Spelled tight ts) (hs : s.isConditional = true) :
    s.span = .covering ts := by
  cases h <;> first | assumption | cases hs

/-- An `if` begins with its word. -/
lemma kind_of_isConditional {P : Placement} {s : Stmt} (h : s.Spelled P ts)
    (hs : s.isConditional = true) (hts : c.Passes ts c') : c.kind = .ifWord := by
  cases h with
  | conditional hcondition _ _ _ =>
    cases hcondition with
    | intro hfirst _ _ _ => rw [hts.kind_eq, hfirst]
  | _ => cases hs

lemma canonical_conditional {e : Expr} {thenBlock : Block} {elseBlock : Option Block} {span : Span} :
    (Stmt.conditional e thenBlock elseBlock span).Canonical ↔ e.Canonical ∧
      Stmt.AllCanonical thenBlock.body ∧ ∀ b, elseBlock = some b → Stmt.AllCanonical b.body := by
  cases elseBlock <;> simp [Stmt.Canonical]

/-- The form that the first token of a statement tells. -/
def formOf : Stmt → StmtForm
  | .declaration _ => .declaration
  | .assignment _ | .call _ => .named
  | .conditional _ _ _ _ => .conditional
  | .whileLoop _ _ _ => .whileLoop
  | .forLoop _ _ _ _ _ => .forLoop
  | .returning _ _ => .returning

/-- The table of statements tells a statement by its first token. -/
lemma statement_eq_some_formOf {P : Placement} {s : Stmt} (h : s.Spelled P ts)
    (hts : c.Passes ts c') : Tables.standard.statement c.kind = some (formOf s) := by
  cases h with
  | declaration hd _ =>
    obtain ⟨c₁, h₁, -⟩ := Cursor.passes_append_iff.1 hts
    rcases kind_of_varDecl hd h₁ with hc | hc
    · rw [hc]
      rfl
    · generalize c.kind = k at hc
      cases k <;> first | rfl | cases hc
  | assignment ha _ =>
    obtain ⟨c₁, h₁, -⟩ := Cursor.passes_append_iff.1 hts
    rw [kind_of_assignment ha h₁]
    rfl
  | call hcall _ =>
    cases hcall with
    | call hname _ _ _ _ =>
      rw [hts.kind_eq, hname]
      rfl
  | returning hword _ _ _ =>
    rw [hts.kind_eq, hword]
    rfl
  | conditional hcondition _ _ _ =>
    rcases hcondition with ⟨hfirst, -, -, -⟩
    rw [hts.kind_eq, hfirst]
    rfl
  | whileLoop hcondition _ _ =>
    rcases hcondition with ⟨hfirst, -, -, -⟩
    rw [hts.kind_eq, hfirst]
    rfl
  | forLoop hhead _ _ =>
    rcases hhead with ⟨hfirst, -, -, -, -, -, -, -⟩
    rw [hts.kind_eq, hfirst]
    rfl

lemma kind_of_statement {form : StmtForm} (h : Tables.standard.statement k = some form) :
    (form = .conditional → k = .ifWord) ∧ (form = .whileLoop → k = .whileWord) ∧
      (form = .forLoop → k = .forWord) ∧ (form = .returning → k = .returnWord) := by
  cases k <;> cases h <;> decide

lemma kind_ne_of_stmt {P : Placement} {s : Stmt} (h : s.Spelled P ts) (hts : c.Passes ts c') :
    c.kind ≠ .closeBrace ∧ c.kind ≠ .endOfInput ∧ c.kind ≠ .elseWord := by
  have hform := statement_eq_some_formOf h hts
  refine ⟨?_, ?_, ?_⟩ <;>
  · intro hc
    rw [hc] at hform
    cases hform

/-- Behind a statement of a block there is no `else`. -/
lemma kind_ne_of_allSpelled {P : Placement} {ss : List Stmt} (h : Stmt.AllSpelled P ts ss)
    (hts : c.Passes ts c') (hc' : c'.kind = .closeBrace) : c.kind ≠ .elseWord := by
  cases h with
  | nil =>
    obtain rfl := Cursor.passes_nil_iff.1 hts
    rw [hc']
    decide
  | cons hs _ =>
    obtain ⟨c₁, h₁, -⟩ := Cursor.passes_append_iff.1 hts
    exact (kind_ne_of_stmt hs h₁).2.2

section Productions

variable {n : Nat} {statements : Parser (List Stmt)} {nested : Parser Stmt}

/-- On cursors with at most `n` tokens ahead, the parsers of what stands inside a block read only what
is spelled by the tokens passed. -/
structure SoundWithin (n : Nat) (statements : Parser (List Stmt)) (nested : Parser Stmt) : Prop where
  list : ∀ {c c' : Cursor} {ss : List Stmt}, c.ahead.length ≤ n → statements c = .ok ss c' →
    ∃ ts, c.Passes ts c' ∧ Stmt.AllSpelled tight ts ss ∧ Stmt.AllCanonical ss
  conditional : ∀ {c c' : Cursor} {s : Stmt}, c.ahead.length ≤ n → c.kind = .ifWord →
    nested c = .ok s c' → ∃ ts, c.Passes ts c' ∧ StmtRead ts s ∧ s.isConditional = true

/-- On cursors with at most `n` tokens ahead, the parsers of what stands inside a block read all that
is spelled: statements up to a closing brace, an `if` unless an `else` behind it belongs to it. -/
structure CompleteWithin (n : Nat) (statements : Parser (List Stmt)) (nested : Parser Stmt) :
    Prop where
  list : ∀ {c c' : Cursor} {ts : List Token} {ss : List Stmt}, c.ahead.length ≤ n →
    c.Passes ts c' → Stmt.AllSpelled tight ts ss → Stmt.AllCanonical ss → c'.kind = .closeBrace →
    statements c = .ok ss c'
  conditional : ∀ {c c' : Cursor} {ts : List Token} {s : Stmt}, c.ahead.length ≤ n →
    c.Passes ts c' → StmtRead ts s → s.isConditional = true → c'.kind ≠ .elseWord →
    nested c = .ok s c'

lemma blockWith_sound {b : Block} (hin : SoundWithin n statements nested)
    (hlen : c.ahead.length ≤ n + 1) (h : blockWith statements c = .ok b c') :
    ∃ ts, c.Passes ts c' ∧ BlockRead ts b := by
  simp only [blockWith, bind_eq_ok, expect_eq_ok, ne_eq, reduceCtorEq, not_false_eq_true,
    pure_eq_ok] at h
  obtain ⟨opened, c₁, ⟨ho, h₁⟩, body, c₂, hbody, closed, c₃, ⟨hcl, h₃⟩, rfl, rfl⟩ := h
  have hlen₁ := h₁.length_le_of_le_succ hlen
  obtain ⟨ts, h₂, hspelled, hcanonical⟩ := hin.list hlen₁ hbody
  exact ⟨opened :: (ts ++ [closed]), h₁.append (h₂.append h₃),
    .intro ho hspelled hcl (Span.covering_enclosed opened closed ts).symm, hcanonical⟩

lemma blockWith_complete {b : Block} (hin : CompleteWithin n statements nested)
    (hlen : c.ahead.length ≤ n + 1) (h : c.Passes ts c') (hb : BlockRead ts b) :
    blockWith statements c = .ok b c' := by
  obtain ⟨hspelled, hcanonical⟩ := hb
  cases hspelled with
  | @intro opened closed ts body span ho hbody hcl hspan =>
    obtain rfl : span = .covering _ := hspan
    obtain ⟨c₁, h₁, hrest⟩ := Cursor.passes_cons_iff_singleton.1 h
    obtain ⟨c₂, h₂, h₃⟩ := Cursor.passes_append_iff.1 hrest
    have hlen₁ := h₁.length_le_of_le_succ hlen
    have hrun := hin.list hlen₁ h₂ hbody hcanonical (by rw [h₃.kind_eq, hcl])
    simp only [blockWith, bind_eq_ok, expect_eq_ok, ne_eq, reduceCtorEq, not_false_eq_true,
      pure_eq_ok, Span.covering_enclosed]
    exact ⟨opened, c₁, ⟨ho, h₁⟩, body, c₂, hrun, closed, c', ⟨hcl, h₃⟩, rfl, rfl⟩

lemma whileWith_sound {s : Stmt} (hin : SoundWithin n statements nested) (hc : c.kind = .whileWord)
    (hlen : c.ahead.length ≤ n + 1) (h : whileWith .standard (blockWith statements) c = .ok s c') :
    ∃ ts, c.Passes ts c' ∧ StmtRead ts s := by
  have hend : c.kind ≠ .endOfInput := by
    rw [hc]
    decide
  simp only [whileWith, bind_eq_ok, advance_eq_ok hend, pure_eq_ok] at h
  obtain ⟨word, c₁, h₁, e, c₂, he, body, c₃, hbody, rfl, rfl⟩ := h
  obtain ⟨opened, ts, closed, h₂, ho, hspelled, hcl, hcanonical⟩ := condition_sound he
  have hlen₂ : c₂.ahead.length ≤ n + 1 := by
    have := h₁.length_lt (by simp)
    have := h₂.length_lt (by simp)
    omega
  obtain ⟨us, h₃, hb, hbcanonical⟩ := blockWith_sound hin hlen₂ hbody
  have hhead := ConditionSpelled.intro (by rw [← h₁.kind_eq, hc]) ho hspelled hcl
  refine ⟨word :: opened :: (ts ++ [closed]) ++ us, (h₁.append h₂).append h₃,
    .whileLoop hhead hb ?_, ?_⟩
  · rw [span_of_block hb]
    exact (Span.covering_append hhead.ne_nil hb.ne_nil).symm
  · exact ⟨hcanonical, hbcanonical⟩

lemma whileWith_complete {hs : List Token} {e : Expr} {body : Block}
    (hin : CompleteWithin n statements nested)
    (hlen : c.ahead.length ≤ n + 1) (h : c.Passes (hs ++ ts) c')
    (hcondition : ConditionSpelled tight .whileWord hs e) (hcanonical : e.Canonical)
    (hbody : BlockRead ts body) :
    whileWith .standard (blockWith statements) c =
      .ok (.whileLoop e body (.covering (hs ++ ts))) c' := by
  rw [Span.covering_append hcondition.ne_nil hbody.1.ne_nil]
  rcases hcondition with @⟨word, opened, closed, us, e, hword, ho, hspelled, hcl⟩
  obtain ⟨c₂, hhead, h₃⟩ := Cursor.passes_append_iff.1 h
  obtain ⟨c₁, h₁, h₂⟩ := Cursor.passes_cons_iff_singleton.1 hhead
  have hend : c.kind ≠ .endOfInput := by
    rw [h₁.kind_eq, hword]
    decide
  have hlen₂ : c₂.ahead.length ≤ n + 1 := by
    have := hhead.length_lt (by simp)
    omega
  have he := condition_complete h₂ ho hspelled hcl hcanonical
  simp only [whileWith, bind_eq_ok, advance_eq_ok hend, pure_eq_ok]
  refine ⟨word, c₁, h₁, e, c₂, he, body, c', blockWith_complete hin hlen₂ h₃ hbody, ?_, rfl⟩
  rw [← span_of_block hbody.1]
  rfl

lemma forWith_sound {s : Stmt} (hin : SoundWithin n statements nested) (hc : c.kind = .forWord)
    (hlen : c.ahead.length ≤ n + 1) (h : forWith .standard (blockWith statements) c = .ok s c') :
    ∃ ts, c.Passes ts c' ∧ StmtRead ts s := by
  have hend : c.kind ≠ .endOfInput := by
    rw [hc]
    decide
  simp only [forWith, bind_eq_ok, advance_eq_ok hend, expect_eq_ok, ne_eq, reduceCtorEq,
    not_false_eq_true, currentKind_bind, ite_bind_eq_ok, map_eq_ok, pure_eq_ok] at h
  obtain ⟨first, c₁, h₁, opened, c₂, ⟨ho, h₂⟩, init, c₃, hinit, second, c₄, ⟨hs₂, h₄⟩, e, c₅, he,
    third, c₆, ⟨hs₃, h₆⟩, update, c₇, hupdate, closed, c₈, ⟨hcl, h₈⟩, body, c₉, hbody, rfl, rfl⟩ := h
  obtain ⟨is, h₃, hinit, hinitCanonical⟩ := forInit_sound hinit
  obtain ⟨ts, h₅, he, hcanonical⟩ := expressionIfAny_sound he
  obtain ⟨us, h₇, hupdate, hupdateCanonical⟩ : ∃ us, c₆.Passes us c₇ ∧
      UpdateSpelled tight us update ∧ Stmt.UpdateCanonical update := by
    split at hupdate
    · obtain ⟨rfl, rfl⟩ := hupdate
      exact ⟨[], .nil, .none, trivial⟩
    · obtain ⟨a, ha, rfl⟩ := hupdate
      obtain ⟨us, h₇, hspelled, hacanonical⟩ := assignment_sound ha
      exact ⟨us, h₇, .assignment hspelled, hacanonical⟩
  -- the header from the first word to the closing parenthesis
  have hhead := ForSpelled.intro (by rw [← h₁.kind_eq, hc]) ho hinit hs₂ he hs₃ hupdate hcl
  have hpasses := h₁.append (h₂.append (h₃.append (h₄.append (h₅.append (h₆.append
    (h₇.append h₈))))))
  have hlen₈ : c₈.ahead.length ≤ n + 1 := by
    have := hpasses.length_lt (by simp)
    omega
  obtain ⟨vs, h₉, hb, hbcanonical⟩ := blockWith_sound hin hlen₈ hbody
  refine ⟨_, hpasses.append h₉, .forLoop hhead hb ?_, hinitCanonical, hcanonical, hupdateCanonical,
    hbcanonical⟩
  rw [span_of_block hb]
  exact (Span.covering_append hhead.ne_nil hb.ne_nil).symm

/-- An assignment in front of a closing parenthesis, if there is one. -/
lemma updateIfAny_complete {s : Option Stmt} (h : c.Passes ts c')
    (hspelled : UpdateSpelled tight ts s) (hcanonical : Stmt.UpdateCanonical s)
    (hc : c'.kind = .closeParen) :
    if c.kind = .closeParen then s = none ∧ c' = c
      else ∃ a, assignment .standard c = .ok a c' ∧ s = (some ∘ Stmt.assignment) a := by
  cases hspelled with
  | none =>
    obtain rfl := Cursor.passes_nil_iff.1 h
    rw [if_pos hc]
    exact ⟨rfl, rfl⟩
  | assignment ha =>
    rw [if_neg (by rw [kind_of_assignment ha h]; decide)]
    exact ⟨_, assignment_complete h ha hcanonical (Or.inr hc), rfl⟩

lemma forWith_complete {hs : List Token} {init update : Option Stmt} {e : Option Expr} {body : Block}
    (hin : CompleteWithin n statements nested)
    (hlen : c.ahead.length ≤ n + 1) (h : c.Passes (hs ++ ts) c')
    (hhead : ForSpelled tight hs init e update) (hinitCanonical : Stmt.InitCanonical init)
    (hcanonical : ∀ f, e = some f → f.Canonical) (hupdateCanonical : Stmt.UpdateCanonical update)
    (hbody : BlockRead ts body) :
    forWith .standard (blockWith statements) c =
      .ok (.forLoop init e update body (.covering (hs ++ ts))) c' := by
  rw [Span.covering_append hhead.ne_nil hbody.1.ne_nil]
  rcases hhead with @⟨first, opened, second, third, closed, is, es, us, init, e, update, hfirst, ho,
    hinit, hs₂, he, hs₃, hupdate, hcl⟩
  obtain ⟨c₈, hall, h₉⟩ := Cursor.passes_append_iff.1 h
  obtain ⟨c₁, h₁, hrest⟩ := Cursor.passes_cons_iff_singleton.1 hall
  obtain ⟨c₂, h₂, hrest⟩ := Cursor.passes_cons_iff_singleton.1 hrest
  obtain ⟨c₃, h₃, hrest⟩ := Cursor.passes_append_iff.1 hrest
  obtain ⟨c₄, h₄, hrest⟩ := Cursor.passes_cons_iff_singleton.1 hrest
  obtain ⟨c₅, h₅, hrest⟩ := Cursor.passes_append_iff.1 hrest
  obtain ⟨c₆, h₆, hrest⟩ := Cursor.passes_cons_iff_singleton.1 hrest
  obtain ⟨c₇, h₇, h₈⟩ := Cursor.passes_append_iff.1 hrest
  have hend : c.kind ≠ .endOfInput := by
    rw [h₁.kind_eq, hfirst]
    decide
  have hlen₈ : c₈.ahead.length ≤ n + 1 := by
    have := hall.length_lt (by simp)
    omega
  simp only [forWith, bind_eq_ok, advance_eq_ok hend, expect_eq_ok, ne_eq, reduceCtorEq,
    not_false_eq_true, currentKind_bind, ite_bind_eq_ok, map_eq_ok, pure_eq_ok]
  refine ⟨first, c₁, h₁, opened, c₂, ⟨ho, h₂⟩, init, c₃,
    forInit_complete h₃ hinit hinitCanonical (by rw [h₄.kind_eq, hs₂]), second, c₄, ⟨hs₂, h₄⟩, e, c₅,
    expressionIfAny_complete h₅ he hcanonical (by rw [h₆.kind_eq, hs₃]), third, c₆, ⟨hs₃, h₆⟩, update,
    c₇, updateIfAny_complete h₇ hupdate hupdateCanonical (by rw [h₈.kind_eq, hcl]), closed, c₈,
    ⟨hcl, h₈⟩, body, c', blockWith_complete hin hlen₈ h₉ hbody, ?_, rfl⟩
  rw [← span_of_block hbody.1]
  rfl

/-- Reads the else part of an `if`, if there is one. -/
def elseWith (block : Parser Block) (nested : Parser Stmt) : Parser (Option Block) := do
  if (← currentKind) = .elseWord then
    let _ ← advance
    if (← currentKind) = .ifWord then
      let inner ← nested
      return some ⟨[inner], inner.span⟩
    else
      some <$> block
  else
    return none

lemma conditionalWith_eq (t : Tables) (block : Parser Block) :
    conditionalWith t block nested = do
      let word ← advance
      let tested ← condition t
      let thenBlock ← block
      let elseBlock ← elseWith block nested
      return .conditional tested thenBlock elseBlock ⟨word.span.start, ← passed⟩ := by
  simp only [conditionalWith, elseWith, bind_assoc]
  refine bind_congr fun word => bind_congr fun tested => bind_congr fun thenBlock =>
    bind_congr fun kind => ?_
  split
  · rw [bind_assoc]
    refine bind_congr fun _ => ?_
    rw [bind_assoc]
    refine bind_congr fun _ => ?_
    split
    · rw [bind_assoc]
    · rfl
  · rfl

lemma elseWith_sound {b : Option Block} (hin : SoundWithin n statements nested)
    (hlen : c.ahead.length ≤ n) (h : elseWith (blockWith statements) nested c = .ok b c') :
    ∃ ts, c.Passes ts c' ∧ Stmt.ElseSpelled tight ts b ∧
      ∀ d, b = some d → Stmt.AllCanonical d.body := by
  rw [elseWith, currentKind_bind] at h
  by_cases hc : c.kind = .elseWord
  · have hend : c.kind ≠ .endOfInput := by
      rw [hc]
      decide
    rw [if_pos hc] at h
    simp only [bind_eq_ok, advance_eq_ok hend, currentKind_bind] at h
    obtain ⟨word, c₁, h₁, h⟩ := h
    have hword : word.kind = .elseWord := by rw [← h₁.kind_eq, hc]
    have hlen₁ := h₁.length_le_of_le_succ (Nat.le_succ_of_le hlen)
    by_cases hif : c₁.kind = .ifWord
    · rw [if_pos hif] at h
      simp only [bind_eq_ok, pure_eq_ok] at h
      obtain ⟨s, c₂, hs, rfl, rfl⟩ := h
      -- the block has no braces of its own, and its span is that of the `if` inside
      obtain ⟨ts, h₂, ⟨hspelled, hcanonical⟩, hconditional⟩ := hin.conditional hlen₁ hif hs
      refine ⟨word :: ts, h₁.append h₂,
        .nested hword hconditional hspelled (span_of_isConditional hspelled hconditional), ?_⟩
      rintro d ⟨⟩
      exact ⟨hcanonical, trivial⟩
    · rw [if_neg hif, map_eq_ok] at h
      obtain ⟨d, hd, rfl⟩ := h
      obtain ⟨ts, h₂, hspelled, hcanonical⟩ := blockWith_sound hin (Nat.le_succ_of_le hlen₁) hd
      refine ⟨word :: ts, h₁.append h₂, .block hword hspelled, ?_⟩
      rintro d' ⟨⟩
      exact hcanonical
  · rw [if_neg hc] at h
    obtain ⟨rfl, rfl⟩ := pure_eq_ok.1 h
    exact ⟨[], .nil, .none, by simp⟩

lemma elseWith_complete {b : Option Block} (hin : CompleteWithin n statements nested)
    (hlen : c.ahead.length ≤ n) (h : c.Passes ts c') (hspelled : Stmt.ElseSpelled tight ts b)
    (hcanonical : ∀ d, b = some d → Stmt.AllCanonical d.body) (hnext : c'.kind ≠ .elseWord) :
    elseWith (blockWith statements) nested c = .ok b c' := by
  rw [elseWith, currentKind_bind]
  cases hspelled with
  | none =>
    obtain rfl := Cursor.passes_nil_iff.1 h
    rw [if_neg hnext]
    rfl
  | @block word ts d hword hd =>
    obtain ⟨c₁, h₁, h₂⟩ := Cursor.passes_cons_iff_singleton.1 h
    have hc : c.kind = .elseWord := by rw [h₁.kind_eq, hword]
    have hlen₁ := h₁.length_le_of_le_succ (Nat.le_succ_of_le hlen)
    -- a block begins with a brace, which tells it from a nested `if`
    have hif : c₁.kind ≠ .ifWord := by
      cases hd with
      | intro ho _ _ _ =>
        rw [h₂.kind_eq, ho]
        decide
    have hrun := blockWith_complete hin (Nat.le_succ_of_le hlen₁) h₂ ⟨hd, hcanonical d rfl⟩
    rw [if_pos hc, bind_eq_ok]
    refine ⟨word, c₁, (advance_eq_ok (by rw [hc]; decide)).2 h₁, ?_⟩
    rw [currentKind_bind, if_neg hif, map_eq_ok]
    exact ⟨d, hrun, rfl⟩
  | @nested word ts s span hword hconditional hs hspan =>
    obtain ⟨c₁, h₁, h₂⟩ := Cursor.passes_cons_iff_singleton.1 h
    have hc : c.kind = .elseWord := by rw [h₁.kind_eq, hword]
    have hlen₁ := h₁.length_le_of_le_succ (Nat.le_succ_of_le hlen)
    have hrun := hin.conditional hlen₁ h₂ ⟨hs, (hcanonical _ rfl).1⟩ hconditional hnext
    rw [if_pos hc, bind_eq_ok]
    refine ⟨word, c₁, (advance_eq_ok (by rw [hc]; decide)).2 h₁, ?_⟩
    rw [currentKind_bind, if_pos (kind_of_isConditional hs hconditional h₂), bind_eq_ok]
    refine ⟨s, c', hrun, ?_⟩
    rw [span_of_isConditional hs hconditional, ← show span = .covering ts from hspan]
    rfl

lemma conditionalWith_sound {s : Stmt} (hin : SoundWithin n statements nested) (hc : c.kind = .ifWord)
    (hlen : c.ahead.length ≤ n + 1)
    (h : conditionalWith .standard (blockWith statements) nested c = .ok s c') :
    ∃ ts, c.Passes ts c' ∧ StmtRead ts s ∧ s.isConditional = true := by
  have hend : c.kind ≠ .endOfInput := by
    rw [hc]
    decide
  rw [conditionalWith_eq] at h
  simp only [bind_eq_ok, advance_eq_ok hend, passed_bind, pure_eq_ok] at h
  obtain ⟨word, c₁, h₁, e, c₂, he, thenBlock, c₃, hthen, elseBlock, c₄, helse, rfl, rfl⟩ := h
  obtain ⟨opened, ts, closed, h₂, ho, hspelled, hcl, hcanonical⟩ := condition_sound he
  have hhead := ConditionSpelled.intro (by rw [← h₁.kind_eq, hc]) ho hspelled hcl
  have hlen₂ : c₂.ahead.length ≤ n := by
    have := h₁.length_lt (by simp)
    have := h₂.length_lt (by simp)
    omega
  obtain ⟨us, h₃, hb, hbcanonical⟩ := blockWith_sound hin (Nat.le_succ_of_le hlen₂) hthen
  have hlen₃ : c₃.ahead.length ≤ n := by
    have := h₃.length_eq
    omega
  obtain ⟨vs, h₄, hels, helsCanonical⟩ := elseWith_sound hin hlen₃ helse
  have hpasses : c.Passes (word :: opened :: (ts ++ [closed]) ++ (us ++ vs)) c' :=
    (h₁.append h₂).append (h₃.append h₄)
  have hspan := hpasses.span_eq (by simp)
  rw [Cursor.position, h₁.current_eq] at hspan
  exact ⟨_, hpasses, ⟨.conditional hhead hb hels hspan,
    canonical_conditional.2 ⟨hcanonical, hbcanonical, helsCanonical⟩⟩, rfl⟩

lemma conditionalWith_complete {hs : List Token} {e : Expr} {thenBlock : Block}
    {elseBlock : Option Block} (hin : CompleteWithin n statements nested)
    (hlen : c.ahead.length ≤ n + 1) (h : c.Passes (hs ++ (ts ++ us)) c')
    (hcondition : ConditionSpelled tight .ifWord hs e) (hcanonical : e.Canonical)
    (hthen : BlockRead ts thenBlock) (helse : Stmt.ElseSpelled tight us elseBlock)
    (helseCanonical : ∀ d, elseBlock = some d → Stmt.AllCanonical d.body)
    (hnext : c'.kind ≠ .elseWord) :
    conditionalWith .standard (blockWith statements) nested c =
      .ok (.conditional e thenBlock elseBlock (.covering (hs ++ (ts ++ us)))) c' := by
  have hspan := h.span_eq (by simp [hcondition.ne_nil])
  rcases hcondition with @⟨word, opened, closed, vs, e, hword, ho, hspelled, hcl⟩
  obtain ⟨c₂, hhead, hrest⟩ := Cursor.passes_append_iff.1 h
  obtain ⟨c₁, h₁, h₂⟩ := Cursor.passes_cons_iff_singleton.1 hhead
  obtain ⟨c₃, h₃, h₄⟩ := Cursor.passes_append_iff.1 hrest
  rw [Cursor.position, h₁.current_eq] at hspan
  have hend : c.kind ≠ .endOfInput := by
    rw [h₁.kind_eq, hword]
    decide
  have hlen₂ : c₂.ahead.length ≤ n := by
    have := hhead.length_lt (by simp)
    omega
  have hlen₃ : c₃.ahead.length ≤ n := by
    have := h₃.length_eq
    omega
  rw [conditionalWith_eq]
  simp only [bind_eq_ok, advance_eq_ok hend, passed_bind, pure_eq_ok, ← hspan]
  exact ⟨word, c₁, h₁, e, c₂, condition_complete h₂ ho hspelled hcl hcanonical, thenBlock, c₃,
    blockWith_complete hin (Nat.le_succ_of_le hlen₂) h₃ hthen, elseBlock, c',
    elseWith_complete hin hlen₃ h₄ helse helseCanonical hnext, rfl, rfl⟩

lemma statementWith_sound {s : Stmt} (hin : SoundWithin n statements nested)
    (hlen : c.ahead.length ≤ n + 1)
    (h : statementWith .standard (blockWith statements) nested c = .ok s c') :
    ∃ ts, c.Passes ts c' ∧ StmtRead ts s := by
  rw [statementWith, currentKind_bind] at h
  rcases hform : Tables.standard.statement c.kind with _ | form
  · simp [hform] at h
  obtain ⟨hif, hwhile, hfor, hreturn⟩ := kind_of_statement hform
  rw [hform] at h
  cases form with
  | declaration => exact declarationStmt_sound h
  | named => exact namedStmt_sound h
  | conditional =>
    obtain ⟨ts, hpasses, hread, -⟩ := conditionalWith_sound hin (hif rfl) hlen h
    exact ⟨ts, hpasses, hread⟩
  | whileLoop => exact whileWith_sound hin (hwhile rfl) hlen h
  | forLoop => exact forWith_sound hin (hfor rfl) hlen h
  | returning => exact returning_sound (hreturn rfl) h

lemma statementWith_complete {s : Stmt} (hin : CompleteWithin n statements nested)
    (hlen : c.ahead.length ≤ n + 1) (h : c.Passes ts c') (hs : StmtRead ts s)
    (hnext : c'.kind ≠ .elseWord) :
    statementWith .standard (blockWith statements) nested c = .ok s c' := by
  obtain ⟨hspelled, hcanonical⟩ := hs
  rw [statementWith, currentKind_bind, statement_eq_some_formOf hspelled h]
  cases hspelled with
  | declaration hd hsemicolon => exact declarationStmt_complete h hd hcanonical hsemicolon
  | assignment ha hsemicolon => exact namedStmt_complete_of_assignment h ha hcanonical hsemicolon
  | call hcall hsemicolon => exact namedStmt_complete_of_call h hcall hcanonical hsemicolon
  | returning hword hvalue hsemicolon hspan =>
    rw [hspan]
    exact returning_complete h hvalue hcanonical hsemicolon
  | conditional hcondition hthen helse hspan =>
    obtain ⟨he, hthenCanonical, helseCanonical⟩ := canonical_conditional.1 hcanonical
    rw [hspan]
    exact conditionalWith_complete hin hlen h hcondition he ⟨hthen, hthenCanonical⟩ helse
      helseCanonical hnext
  | whileLoop hcondition hbody hspan =>
    rw [hspan]
    exact whileWith_complete hin hlen h hcondition hcanonical.1 ⟨hbody, hcanonical.2⟩
  | forLoop hhead hbody hspan =>
    obtain ⟨hinit, he, hupdate, hbodyCanonical⟩ := hcanonical
    rw [hspan]
    exact forWith_complete hin hlen h hhead hinit he hupdate ⟨hbody, hbodyCanonical⟩

end Productions

/-! ## The recursion -/

lemma statementsWithin_of_closeBrace {t : Tables} {room : Nat} (hc : c.kind = .closeBrace) :
    statementsWithin t (room + 1) c = .ok [] c := by
  rw [statementsWithin, currentKind_bind, hc]
  rfl

lemma statementsWithin_of_endOfInput {t : Tables} {room : Nat} (hc : c.kind = .endOfInput) :
    statementsWithin t (room + 1) c =
      .error (c.misplaced "expected `\x7d` to close the block") c := by
  rw [statementsWithin, currentKind_bind, hc]
  rfl

lemma statementsWithin_succ {t : Tables} {room : Nat} (hclose : c.kind ≠ .closeBrace)
    (hend : c.kind ≠ .endOfInput) :
    statementsWithin t (room + 1) c = (do
      let first ← statementWith t (blockWith (statementsWithin t room)) (conditionalWithin t room)
      return first :: (← statementsWithin t room) : Parser (List Stmt)) c := by
  rw [statementsWithin, currentKind_bind]
  generalize c.kind = k at hclose hend
  cases k <;> first | rfl | exact absurd rfl hclose | exact absurd rfl hend

/-- What the recursion reads is spelled by the tokens passed. -/
theorem soundWithin (room : Nat) :
    SoundWithin room (statementsWithin .standard room) (conditionalWithin .standard room) := by
  induction room with
  | zero =>
    constructor
    · intro c c' ss _ h
      simp [statementsWithin] at h
    · intro c c' s _ _ h
      simp [conditionalWithin] at h
  | succ room ih =>
    constructor
    · intro c c' ss hlen h
      by_cases hclose : c.kind = .closeBrace
      · rw [statementsWithin_of_closeBrace hclose] at h
        cases h
        exact ⟨[], .nil, .nil, trivial⟩
      by_cases hend : c.kind = .endOfInput
      · rw [statementsWithin_of_endOfInput hend] at h
        cases h
      · simp only [statementsWithin_succ hclose hend, bind_eq_ok, pure_eq_ok] at h
        obtain ⟨s, c₁, hs, others, c₂, hothers, rfl, rfl⟩ := h
        obtain ⟨ts, h₁, hspelled, hcanonical⟩ := statementWith_sound ih hlen hs
        have hlen₁ : c₁.ahead.length ≤ room := by
          have := h₁.length_lt hspelled.ne_nil
          omega
        obtain ⟨us, h₂, hothers, hothersCanonical⟩ := ih.list hlen₁ hothers
        exact ⟨ts ++ us, h₁.append h₂, .cons hspelled hothers, hcanonical, hothersCanonical⟩
    · intro c c' s hlen hc h
      rw [conditionalWithin] at h
      exact conditionalWith_sound ih hc hlen h

/-- What is spelled is read by the recursion. -/
theorem completeWithin (room : Nat) :
    CompleteWithin room (statementsWithin .standard room) (conditionalWithin .standard room) := by
  induction room with
  | zero =>
    constructor
    · intro c c' ts ss hlen h _ _ hc'
      -- without tokens ahead the cursor is at the end of the input, not at a closing brace
      have := h.length_eq
      have hnil : c'.ahead = [] := List.eq_nil_of_length_eq_zero (by omega)
      rw [Cursor.kind, Cursor.current, hnil] at hc'
      cases hc'
    · intro c c' ts s hlen h hs _ _
      have := h.length_lt hs.1.ne_nil
      omega
  | succ room ih =>
    constructor
    · intro c c' ts ss hlen h hspelled hcanonical hc'
      cases hspelled with
      | nil =>
        obtain rfl := Cursor.passes_nil_iff.1 h
        exact statementsWithin_of_closeBrace hc'
      | @cons ts us s ss hs hss =>
        obtain ⟨c₁, h₁, h₂⟩ := Cursor.passes_append_iff.1 h
        have hrun := statementWith_complete ih hlen h₁ ⟨hs, hcanonical.1⟩
          (kind_ne_of_allSpelled hss h₂ hc')
        have hlen₁ : c₁.ahead.length ≤ room := by
          have := h₁.length_lt hs.ne_nil
          omega
        have hothers := ih.list hlen₁ h₂ hss hcanonical.2 hc'
        obtain ⟨hclose, hend, -⟩ := kind_ne_of_stmt hs h₁
        simp only [statementsWithin_succ hclose hend, bind_eq_ok, pure_eq_ok]
        exact ⟨s, c₁, hrun, ss, c', hothers, rfl, rfl⟩
    · intro c c' ts s hlen h hs hconditional hnext
      obtain ⟨hspelled, hcanonical⟩ := hs
      rw [conditionalWithin]
      cases hspelled with
      | conditional hcondition hthen helse hspan =>
        obtain ⟨he, hthenCanonical, helseCanonical⟩ := canonical_conditional.1 hcanonical
        rw [hspan]
        exact conditionalWith_complete ih hlen h hcondition he ⟨hthen, hthenCanonical⟩ helse
          helseCanonical hnext
      | _ => cases hconditional

/-! ## Blocks inside functions -/

lemma block_sound {b : Block} (h : Grammar.block .standard c = .ok b c') :
    ∃ ts, c.Passes ts c' ∧ BlockRead ts b :=
  blockWith_sound (soundWithin _) (Nat.le_succ _) h

lemma block_complete {b : Block} (h : c.Passes ts c') (hb : BlockRead ts b) :
    Grammar.block .standard c = .ok b c' :=
  blockWith_complete (completeWithin _) (Nat.le_succ _) h hb

end LangCheck.Grammar
