import LangCheck.Proofs.Analysis.Steps
import LangCheck.Proofs.Grammar.Programs
import LangCheck.Proofs.Token.Kinds

/-!
# The words of a program

The words of a program are its names and its numbers, in the order of the source.  Strings aside, they are
all that the tokens of a program tell by their texts: in a program that was read from tokens the words are
the texts of the tokens that are names or numbers, one for one (`Program.words_of_ofTokens`).
-/

namespace LangCheck

open Grammar

/-! ## Words of tokens and of trees -/

/-- The word that a token is, if it is a name or a number. -/
def Token.word? (t : Token) : Option String :=
  if t.kind = .name ∨ t.kind = .number then some t.text else none

/-- The words among some tokens, in order. -/
def wordsOf (ts : List Token) : List String := ts.filterMap Token.word?

/-- The word that a node of an expression is written with itself. -/
def Expr.word? : Expr → Option String
  | .literal (.number text) _ => some text
  | .symbol name _ => some name
  | .call callee _ _ => some callee
  | _ => none

/-- The name that stands in front of the expression of a step. -/
def Step.name? : Step → Option String
  | .declare d => some d.name
  | .assign a => some a.target
  | _ => none

/-- The words of a step, in order. -/
def Step.words (s : Step) : List String := s.name?.toList ++ (nodesOf s.value?).filterMap Expr.word?

/-- The word of a literal that initialises a global variable: a number, without its minus sign. -/
def Literal.word? (value : Literal) : Option String :=
  match value with
  | .number text => some (value.negated?.getD text)
  | _ => none

/-- The words of an item, in order. -/
def Item.words : Item → List String
  | .global d => d.name :: d.value.toList.filterMap Literal.word?
  | .function f => f.name :: (f.parameters.map (·.name) ++ f.steps.flatMap Step.words)

/-- The words of a program, in order. -/
def Program.words (p : Program) : List String := p.items.flatMap Item.words

section

variable {t : Token} {ts us : List Token}

@[simp] lemma wordsOf_nil : wordsOf [] = [] := rfl

@[simp] lemma wordsOf_append (ts us : List Token) : wordsOf (ts ++ us) = wordsOf ts ++ wordsOf us :=
  List.filterMap_append

lemma wordsOf_cons_word (h : t.kind = .name ∨ t.kind = .number) (ts : List Token) :
    wordsOf (t :: ts) = t.text :: wordsOf ts := by
  simp [wordsOf, Token.word?, h]

lemma wordsOf_cons_other (h : ¬ (t.kind = .name ∨ t.kind = .number)) (ts : List Token) :
    wordsOf (t :: ts) = wordsOf ts := by
  simp [wordsOf, Token.word?, h]

/-- Tokens of a kind with a spelling of its own are no words. -/
lemma wordsOf_cons_kind {k : Kind} (h : t.kind = k) (hk : k ≠ .name ∧ k ≠ .number) (ts : List Token) :
    wordsOf (t :: ts) = wordsOf ts :=
  wordsOf_cons_other (by rw [h]; tauto) ts

lemma wordsOf_append_kind {k : Kind} (h : t.kind = k) (hk : k ≠ .name ∧ k ≠ .number) (ts : List Token) :
    wordsOf (ts ++ [t]) = wordsOf ts := by
  rw [wordsOf_append, wordsOf_cons_kind h hk, wordsOf_nil, List.append_nil]

end

/-! ## Expressions -/

lemma BinaryOp.kind_noWord (op : BinaryOp) : op.kind ≠ .name ∧ op.kind ≠ .number := by
  cases op <;> decide

lemma UnaryOp.kind_noWord (op : UnaryOp) : op.kind ≠ .name ∧ op.kind ≠ .number := by
  cases op <;> decide

lemma AssignOp.kind_noWord (op : AssignOp) : op.kind ≠ .name ∧ op.kind ≠ .number := by
  cases op <;> decide

lemma Ty.kind_noWord {ty : Ty} {k : Kind} (h : ty.kind? = some k) : k ≠ .name ∧ k ≠ .number := by
  cases ty <;> cases h <;> decide

variable {P : Placement} {ts us : List Token}

lemma Literal.Spelled.words {t : Token} {value : Literal} {span : Span} (h : value.Spelled t) :
    [Expr.literal value span].filterMap Expr.word? = wordsOf [t] := by
  rcases value with text | text | _ | _
  · rw [wordsOf_cons_word (Or.inr h.1), h.2]
    rfl
  · exact (wordsOf_cons_kind h.1 (by decide) []).symm
  · exact (wordsOf_cons_kind h (by decide) []).symm
  · exact (wordsOf_cons_kind h (by decide) []).symm

mutual

/-- The words of an expression are those of the tokens that it is written with. -/
theorem Expr.Spelled.words : ∀ {ts : List Token} {e : Expr}, e.Spelled P ts →
    e.nodes.filterMap Expr.word? = wordsOf ts
  | _, _, .literal h _ => by
    rw [Expr.nodes]
    exact h.words
  | _, _, .symbol h _ => by
    rw [wordsOf_cons_word (Or.inl h), Expr.nodes]
    rfl
  | _, _, .call hname hopened hes hclosed _ => by
    rw [Expr.nodes, wordsOf_cons_word (Or.inl hname), wordsOf_cons_kind hopened (by decide),
      wordsOf_append_kind hclosed (by decide), ← hes.words]
    rfl
  | _, _, .group hopened he hclosed _ => by
    rw [Expr.nodes, wordsOf_cons_kind hopened (by decide), wordsOf_append_kind hclosed (by decide),
      ← he.words]
    rfl
  | _, _, @Expr.Spelled.sign _ op _ _ _ _ _ ht he _ => by
    rw [Expr.nodes, wordsOf_cons_kind ht op.kind_noWord, ← he.words]
    rfl
  | _, _, @Expr.Spelled.step _ op _ _ _ _ _ he ht _ => by
    rw [Expr.nodes, wordsOf_append_kind ht op.kind_noWord, ← he.words]
    rfl
  | _, _, @Expr.Spelled.binary _ op _ _ _ _ _ _ hl ht hr _ => by
    rw [Expr.nodes, wordsOf_append, wordsOf_cons_kind ht op.kind_noWord, ← hl.words, ← hr.words,
      ← List.filterMap_append]
    rfl

/-- The words of the arguments of a call are those of the tokens that they are written with. -/
theorem Expr.ArgumentsSpelled.words : ∀ {ts : List Token} {es : List Expr},
    Expr.ArgumentsSpelled P ts es → (Expr.allNodes es).filterMap Expr.word? = wordsOf ts
  | _, _, .none => by
    rw [Expr.allNodes]
    rfl
  | _, _, .last he => by
    rw [Expr.allNodes, Expr.allNodes, List.append_nil]
    exact he.words
  | _, _, .more he hcomma hes => by
    rw [Expr.allNodes, List.filterMap_append, he.words, hes.words, wordsOf_append,
      wordsOf_cons_kind hcomma (by decide)]

end

lemma Expr.SpelledIfAny.words {e : Option Expr} (h : Expr.SpelledIfAny P ts e) :
    (nodesOf e).filterMap Expr.word? = wordsOf ts := by
  cases e with
  | none =>
    cases h
    rfl
  | some e =>
    rw [nodesOf_some]
    exact Expr.Spelled.words h

/-! ## Steps -/

lemma ConstSpelled.words {isConst : Bool} (h : ConstSpelled ts isConst) : wordsOf ts = [] := by
  cases isConst with
  | false =>
    cases h
    rfl
  | true =>
    obtain ⟨t, rfl, ht⟩ := h
    exact wordsOf_cons_kind ht (by decide) []

lemma InitializerSpelled.words {value : Option Expr} (h : InitializerSpelled P ts value) :
    (nodesOf value).filterMap Expr.word? = wordsOf ts := by
  cases value with
  | none =>
    cases h
    rfl
  | some e =>
    obtain ⟨t, us, rfl, ht, he⟩ := h
    rw [nodesOf_some, wordsOf_cons_kind ht (by decide)]
    exact he.words

lemma VarDecl.Spelled.words {d : VarDecl} (h : d.Spelled P ts) :
    (Step.declare d).words = wordsOf ts := by
  obtain ⟨hconst, hty, hname, hvalue, -⟩ := h
  rw [wordsOf_append, hconst.words, List.nil_append, wordsOf_cons_kind rfl (Ty.kind_noWord hty),
    wordsOf_cons_word (Or.inl hname), ← hvalue.words]
  rfl

lemma Assignment.Spelled.words {a : Assignment} (h : a.Spelled P ts) :
    (Step.assign a).words = wordsOf ts := by
  cases h with
  | @value _ _ _ op _ _ hname ht _ he _ =>
    rw [wordsOf_cons_word (Or.inl hname), wordsOf_cons_kind ht op.kind_noWord, ← he.words]
    simp [Step.words, Step.name?, Step.value?]
  | @step _ _ op _ hname ht _ _ =>
    rw [wordsOf_cons_word (Or.inl hname), wordsOf_cons_kind ht op.kind_noWord]
    rfl

lemma words_evaluate? {e : Option Expr} (h : Expr.SpelledIfAny P ts e) :
    (e.toList.map Step.evaluate).flatMap Step.words = wordsOf ts := by
  rw [← h.words]
  cases e with
  | none => rfl
  | some e => exact List.append_nil _

lemma ConditionSpelled.words {word : Kind} {e : Expr} (h : ConditionSpelled P word ts e)
    (hword : word ≠ .name ∧ word ≠ .number) : (Step.evaluate e).words = wordsOf ts := by
  obtain ⟨hfirst, hopened, he, hclosed⟩ := h
  rw [wordsOf_cons_kind hfirst hword, wordsOf_cons_kind hopened (by decide),
    wordsOf_append_kind hclosed (by decide), ← he.words]
  simp [Step.words, Step.name?, Step.value?]

lemma InitSpelled.words {init : Option Stmt} (h : InitSpelled P ts init) :
    (Stmt.steps? init).flatMap Step.words = wordsOf ts := by
  cases h with
  | none => rfl
  | declaration hd => simpa [Stmt.steps?, Stmt.steps] using hd.words
  | assignment ha => simpa [Stmt.steps?, Stmt.steps] using ha.words

lemma UpdateSpelled.words {update : Option Stmt} (h : UpdateSpelled P ts update) :
    (Stmt.steps? update).flatMap Step.words = wordsOf ts := by
  cases h with
  | none => rfl
  | assignment ha => simpa [Stmt.steps?, Stmt.steps] using ha.words

lemma ForSpelled.words {init update : Option Stmt} {e : Option Expr}
    (h : ForSpelled P ts init e update) :
    (Stmt.steps? init ++ e.toList.map Step.evaluate ++ Stmt.steps? update).flatMap Step.words =
      wordsOf ts := by
  obtain ⟨hfirst, hopened, hinit, hsecond, he, hthird, hupdate, hclosed⟩ := h
  rw [List.flatMap_append, List.flatMap_append, hinit.words, words_evaluate? he, hupdate.words,
    wordsOf_cons_kind hfirst (by decide), wordsOf_cons_kind hopened (by decide), wordsOf_append,
    wordsOf_cons_kind hsecond (by decide), wordsOf_append, wordsOf_cons_kind hthird (by decide),
    wordsOf_append_kind hclosed (by decide), List.append_assoc]

/-- The beginning of a control structure has no words. -/
lemma words_control (word : String) (line : UInt32) : (Step.control word line).words = [] := rfl

mutual

/-- The words of a statement are those of the tokens that it is written with. -/
theorem Stmt.Spelled.words : ∀ {ts : List Token} {s : Stmt}, s.Spelled P ts →
    s.steps.flatMap Step.words = wordsOf ts
  | _, _, .declaration hd hsemicolon => by
    rw [Stmt.steps, wordsOf_append_kind hsemicolon (by decide), ← hd.words]
    exact List.append_nil _
  | _, _, .assignment ha hsemicolon => by
    rw [Stmt.steps, wordsOf_append_kind hsemicolon (by decide), ← ha.words]
    exact List.append_nil _
  | _, _, .call hcall hsemicolon => by
    rw [Stmt.steps, wordsOf_append_kind hsemicolon (by decide), ← hcall.words]
    simp [Step.words, Step.name?, Step.value?, Call.toExpr]
  | _, _, .returning hword he hsemicolon _ => by
    rw [Stmt.steps, wordsOf_cons_kind hword (by decide), wordsOf_append_kind hsemicolon (by decide),
      ← he.words]
    exact List.append_nil _
  | _, _, @Stmt.Spelled.conditional _ hs ts us e ⟨thenBody, _⟩ none span he hthen helse _ => by
    have hthen := hthen.words
    have helse := helse.words
    rw [Stmt.steps, List.flatMap_cons, words_control, List.nil_append, List.flatMap_cons,
      he.words (by decide), wordsOf_append, wordsOf_append, ← hthen, ← helse]
    simp
  | _, _, @Stmt.Spelled.conditional _ hs ts us e ⟨thenBody, _⟩ (some ⟨elseBody, _⟩) span he hthen
      helse _ => by
    have hthen := hthen.words
    have helse := helse.words
    rw [Stmt.steps, List.flatMap_cons, words_control, List.nil_append, List.flatMap_cons,
      he.words (by decide), List.flatMap_append, wordsOf_append, wordsOf_append, ← hthen, ← helse]
    simp
  | _, _, @Stmt.Spelled.whileLoop _ hs ts e ⟨body, _⟩ span he hbody _ => by
    rw [Stmt.steps, List.flatMap_cons, words_control, List.nil_append, List.flatMap_cons,
      he.words (by decide), wordsOf_append, ← hbody.words]
  | _, _, @Stmt.Spelled.forLoop _ hs ts init e update ⟨body, _⟩ span hhead hbody _ => by
    rw [Stmt.steps, List.flatMap_cons, words_control, List.nil_append, List.flatMap_append,
      hhead.words, wordsOf_append, ← hbody.words]

/-- The words of an else part are those of the tokens that it is written with. -/
theorem Stmt.ElseSpelled.words : ∀ {ts : List Token} {b : Option Block}, Stmt.ElseSpelled P ts b →
    (b.toList.flatMap fun b => Stmt.allSteps b.body).flatMap Step.words = wordsOf ts
  | _, _, .none => rfl
  | _, _, .block hword hb => by
    rw [wordsOf_cons_kind hword (by decide), ← hb.words]
    simp
  | _, _, .nested hword _ hs _ => by
    rw [wordsOf_cons_kind hword (by decide), ← hs.words]
    simp [Stmt.allSteps]

/-- The words of a block are those of the tokens that it is written with. -/
theorem BlockOf.Spelled.words : ∀ {ts : List Token} {b : Block}, b.Spelled P ts →
    (Stmt.allSteps b.body).flatMap Step.words = wordsOf ts
  | _, _, .intro hopened hss hclosed _ => by
    rw [wordsOf_cons_kind hopened (by decide), wordsOf_append_kind hclosed (by decide)]
    exact hss.words

/-- The words of statements are those of the tokens that they are written with. -/
theorem Stmt.AllSpelled.words : ∀ {ts : List Token} {ss : List Stmt}, Stmt.AllSpelled P ts ss →
    (Stmt.allSteps ss).flatMap Step.words = wordsOf ts
  | _, _, .nil => by
    rw [Stmt.allSteps]
    rfl
  | _, _, .cons hs hss => by
    rw [Stmt.allSteps, List.flatMap_append, hs.words, hss.words, wordsOf_append]

end

/-! ## Items -/

lemma Parameter.Spelled.words {q : Parameter} (h : q.Spelled P ts) : [q.name] = wordsOf ts := by
  obtain ⟨hty, hname, -⟩ := h
  rw [wordsOf_cons_kind rfl (Ty.kind_noWord hty), wordsOf_cons_word (Or.inl hname)]
  rfl

lemma ParametersSpelled.words {qs : List Parameter} (h : ParametersSpelled P ts qs) :
    qs.map (·.name) = wordsOf ts := by
  induction h with
  | none => rfl
  | last hq => exact hq.words
  | more hq hcomma _ ih =>
    rw [wordsOf_append, wordsOf_cons_kind hcomma (by decide), ← hq.words, ← ih]
    rfl

lemma Literal.GlobalSpelled.words {value : Literal} (h : value.GlobalSpelled ts) :
    [value].filterMap Literal.word? = wordsOf ts := by
  cases h with
  | @literal t _ hsign hvalue =>
    rw [← @Literal.Spelled.words t value default hvalue]
    rcases value with text | text | _ | _
    · simp [Literal.word?, Expr.word?, hsign]
    all_goals rfl
  | negated hsign hminus hnumber =>
    rw [wordsOf_cons_kind hminus (by decide), wordsOf_cons_word (Or.inr hnumber), wordsOf_nil]
    obtain rfl := Literal.negated?_eq_some_iff.1 hsign
    simp [Literal.word?, hsign]

lemma GlobalInitializerSpelled.words {value : Option Literal} (h : GlobalInitializerSpelled ts value) :
    value.toList.filterMap Literal.word? = wordsOf ts := by
  cases value with
  | none =>
    cases h
    rfl
  | some value =>
    obtain ⟨t, us, rfl, ht, hvalue⟩ := h
    rw [wordsOf_cons_kind ht (by decide)]
    exact hvalue.words

/-- The words of an item are those of the tokens that it is written with. -/
lemma Item.Spelled.words {item : Item} (h : item.Spelled P ts) : item.words = wordsOf ts := by
  cases h with
  | global hconst hty hname hvalue hsemicolon _ =>
    rw [wordsOf_append, hconst.words, List.nil_append, wordsOf_cons_kind rfl (Ty.kind_noWord hty),
      wordsOf_cons_word (Or.inl hname), wordsOf_append_kind hsemicolon (by decide), ← hvalue.words]
    rfl
  | function hty hname hopened hqs hclosed hbody _ =>
    rw [wordsOf_cons_kind rfl (Ty.kind_noWord hty), wordsOf_cons_word (Or.inl hname),
      wordsOf_cons_kind hopened (by decide), wordsOf_append, wordsOf_cons_kind hclosed (by decide),
      ← hqs.words, ← hbody.words]
    rfl

lemma Item.AllSpelled.words {items : List Item} (h : Item.AllSpelled P ts items) :
    items.flatMap Item.words = wordsOf ts := by
  induction h with
  | nil => rfl
  | cons hitem _ ih => rw [List.flatMap_cons, hitem.words, ih, wordsOf_append]

/-! ## Programs -/

/-- The numbers of a source have no minus sign of their own. -/
lemma unsigned_tokenize (source file : String) : Unsigned (tokenize source file) := by
  intro t ht hkind
  obtain ⟨c, cs, htext, hdigit⟩ := exists_digit_of_mem_tokenize ht hkind
  have hminus : c ≠ '-' := by
    rintro rfl
    cases hdigit
  simp [Literal.negated?, htext, hminus]

namespace Program

variable {p : Program} {source file : String}

/-- The words of a program that was read from tokens are the names and numbers among those in front of the
first end of input. -/
theorem words_of_ofTokens (hunsigned : Unsigned ts) (h : ofTokens ts file = .ok p) :
    p.words = wordsOf (beforeEnd ts) :=
  (sound_of_ofTokens hunsigned h).2.1.words

/-- All words of a program that was read from a source are words of the source. -/
lemma mem_wordsOf_tokenize (h : ofSource source file = .ok p) {word : String} (hword : word ∈ p.words) :
    word ∈ wordsOf (tokenize source file) := by
  rw [words_of_ofTokens (unsigned_tokenize source file) h] at hword
  exact ((List.takeWhile_sublist _).filterMap _).subset hword

end Program

end LangCheck
