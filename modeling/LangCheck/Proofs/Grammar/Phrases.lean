import LangCheck.Proofs.Grammar.Programs

/-!
# What the productions read

Which lists of tokens each production reads, and how they are put together from those that its parts
read.  They are given without the trees, whose spans and texts play no part when tokens are exchanged or
added.
-/

namespace LangCheck.Grammar

open Placement

variable {ts us : List Token} {t word name opened closed semicolon : Token} {low : Power}

/-- Tokens of a kind, or none. -/
def IfAny (L : List Token → Prop) (ts : List Token) : Prop := ts = [] ∨ L ts

/-! ## Expressions -/

/-- Tokens spell an expression whose operators bind more tightly than `low`. -/
def ExprTokens (low : Power) (ts : List Token) : Prop :=
  ∃ e : Expr, e.Spelled tight ts ∧ e.Canonical ∧ e.Fits low

/-- Tokens spell the arguments of a call, at least one. -/
def ArgumentTokens (ts : List Token) : Prop :=
  ∃ es, es ≠ [] ∧ Expr.ArgumentsSpelled tight ts es ∧ Expr.AllCanonical es

/-- Tokens spell a call. -/
def CallTokens (ts : List Token) : Prop :=
  ∃ call : Call, call.toExpr.Spelled tight ts ∧ call.toExpr.Canonical

/-- An expression without operators at its top, or with one in front, stands everywhere. -/
lemma ExprTokens.anywhere (h : ExprTokens .unary ts) : ExprTokens low ts := by
  obtain ⟨e, hspelled, hcanonical, hfits⟩ := h
  exact ⟨e, hspelled, hcanonical, Or.inr (hfits.elim Nat.le_of_lt id)⟩

lemma ExprTokens.ne_nil (h : ExprTokens low ts) : ts ≠ [] := by
  obtain ⟨e, hspelled, -⟩ := h
  exact hspelled.ne_nil

lemma exprTokens_of_primary {e : Expr} (hspelled : e.Spelled tight ts) (hcanonical : e.Canonical)
    (hpower : e.power = .primary) : ExprTokens low ts :=
  ⟨e, hspelled, hcanonical, Or.inr (by rw [hpower]; decide)⟩

lemma exprTokens_literal {value : Literal} (h : value.Spelled t) : ExprTokens low [t] :=
  exprTokens_of_primary (.literal h rfl) trivial rfl

/-- The shortest expression. -/
lemma exprTokens_true : ExprTokens low [.word .trueWord] := @exprTokens_literal _ low (.bool true) rfl

lemma exprTokens_symbol (h : t.kind = .name) : ExprTokens low [t] :=
  exprTokens_of_primary (.symbol h rfl) trivial rfl

lemma CallTokens.expr (h : CallTokens ts) : ExprTokens low ts := by
  obtain ⟨call, hspelled, hcanonical⟩ := h
  exact exprTokens_of_primary hspelled hcanonical rfl

lemma callTokens (hname : name.kind = .name) (hopened : opened.kind = .openParen)
    (h : IfAny ArgumentTokens ts) (hclosed : closed.kind = .closeParen) :
    CallTokens (name :: opened :: (ts ++ [closed])) := by
  obtain rfl | ⟨es, -, hspelled, hcanonical⟩ := h
  · exact ⟨⟨name.text, [], _⟩, .call hname hopened .none hclosed rfl, trivial⟩
  · exact ⟨⟨name.text, es, _⟩, .call hname hopened hspelled hclosed rfl, hcanonical⟩

lemma exprTokens_group (hopened : opened.kind = .openParen) (h : ExprTokens .default ts)
    (hclosed : closed.kind = .closeParen) : ExprTokens low (opened :: (ts ++ [closed])) := by
  obtain ⟨e, hspelled, hcanonical, -⟩ := h
  exact exprTokens_of_primary (.group hopened hspelled hclosed rfl) hcanonical rfl

lemma exprTokens_sign (ht : Tables.standard.opening t.kind = some .sign) (h : ExprTokens .unary ts) :
    ExprTokens low (t :: ts) := by
  obtain ⟨e, hspelled, hcanonical, hfits⟩ := h
  obtain ⟨hop, hkind⟩ := opening_sign_iff.1 ht
  have hpower : (signOf t.kind).power = .unary := by simp [UnaryOp.power, hop]
  refine ⟨_, .sign hop hkind hspelled rfl, ⟨hcanonical, ?_⟩, Or.inr ?_⟩
  · rw [hpower]
    exact hfits.elim Nat.le_of_lt id
  · rw [Expr.power, hpower]
    exact Nat.le_refl _

lemma exprTokens_binary {left : Expr} {op : BinaryOp} (hspelled : left.Spelled tight ts)
    (hcanonical : left.Canonical) (hleft : Tables.powerOf op ≤ left.power)
    (hlow : low < Tables.powerOf op) (ht : t.kind = op.kind)
    (h : ExprTokens (Tables.powerOf op) us) : ExprTokens low (ts ++ t :: us) := by
  obtain ⟨right, hright, hrightCanonical, hfits⟩ := h
  have hpower : Tables.powerOf op < right.power :=
    hfits.elim id fun hunary => Nat.lt_of_lt_of_le (Nat.lt_succ_of_le (Power.rank_powerOf_le op)) hunary
  exact ⟨_, .binary hspelled ht hright rfl, ⟨hcanonical, hrightCanonical, hleft, hpower⟩, Or.inl hlow⟩

lemma exprTokens_step {left : Expr} (hspelled : left.Spelled tight ts) (hcanonical : left.Canonical)
    (hleft : .suffix ≤ left.power) (hop : (stepOf t.kind).isPostfix = true)
    (ht : t.kind = (stepOf t.kind).kind) : ExprTokens low (ts ++ [t]) := by
  have hpower : (stepOf t.kind).power = .suffix := by simp [UnaryOp.power, hop]
  refine ⟨_, .step hop hspelled ht rfl, ⟨hcanonical, ?_⟩, Or.inr ?_⟩
  · rwa [hpower]
  · rw [Expr.power, hpower]
    decide

lemma ExprTokens.last (h : ExprTokens .default ts) : ArgumentTokens ts := by
  obtain ⟨e, hspelled, hcanonical, -⟩ := h
  exact ⟨[e], by simp, .last hspelled, hcanonical, trivial⟩

lemma ExprTokens.more (h : ExprTokens .default ts) (ht : t.kind = .comma) (h' : ArgumentTokens us) :
    ArgumentTokens (ts ++ t :: us) := by
  obtain ⟨e, hspelled, hcanonical, -⟩ := h
  obtain ⟨es, hne, hes, hesCanonical⟩ := h'
  obtain ⟨f, es, rfl⟩ := List.exists_cons_of_ne_nil hne
  exact ⟨e :: f :: es, by simp, .more hspelled ht hes, hcanonical, hesCanonical⟩

/-! ## Declarations and assignments -/

/-- Tokens spell a declaration. -/
def VarDeclTokens (ts : List Token) : Prop := ∃ d : VarDecl, d.Spelled tight ts ∧ d.Canonical

/-- Tokens spell an assignment. -/
def AssignmentTokens (ts : List Token) : Prop := ∃ a : Assignment, a.Spelled tight ts ∧ a.Canonical

/-- Tokens are an equals sign and an expression. -/
def InitializerTokens (ts : List Token) : Prop :=
  ∃ t us, ts = t :: us ∧ t.kind = .assign ∧ ExprTokens .default us

lemma varDeclTokens {cs vs : List Token} {isConst : Bool} {ty : Ty} (hconst : ConstSpelled cs isConst)
    (hty : ty.kind? = some word.kind) (hname : name.kind = .name) (h : IfAny InitializerTokens vs) :
    VarDeclTokens (cs ++ word :: name :: vs) := by
  have hne := ty_ne_of_kind? hty
  obtain rfl | ⟨t, us, rfl, ht, e, hspelled, hcanonical, -⟩ := h
  · exact ⟨⟨_, _, _, none, _⟩, .intro hconst hty hname rfl rfl, hne, by simp⟩
  · refine ⟨⟨_, _, _, some e, _⟩, .intro hconst hty hname ⟨t, us, rfl, ht, hspelled⟩ rfl, hne, ?_⟩
    rintro f ⟨⟩
    exact hcanonical

lemma assignmentTokens_value {op : AssignOp} (hname : name.kind = .name) (ht : t.kind = op.kind)
    (htakes : op.takesValue = true) (h : ExprTokens .default us) :
    AssignmentTokens (name :: t :: us) := by
  obtain ⟨e, hspelled, hcanonical, -⟩ := h
  refine ⟨_, .value hname ht htakes hspelled rfl, by simp [htakes], ?_⟩
  rintro f ⟨⟩
  exact hcanonical

lemma assignmentTokens_step {op : AssignOp} (hname : name.kind = .name) (ht : t.kind = op.kind)
    (htakes : op.takesValue = false) : AssignmentTokens [name, t] :=
  ⟨_, .step hname ht htakes rfl, by simp [htakes], by simp⟩

/-- The shortest assignment. -/
lemma assignmentTokens_increment (hname : name.kind = .name) :
    AssignmentTokens [name, .word .plusPlus] :=
  @assignmentTokens_step (.word .plusPlus) name .increment hname rfl rfl

/-! ## Statements -/

/-- Tokens spell a statement. -/
def StmtTokens (ts : List Token) : Prop := ∃ s, StmtRead ts s

/-- Tokens spell an `if`. -/
def ConditionalTokens (ts : List Token) : Prop := ∃ s, StmtRead ts s ∧ s.isConditional = true

/-- Tokens spell statements, one after the other. -/
def BodyTokens (ts : List Token) : Prop :=
  ∃ ss, Stmt.AllSpelled tight ts ss ∧ Stmt.AllCanonical ss

/-- Tokens spell a block. -/
def BlockTokens (ts : List Token) : Prop := ∃ b, BlockRead ts b

/-- Tokens spell an else part, or there are none. -/
def ElseTokens (ts : List Token) : Prop :=
  ∃ b, Stmt.ElseSpelled tight ts b ∧ ∀ d, b = some d → Stmt.AllCanonical d.body

/-- Tokens spell a condition in parentheses. -/
def ConditionTokens (ts : List Token) : Prop :=
  ∃ opened us closed, ts = opened :: (us ++ [closed]) ∧ opened.kind = .openParen ∧
    ExprTokens .default us ∧ closed.kind = .closeParen

/-- Tokens spell what the header of a `for` begins with. -/
def InitTokens (ts : List Token) : Prop := ∃ s, InitSpelled tight ts s ∧ Stmt.InitCanonical s

lemma StmtTokens.ne_nil (h : StmtTokens ts) : ts ≠ [] := by
  obtain ⟨s, hspelled, -⟩ := h
  exact hspelled.ne_nil

lemma VarDeclTokens.stmt (h : VarDeclTokens ts) (hs : semicolon.kind = .semicolon) :
    StmtTokens (ts ++ [semicolon]) := by
  obtain ⟨d, hspelled, hcanonical⟩ := h
  exact ⟨_, .declaration hspelled hs, hcanonical⟩

lemma AssignmentTokens.stmt (h : AssignmentTokens ts) (hs : semicolon.kind = .semicolon) :
    StmtTokens (ts ++ [semicolon]) := by
  obtain ⟨a, hspelled, hcanonical⟩ := h
  exact ⟨_, .assignment hspelled hs, hcanonical⟩

lemma CallTokens.stmt (h : CallTokens ts) (hs : semicolon.kind = .semicolon) :
    StmtTokens (ts ++ [semicolon]) := by
  obtain ⟨call, hspelled, hcanonical⟩ := h
  exact ⟨_, .call hspelled hs, hcanonical⟩

lemma stmtTokens_returning (hword : word.kind = .returnWord) (h : IfAny (ExprTokens .default) ts)
    (hs : semicolon.kind = .semicolon) : StmtTokens (word :: (ts ++ [semicolon])) := by
  obtain rfl | ⟨e, hspelled, hcanonical, -⟩ := h
  · exact ⟨.returning none _, .returning hword rfl hs rfl, by simp [Stmt.Canonical]⟩
  · refine ⟨.returning (some e) _, .returning hword hspelled hs rfl, ?_⟩
    rintro f ⟨⟩
    exact hcanonical

lemma blockTokens (hopened : opened.kind = .openBrace) (h : BodyTokens ts)
    (hclosed : closed.kind = .closeBrace) : BlockTokens (opened :: (ts ++ [closed])) := by
  obtain ⟨ss, hspelled, hcanonical⟩ := h
  exact ⟨⟨ss, _⟩, .intro hopened hspelled hclosed rfl, hcanonical⟩

lemma bodyTokens_nil : BodyTokens [] := ⟨[], .nil, trivial⟩

lemma StmtTokens.body (h : StmtTokens ts) (h' : BodyTokens us) : BodyTokens (ts ++ us) := by
  obtain ⟨s, hspelled, hcanonical⟩ := h
  obtain ⟨ss, hss, hssCanonical⟩ := h'
  exact ⟨s :: ss, .cons hspelled hss, hcanonical, hssCanonical⟩

/-- The tokens of a block without statements. -/
def emptyBlock : List Token := [.word .openBrace, .word .closeBrace]

/-- The shortest block. -/
lemma blockTokens_empty : BlockTokens emptyBlock :=
  @blockTokens [] (.word .openBrace) (.word .closeBrace) rfl bodyTokens_nil rfl

lemma elseTokens_nil : ElseTokens [] := ⟨none, .none, by simp⟩

lemma BlockTokens.elsePart (hword : word.kind = .elseWord) (h : BlockTokens ts) :
    ElseTokens (word :: ts) := by
  obtain ⟨b, hspelled, hcanonical⟩ := h
  refine ⟨some b, .block hword hspelled, ?_⟩
  rintro d ⟨⟩
  exact hcanonical

lemma ConditionalTokens.elsePart (hword : word.kind = .elseWord) (h : ConditionalTokens ts) :
    ElseTokens (word :: ts) := by
  obtain ⟨s, ⟨hspelled, hcanonical⟩, hs⟩ := h
  refine ⟨some ⟨[s], _⟩, .nested hword hs hspelled rfl, ?_⟩
  rintro d ⟨⟩
  exact ⟨hcanonical, trivial⟩

lemma ConditionTokens.spelled {k : Kind} (hword : word.kind = k) (h : ConditionTokens ts) :
    ∃ e : Expr, ConditionSpelled tight k (word :: ts) e ∧ e.Canonical := by
  obtain ⟨opened, us, closed, rfl, hopened, ⟨e, hspelled, hcanonical, -⟩, hclosed⟩ := h
  exact ⟨e, .intro hword hopened hspelled hclosed, hcanonical⟩

lemma conditionalTokens {hs : List Token} (hword : word.kind = .ifWord) (h : ConditionTokens hs)
    (hthen : BlockTokens ts) (helse : ElseTokens us) :
    ConditionalTokens (word :: (hs ++ (ts ++ us))) := by
  obtain ⟨e, hcondition, hcanonical⟩ := h.spelled hword
  obtain ⟨b, hb, hbCanonical⟩ := hthen
  obtain ⟨d, hd, hdCanonical⟩ := helse
  exact ⟨.conditional e b d _, ⟨.conditional hcondition hb hd rfl,
    canonical_conditional.2 ⟨hcanonical, hbCanonical, hdCanonical⟩⟩, rfl⟩

lemma ConditionalTokens.stmt (h : ConditionalTokens ts) : StmtTokens ts :=
  h.imp fun _ hs => hs.1

lemma stmtTokens_while {hs : List Token} (hword : word.kind = .whileWord) (h : ConditionTokens hs)
    (hbody : BlockTokens ts) : StmtTokens (word :: (hs ++ ts)) := by
  obtain ⟨e, hcondition, hcanonical⟩ := h.spelled hword
  obtain ⟨b, hb, hbCanonical⟩ := hbody
  exact ⟨.whileLoop e b _, .whileLoop hcondition hb rfl, hcanonical, hbCanonical⟩

lemma initTokens_nil : InitTokens [] := ⟨none, .none, trivial⟩

lemma VarDeclTokens.init (h : VarDeclTokens ts) : InitTokens ts := by
  obtain ⟨d, hspelled, hcanonical⟩ := h
  exact ⟨_, .declaration hspelled, hcanonical⟩

lemma AssignmentTokens.init (h : AssignmentTokens ts) : InitTokens ts := by
  obtain ⟨a, hspelled, hcanonical⟩ := h
  exact ⟨_, .assignment hspelled, hcanonical⟩

lemma stmtTokens_for {first second third : Token} {is vs : List Token} (hfirst : first.kind = .forWord)
    (hopened : opened.kind = .openParen) (hinit : InitTokens is) (hsecond : second.kind = .semicolon)
    (hcondition : IfAny (ExprTokens .default) ts) (hthird : third.kind = .semicolon)
    (hupdate : IfAny AssignmentTokens us) (hclosed : closed.kind = .closeParen)
    (hbody : BlockTokens vs) :
    StmtTokens (first :: opened :: (is ++ second :: (ts ++ third :: (us ++ closed :: vs)))) := by
  obtain ⟨init, hinit, hinitCanonical⟩ := hinit
  obtain ⟨b, hb, hbCanonical⟩ := hbody
  obtain ⟨e, he, hcanonical⟩ : ∃ e, Expr.SpelledIfAny tight ts e ∧ ∀ f, e = some f → f.Canonical := by
    obtain rfl | ⟨e, hspelled, hcanonical, -⟩ := hcondition
    · exact ⟨none, rfl, by simp⟩
    · refine ⟨some e, hspelled, ?_⟩
      rintro f ⟨⟩
      exact hcanonical
  obtain ⟨update, hupdate, hupdateCanonical⟩ :
      ∃ s, UpdateSpelled tight us s ∧ Stmt.UpdateCanonical s := by
    obtain rfl | ⟨a, hspelled, hcanonical⟩ := hupdate
    · exact ⟨none, .none, trivial⟩
    · exact ⟨_, .assignment hspelled, hcanonical⟩
  have hhead := ForSpelled.intro hfirst hopened hinit hsecond he hthird hupdate hclosed
  have hstmt : StmtTokens _ :=
    ⟨_, .forLoop hhead hb rfl, hinitCanonical, hcanonical, hupdateCanonical, hbCanonical⟩
  simpa using hstmt

/-! ## Programs -/

/-- Tokens spell a parameter. -/
def ParameterTokens (ts : List Token) : Prop := ∃ q, ParameterRead ts q

/-- Tokens spell parameters, at least one, with commas between them. -/
def ParametersTokens (ts : List Token) : Prop :=
  ∃ qs, qs ≠ [] ∧ ParametersSpelled tight ts qs ∧ ∀ q ∈ qs, q.ty ≠ .unknown

/-- Tokens spell a list of parameters in parentheses. -/
def ParameterListTokens (ts : List Token) : Prop :=
  ∃ opened us closed, ts = opened :: (us ++ [closed]) ∧ opened.kind = .openParen ∧
    IfAny ParametersTokens us ∧ closed.kind = .closeParen

/-- Tokens are the literal that initialises a global variable. -/
def LiteralTokens (ts : List Token) : Prop := ∃ value, LiteralTaken ts value

/-- Tokens are an equals sign and the literal of a global variable. -/
def GlobalInitializerTokens (ts : List Token) : Prop :=
  ∃ t us, ts = t :: us ∧ t.kind = .assign ∧ LiteralTokens us

/-- Tokens are what an item is read from. -/
def ItemTokens (ts : List Token) : Prop := ∃ result, ItemTaken ts result

/-- Tokens are what items are read from, one after the other. -/
def ItemsTokens (ts : List Token) : Prop := ∃ items, ItemsTaken ts items

lemma parameterTokens_intro {ty : Ty} (hty : ty.kind? = some word.kind) (hname : name.kind = .name) :
    ParameterTokens [word, name] :=
  ⟨_, .intro hty hname rfl, ty_ne_of_kind? hty⟩

lemma ParameterTokens.last (h : ParameterTokens ts) : ParametersTokens ts := by
  obtain ⟨q, hspelled, hty⟩ := h
  exact ⟨[q], by simp, .last hspelled, by simpa using hty⟩

lemma ParameterTokens.more (h : ParameterTokens ts) (ht : t.kind = .comma) (h' : ParametersTokens us) :
    ParametersTokens (ts ++ t :: us) := by
  obtain ⟨q, hspelled, hty⟩ := h
  obtain ⟨qs, hne, hqs, htys⟩ := h'
  obtain ⟨r, qs, rfl⟩ := List.exists_cons_of_ne_nil hne
  exact ⟨q :: r :: qs, by simp, .more hspelled ht hqs, List.forall_mem_cons.2 ⟨hty, htys⟩⟩

lemma literalTokens_true : LiteralTokens [.word .trueWord] :=
  ⟨.bool true, .literal rfl⟩

lemma itemTokens_global {cs vs : List Token} {isConst : Bool} {ty : Ty} (hconst : ConstSpelled cs isConst)
    (hty : ty.kind? = some word.kind) (hname : name.kind = .name)
    (h : IfAny GlobalInitializerTokens vs) (hs : semicolon.kind = .semicolon) :
    ItemTokens (cs ++ word :: name :: (vs ++ [semicolon])) := by
  obtain rfl | ⟨t, us, rfl, ht, value, hvalue⟩ := h
  · exact ⟨_, @ItemTaken.global _ _ _ _ _ _ _ none hconst hty hname rfl hs⟩
  · exact ⟨_, @ItemTaken.global _ _ _ _ _ _ _ (some value) hconst hty hname ⟨t, us, rfl, ht, hvalue⟩ hs⟩

lemma itemTokens_function {ty : Ty} (hty : ty.kind? = some word.kind) (hname : name.kind = .name)
    (h : ParameterListTokens ts) (hbody : BlockTokens us) :
    ItemTokens (word :: name :: (ts ++ us)) := by
  obtain ⟨opened, vs, closed, rfl, hopened, hqs, hclosed⟩ := h
  obtain ⟨b, hb⟩ := hbody
  obtain ⟨qs, hqs, htys⟩ : ∃ qs, ParametersSpelled tight vs qs ∧ ∀ q ∈ qs, q.ty ≠ .unknown := by
    obtain rfl | ⟨qs, -, hqs, htys⟩ := hqs
    · exact ⟨[], .none, by simp⟩
    · exact ⟨qs, hqs, htys⟩
  have hitem := ItemTaken.function hty hname hopened hqs htys hclosed hb
  exact ⟨_, by simpa using hitem⟩

lemma ItemTokens.ne_nil (h : ItemTokens ts) : ts ≠ [] := by
  obtain ⟨result, hresult⟩ := h
  exact hresult.ne_nil

lemma itemsTokens_nil : ItemsTokens [] := ⟨[], .nil⟩

/-- None of the tokens of items is an end of input. -/
lemma ItemsTokens.endless (h : ItemsTokens ts) : Endless ts := by
  have hitem : ∀ {us result}, ItemTaken us result → Endless us := by
    rintro us result (@⟨cs, vs, word, name, semicolon, isConst, ty, value, hconst, hty, hname, hvalue,
      hs⟩ | ⟨hty, hname, hopened, hqs, -, hclosed, hbody⟩)
    · have hvs : Endless vs := by
        cases value with
        | none =>
          obtain rfl : vs = [] := hvalue
          exact endless_nil
        | some value =>
          obtain ⟨t, us, rfl, ht, hspelled | ⟨hminus, hnumber⟩⟩ := hvalue
          · simp [ht, hspelled.kind_ne]
          · simp [ht, hminus, hnumber]
      simp [hconst.endless, Ty.kind_ne_of_kind? hty, hname, hvs, hs]
    · simp [Ty.kind_ne_of_kind? hty, hname, hopened, hqs.endless, hclosed, hbody.1.endless]
  obtain ⟨items, htaken⟩ := h
  induction htaken with
  | nil => exact endless_nil
  | cons hfirst _ ih => exact endless_append.2 ⟨hitem hfirst, ih⟩

lemma ItemTokens.items (h : ItemTokens ts) (h' : ItemsTokens us) : ItemsTokens (ts ++ us) := by
  obtain ⟨first, hfirst⟩ := h
  obtain ⟨others, hothers⟩ := h'
  exact ⟨first :: others, .cons hfirst hothers⟩

lemma ItemsTokens.append (h : ItemsTokens ts) (h' : ItemsTokens us) : ItemsTokens (ts ++ us) := by
  obtain ⟨items, htaken⟩ := h
  induction htaken with
  | nil => exact h'
  | cons hfirst _ ih =>
    rw [List.append_assoc]
    exact ItemTokens.items ⟨_, hfirst⟩ ih

end LangCheck.Grammar
