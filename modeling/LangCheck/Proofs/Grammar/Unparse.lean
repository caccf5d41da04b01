import LangCheck.Proofs.Grammar.Canonical

/-!
# Writing programs

Each canonical program can be written: `Program.unparse` gives tokens that spell it
(`Program.unparse_spelled`).  An else block that is a single `if` can be written with or without
braces; a `Writing` tells which.
-/

namespace LangCheck

open Placement

/-- A token whose text does not count. -/
def Token.word (kind : Kind) : Token := ⟨kind, "", default⟩

/-- A name as a token. -/
def Token.named (name : String) : Token := ⟨.name, name, default⟩

/-- A literal as a token. -/
def Literal.token : Literal → Token
  | number text => ⟨.number, text, default⟩
  | string text => ⟨.text, text, default⟩
  | bool true => .word .trueWord
  | bool false => .word .falseWord

/-- A type as a token.  The unknown type has none, and a malformed token stands for it. -/
def Ty.token (ty : Ty) : Token := .word (ty.kind?.getD .malformed)

/-! ## Expressions -/

mutual

/-- The tokens of an expression. -/
def Expr.unparse : Expr → List Token
  | .binary op left right _ => left.unparse ++ .word op.kind :: right.unparse
  | .unary op operand _ =>
    if op.isPostfix then operand.unparse ++ [.word op.kind] else .word op.kind :: operand.unparse
  | .literal value _ => [value.token]
  | .symbol name _ => [.named name]
  | .call callee arguments _ =>
    .named callee :: .word .openParen :: (Expr.unparseArguments arguments ++ [.word .closeParen])
  | .group inner _ => .word .openParen :: (inner.unparse ++ [.word .closeParen])

/-- The tokens of the arguments of a call. -/
def Expr.unparseArguments : List Expr → List Token
  | [] => []
  | [e] => e.unparse
  | e :: f :: es => e.unparse ++ .word .comma :: Expr.unparseArguments (f :: es)

end

/-- The tokens of an expression, if there is one. -/
def Expr.unparseIfAny (e : Option Expr) : List Token := (e.map Expr.unparse).getD []

lemma Literal.spelled_token (value : Literal) : value.Spelled value.token := by
  rcases value with text | text | _ | _ <;> simp [Spelled, token, Token.word]

lemma Ty.kind?_eq_of_ne {ty : Ty} (h : ty ≠ .unknown) : ty.kind? = some ty.token.kind := by
  cases ty <;> first | rfl | exact absurd rfl h

mutual

theorem Expr.unparse_spelled : ∀ e : Expr, e.Spelled free e.unparse
  | .binary op left right span => by
    rw [Expr.unparse]
    exact .binary left.unparse_spelled rfl right.unparse_spelled trivial
  | .unary op operand span => by
    rw [Expr.unparse]
    split
    · next hop => exact .step hop operand.unparse_spelled rfl trivial
    · next hop => exact .sign (by simpa using hop) rfl operand.unparse_spelled trivial
  | .literal value span => by
    rw [Expr.unparse]
    exact .literal value.spelled_token trivial
  | .symbol name span => by
    rw [Expr.unparse]
    exact .symbol rfl trivial
  | .call callee arguments span => by
    rw [Expr.unparse]
    exact .call rfl rfl (Expr.unparseArguments_spelled arguments) rfl trivial
  | .group inner span => by
    rw [Expr.unparse]
    exact .group rfl inner.unparse_spelled rfl trivial

theorem Expr.unparseArguments_spelled :
    ∀ es : List Expr, Expr.ArgumentsSpelled free (Expr.unparseArguments es) es
  | [] => by
    rw [Expr.unparseArguments]
    exact .none
  | [e] => by
    rw [Expr.unparseArguments]
    exact .last e.unparse_spelled
  | e :: f :: es => by
    rw [Expr.unparseArguments]
    exact .more e.unparse_spelled rfl (Expr.unparseArguments_spelled (f :: es))

end

lemma Expr.unparseIfAny_spelled (e : Option Expr) :
    Expr.SpelledIfAny free (Expr.unparseIfAny e) e := by
  cases e with
  | none => rfl
  | some e => exact e.unparse_spelled

/-! ## Declarations and assignments -/

/-- The word `const`, if it is to be written. -/
def constTokens : Bool → List Token
  | true => [.word .constWord]
  | false => []

/-- The tokens of an initialiser, with the equals sign in front. -/
def initializerTokens : Option Expr → List Token
  | none => []
  | some e => .word .assign :: e.unparse

/-- The tokens of a declaration, the semicolon left out. -/
def VarDecl.unparse (d : VarDecl) : List Token :=
  constTokens d.isConst ++ d.ty.token :: .named d.name :: initializerTokens d.value

/-- The tokens of an assignment, the semicolon left out. -/
def Assignment.unparse (a : Assignment) : List Token :=
  .named a.target :: .word a.op.kind :: Expr.unparseIfAny a.value

lemma constTokens_spelled (isConst : Bool) : ConstSpelled (constTokens isConst) isConst := by
  cases isConst with
  | true => exact ⟨_, rfl, rfl⟩
  | false => rfl

lemma initializerTokens_spelled (e : Option Expr) :
    InitializerSpelled free (initializerTokens e) e := by
  cases e with
  | none => rfl
  | some e => exact ⟨_, _, rfl, rfl, e.unparse_spelled⟩

lemma VarDecl.unparse_spelled {d : VarDecl} (h : d.Canonical) : d.Spelled free d.unparse :=
  .intro (constTokens_spelled _) (Ty.kind?_eq_of_ne h.1) rfl
    (initializerTokens_spelled _) trivial

lemma Assignment.unparse_spelled {a : Assignment} (h : a.Canonical) : a.Spelled free a.unparse := by
  obtain ⟨target, op, value, span⟩ := a
  obtain ⟨hop, -⟩ := h
  cases value with
  | none => exact .step rfl rfl hop.symm trivial
  | some e => exact .value rfl rfl hop.symm e.unparse_spelled trivial

/-! ## Statements -/

/-- A way of writing tells for each place whether an else block there that is a single `if` is written
without braces.  A place in a tree is given by the turns that lead to it. -/
def Writing := List Bool → Bool

namespace Writing

/-- All else blocks are written with braces. -/
def braced : Writing := fun _ => false

/-- What is written in the left part of a tree. -/
def left (w : Writing) : Writing := fun place => w (false :: place)

/-- What is written in the right part of a tree. -/
def right (w : Writing) : Writing := fun place => w (true :: place)

/-- The way of writing a tree that is put together from those for its parts. -/
def node (here : Bool) (l r : Writing) : Writing
  | [] => here
  | false :: place => l place
  | true :: place => r place

@[simp] lemma left_node (here : Bool) (l r : Writing) : (node here l r).left = l := rfl

end Writing

/-- Tokens in parentheses behind a word. -/
def headerTokens (word : Kind) (ts : List Token) : List Token :=
  .word word :: .word .openParen :: (ts ++ [.word .closeParen])

/-- The header of a `for`, given the tokens of its three parts. -/
def forTokens (is ts us : List Token) : List Token :=
  .word .forWord :: .word .openParen :: (is ++ .word .semicolon ::
    (ts ++ .word .semicolon :: (us ++ [.word .closeParen])))

/-- Tokens in braces. -/
def bracedTokens (ts : List Token) : List Token := .word .openBrace :: (ts ++ [.word .closeBrace])

/-- Whether some statements are a single `if`. -/
def Stmt.areConditional : List Stmt → Bool
  | [s] => s.isConditional
  | _ => false

/-- The tokens of what the header of a `for` begins or ends with. -/
def Stmt.unparseHeader : Option Stmt → List Token
  | some (.declaration d) => d.unparse
  | some (.assignment a) => a.unparse
  | _ => []

mutual

/-- The tokens of a statement. -/
def Stmt.unparse (w : Writing) : Stmt → List Token
  | .declaration d => d.unparse ++ [.word .semicolon]
  | .assignment a => a.unparse ++ [.word .semicolon]
  | .call c => c.toExpr.unparse ++ [.word .semicolon]
  | .conditional condition ⟨thenBody, _⟩ none _ =>
    headerTokens .ifWord condition.unparse ++
      (bracedTokens (Stmt.unparseAll w thenBody) ++ [])
  | .conditional condition ⟨thenBody, _⟩ (some ⟨elseBody, _⟩) _ =>
    headerTokens .ifWord condition.unparse ++
      (bracedTokens (Stmt.unparseAll w.left thenBody) ++ .word .elseWord ::
        if w [] && Stmt.areConditional elseBody then Stmt.unparseAll w.right elseBody
        else bracedTokens (Stmt.unparseAll w.right elseBody))
  | .whileLoop condition ⟨body, _⟩ _ =>
    headerTokens .whileWord condition.unparse ++ bracedTokens (Stmt.unparseAll w body)
  | .forLoop init condition update ⟨body, _⟩ _ =>
    forTokens (Stmt.unparseHeader init) (Expr.unparseIfAny condition) (Stmt.unparseHeader update) ++
      bracedTokens (Stmt.unparseAll w body)
  | .returning value _ => .word .returnWord :: (Expr.unparseIfAny value ++ [.word .semicolon])

/-- The tokens of several statements. -/
def Stmt.unparseAll (w : Writing) : List Stmt → List Token
  | [] => []
  | s :: ss => s.unparse w.left ++ Stmt.unparseAll w.right ss

end

namespace Stmt

lemma initSpelled_unparseHeader {init : Option Stmt} (h : InitCanonical init) :
    InitSpelled free (unparseHeader init) init := by
  rcases init with _ | s
  · exact .none
  · cases s with
    | declaration d => exact .declaration (d.unparse_spelled h)
    | assignment a => exact .assignment (a.unparse_spelled h)
    | _ => exact h.elim

lemma updateSpelled_unparseHeader {update : Option Stmt} (h : UpdateCanonical update) :
    UpdateSpelled free (unparseHeader update) update := by
  rcases update with _ | s
  · exact .none
  · cases s with
    | assignment a => exact .assignment (a.unparse_spelled h)
    | _ => exact h.elim

lemma bracedTokens_spelled {ts : List Token} {body : List Stmt} {span : Span}
    (h : AllSpelled free ts body) : BlockOf.Spelled free (bracedTokens ts) ⟨body, span⟩ :=
  .intro rfl h rfl trivial

lemma elseSpelled_of_areConditional {ts : List Token} {body : List Stmt} {span : Span}
    (hbody : areConditional body = true) (h : AllSpelled free ts body) :
    ElseSpelled free (.word .elseWord :: ts) (some ⟨body, span⟩) := by
  rcases h with _ | ⟨hs, _ | _⟩
  · simp [areConditional] at hbody
  · rw [List.append_nil]
    exact .nested rfl hbody hs trivial
  · simp [areConditional] at hbody

mutual

theorem unparse_spelled : ∀ (w : Writing) (s : Stmt), s.Canonical → s.Spelled free (s.unparse w)
  | w, .declaration d, h => by
    rw [unparse]
    exact .declaration (d.unparse_spelled h) rfl
  | w, .assignment a, h => by
    rw [unparse]
    exact .assignment (a.unparse_spelled h) rfl
  | w, .call c, _ => by
    rw [unparse]
    exact .call c.toExpr.unparse_spelled rfl
  | w, .conditional condition ⟨thenBody, _⟩ none span, h => by
    rw [Canonical] at h
    rw [unparse]
    exact .conditional (.intro rfl rfl condition.unparse_spelled rfl)
      (bracedTokens_spelled (unparseAll_spelled w thenBody h.2)) .none trivial
  | w, .conditional condition ⟨thenBody, _⟩ (some ⟨elseBody, _⟩) span, h => by
    rw [Canonical] at h
    rw [unparse]
    refine .conditional (.intro rfl rfl condition.unparse_spelled rfl)
      (bracedTokens_spelled (unparseAll_spelled w.left thenBody h.2.1)) ?_ trivial
    have helse := unparseAll_spelled w.right elseBody h.2.2
    split
    · next hsingle =>
      exact elseSpelled_of_areConditional (by simpa using (Bool.and_eq_true_iff.1 hsingle).2) helse
    · exact .block rfl (bracedTokens_spelled helse)
  | w, .whileLoop condition ⟨body, _⟩ span, h => by
    rw [Canonical] at h
    rw [unparse]
    exact .whileLoop (.intro rfl rfl condition.unparse_spelled rfl)
      (bracedTokens_spelled (unparseAll_spelled w body h.2)) trivial
  | w, .forLoop init condition update ⟨body, _⟩ span, h => by
    rw [Canonical] at h
    obtain ⟨hinit, -, hupdate, hbody⟩ := h
    rw [unparse]
    exact .forLoop (.intro rfl rfl (initSpelled_unparseHeader hinit) rfl
      (Expr.unparseIfAny_spelled condition) rfl (updateSpelled_unparseHeader hupdate) rfl)
      (bracedTokens_spelled (unparseAll_spelled w body hbody)) trivial
  | w, .returning value span, _ => by
    rw [unparse]
    exact .returning rfl (Expr.unparseIfAny_spelled value) rfl trivial

theorem unparseAll_spelled :
    ∀ (w : Writing) (ss : List Stmt), AllCanonical ss → AllSpelled free (unparseAll w ss) ss
  | w, [], _ => by
    rw [unparseAll]
    exact .nil
  | w, s :: ss, h => by
    rw [AllCanonical] at h
    rw [unparseAll]
    exact .cons (unparse_spelled w.left s h.1) (unparseAll_spelled w.right ss h.2)

end

end Stmt

/-! ## Programs -/

/-- The tokens of a parameter. -/
def Parameter.unparse (q : Parameter) : List Token := [q.ty.token, .named q.name]

/-- The tokens of parameters. -/
def parameterTokens : List Parameter → List Token
  | [] => []
  | [q] => q.unparse
  | q :: r :: qs => q.unparse ++ .word .comma :: parameterTokens (r :: qs)

/-- The tokens of the literal of a global variable. -/
def Literal.globalTokens (value : Literal) : List Token :=
  match value.negated? with
  | some text => [.word .minus, ⟨.number, text, default⟩]
  | none => [value.token]

/-- The tokens of the initialiser of a global variable, with the equals sign in front. -/
def globalInitializerTokens : Option Literal → List Token
  | none => []
  | some value => .word .assign :: value.globalTokens

/-- The tokens of an item. -/
def Item.unparse (w : Writing) : Item → List Token
  | global d =>
    constTokens d.isConst ++ d.ty.token :: .named d.name ::
      (globalInitializerTokens d.value ++ [.word .semicolon])
  | function f =>
    f.returns.token :: .named f.name :: .word .openParen ::
      (parameterTokens f.parameters ++ .word .closeParen ::
        bracedTokens (Stmt.unparseAll w f.body.body))

/-- The tokens of several items. -/
def Item.unparseAll (w : Writing) : List Item → List Token
  | [] => []
  | item :: items => item.unparse w.left ++ Item.unparseAll w.right items

/-- The tokens of a program. -/
def Program.unparse (w : Writing) (p : Program) : List Token := Item.unparseAll w p.items

lemma parameterTokens_spelled : ∀ {qs : List Parameter}, (∀ q ∈ qs, q.ty ≠ .unknown) →
    ParametersSpelled free (parameterTokens qs) qs
  | [], _ => .none
  | [q], h => .last (.intro (Ty.kind?_eq_of_ne (h q (by simp))) rfl trivial)
  | q :: r :: qs, h => by
    refine .more ?_ rfl (parameterTokens_spelled fun s hs => h s (List.mem_cons_of_mem q hs))
    exact .intro (Ty.kind?_eq_of_ne (h q List.mem_cons_self)) rfl trivial

lemma Literal.globalTokens_spelled (value : Literal) : value.GlobalSpelled value.globalTokens := by
  unfold globalTokens
  split
  · next text htext => exact .negated htext rfl rfl
  · next hnone => exact .literal hnone value.spelled_token

lemma globalInitializerTokens_spelled (value : Option Literal) :
    GlobalInitializerSpelled (globalInitializerTokens value) value := by
  cases value with
  | none => rfl
  | some value => exact ⟨_, _, rfl, rfl, value.globalTokens_spelled⟩

lemma Item.unparse_spelled (w : Writing) {item : Item} (h : item.Canonical) :
    item.Spelled free (item.unparse w) := by
  cases item with
  | global d =>
    exact .global (constTokens_spelled _) (Ty.kind?_eq_of_ne h) rfl
      (globalInitializerTokens_spelled _) rfl trivial
  | function f =>
    obtain ⟨hreturns, hqs, hbody⟩ := h
    exact .function (Ty.kind?_eq_of_ne hreturns) rfl rfl
      (parameterTokens_spelled hqs) rfl
      (Stmt.bracedTokens_spelled (Stmt.unparseAll_spelled w _ hbody)) trivial

lemma Item.unparseAll_spelled : ∀ (w : Writing) {items : List Item},
    (∀ item ∈ items, item.Canonical) → Item.AllSpelled free (Item.unparseAll w items) items
  | _, [], _ => .nil
  | w, item :: items, h => by
    rw [List.forall_mem_cons] at h
    exact .cons (item.unparse_spelled w.left h.1) (Item.unparseAll_spelled w.right h.2)

/-- The tokens of a canonical program spell it. -/
theorem Program.unparse_spelled (w : Writing) {p : Program} (h : p.Canonical) :
    p.Spelled (p.unparse w) :=
  Item.unparseAll_spelled w h

end LangCheck
