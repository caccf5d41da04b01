import LangCheck.Grammar.Expression
import LangCheck.Syntax.Stmt

/-!
# Reading statements

A statement is told by its first token.  Statements contain blocks, and an `if` may contain another
one behind its `else`; both recursions are bounded by the number of tokens from the cursor on.
-/

namespace LangCheck.Grammar

/-! ## Declarations and assignments -/

/-- Reads an optional `const` and tells whether it was there. -/
def constMark : Parser Bool := do
  if (← currentKind) = .constWord then
    let _ ← advance
    return true
  else
    return false

/-- Reads a declaration, the semicolon left out. -/
def varDecl (t : Tables) : Parser VarDecl := do
  let start ← position
  let isConst ← constMark
  let ty ← type t
  let name ← expectHinted .name "expected identifier during variable declaration"
  let value ← if (← currentKind) = .assign then
      let _ ← advance
      some <$> expression t .default
    else
      pure none
  return ⟨name.text, ty, isConst, value, ⟨start, ← passed⟩⟩

/-- The operator that a token is behind the variable that it changes. -/
def assignOp? : Kind → Option AssignOp
  | .assign => some .assign
  | .plusAssign => some .add
  | .minusAssign => some .subtract
  | .starAssign => some .multiply
  | .slashAssign => some .divide
  | .percentAssign => some .modulo
  | .plusPlus => some .increment
  | .minusMinus => some .decrement
  | _ => none

/-- Reads an assignment, the semicolon left out. -/
def assignment (t : Tables) : Parser Assignment := do
  let target ← expect .name
  match assignOp? (← currentKind) with
  | some op =>
    let _ ← advance
    let value ← if op.takesValue then some <$> expression t .default else pure none
    return ⟨target.text, op, value, ⟨target.span.start, ← passed⟩⟩
  | none => misplaced "expected an assignment or a call"

/-! ## Statements without statements in them -/

/-- Reads a declaration and its semicolon. -/
def declarationStmt (t : Tables) : Parser Stmt := do
  let decl ← varDecl t
  let _ ← expect .semicolon
  return .declaration decl

/-- Reads a statement that begins with a name: a call, or else an assignment. -/
def namedStmt (t : Tables) : Parser Stmt := do
  let stmt ← if (← peekKind 1) = .openParen then
      .call <$> call t
    else
      .assignment <$> assignment t
  let _ ← expect .semicolon
  return stmt

/-- Reads a `return`. -/
def returning (t : Tables) : Parser Stmt := do
  let word ← advance
  let value ← if (← currentKind) = .semicolon then pure none else some <$> expression t .default
  let close ← expect .semicolon
  return .returning value ⟨word.span.start, close.span.stop⟩

/-- Reads a condition in parentheses. -/
def condition (t : Tables) : Parser Expr := do
  let _ ← expect .openParen
  let e ← expression t .default
  let _ ← expect .closeParen
  return e

/-- Reads what the header of a `for` begins with. -/
def forInit (t : Tables) : Parser (Option Stmt) := do
  let kind ← currentKind
  if kind = .semicolon then return none
  else if kind = .constWord ∨ kind.isTypeWord then return some (.declaration (← varDecl t))
  else return some (.assignment (← assignment t))

/-! ## The productions, given how their parts are read -/

/-- Reads a block. -/
def blockWith (statements : Parser (List Stmt)) : Parser Block := do
  let opened ← expect .openBrace
  let body ← statements
  let close ← expect .closeBrace
  return ⟨body, ⟨opened.span.start, close.span.stop⟩⟩

/-- Reads an `if`.  Another `if` directly behind its `else` becomes an else block of its own. -/
def conditionalWith (t : Tables) (block : Parser Block) (nested : Parser Stmt) : Parser Stmt := do
  let word ← advance
  let tested ← condition t
  let thenBlock ← block
  let elseBlock ← if (← currentKind) = .elseWord then
      let _ ← advance
      if (← currentKind) = .ifWord then
        let inner ← nested
        pure (some ⟨[inner], inner.span⟩)
      else
        some <$> block
    else
      pure none
  return .conditional tested thenBlock elseBlock ⟨word.span.start, ← passed⟩

/-- Reads a `while`. -/
def whileWith (t : Tables) (block : Parser Block) : Parser Stmt := do
  let word ← advance
  let tested ← condition t
  let body ← block
  return .whileLoop tested body ⟨word.span.start, body.span.stop⟩

/-- Reads a `for`. -/
def forWith (t : Tables) (block : Parser Block) : Parser Stmt := do
  let word ← advance
  let _ ← expect .openParen
  let init ← forInit t
  let _ ← expect .semicolon
  let tested ← if (← currentKind) = .semicolon then pure none else some <$> expression t .default
  let _ ← expect .semicolon
  let update ← if (← currentKind) = .closeParen then pure none
    else (some ∘ Stmt.assignment) <$> assignment t
  let _ ← expect .closeParen
  let body ← block
  return .forLoop init tested update body ⟨word.span.start, body.span.stop⟩

/-- Reads a statement. -/
def statementWith (t : Tables) (block : Parser Block) (nested : Parser Stmt) : Parser Stmt := do
  match t.statement (← currentKind) with
  | some .declaration => declarationStmt t
  | some .named => namedStmt t
  | some .conditional => conditionalWith t block nested
  | some .whileLoop => whileWith t block
  | some .forLoop => forWith t block
  | some .returning => returning t
  | none => unexpected

/-! ## The recursion -/

mutual

/-- Reads statements up to a closing brace, if no more than `room` tokens are left. -/
def statementsWithin (t : Tables) (room : Nat) : Parser (List Stmt) :=
  match room with
  | 0 => misplaced "expected `\x7d` to close the block"
  | room + 1 => do
    match ← currentKind with
    | .closeBrace => return []
    | .endOfInput => misplaced "expected `\x7d` to close the block"
    | _ =>
      let first ← statementWith t (blockWith (statementsWithin t room)) (conditionalWithin t room)
      return first :: (← statementsWithin t room)

/-- Reads an `if`, if no more than `room` tokens are left. -/
def conditionalWithin (t : Tables) (room : Nat) : Parser Stmt :=
  match room with
  | 0 => unexpected
  | room + 1 => conditionalWith t (blockWith (statementsWithin t room)) (conditionalWithin t room)

end

/-! ## Reading from the cursor on -/

/-- Reads a block. -/
def block (t : Tables) : Parser Block :=
  withRoom fun room => blockWith (statementsWithin t room)

/-- Reads a statement. -/
def statement (t : Tables) : Parser Stmt :=
  withRoom fun room =>
    statementWith t (blockWith (statementsWithin t room)) (conditionalWithin t room)

/-- Reads an `if`. -/
def conditional (t : Tables) : Parser Stmt :=
  withRoom fun room => conditionalWithin t (room + 1)

/-- Reads a `while`. -/
def whileLoop (t : Tables) : Parser Stmt := whileWith t (block t)

/-- Reads a `for`. -/
def forLoop (t : Tables) : Parser Stmt := forWith t (block t)

end LangCheck.Grammar
