import LangCheck.Analysis.Walk
import Mathlib.Tactic.Lemma

/-!
# The order of a walk

The walk through a body is a nested recursion over statements, blocks and the headers of loops.  Laid
out in the order in which it comes by them, the body is a plain list of steps (`Stmt.steps`), and the
walk takes them one after the other (`Walk.statements_eq`).  In the same way an expression is the
list of its nodes, each before its parts (`Expr.nodes`).  "At that point of the walk" then means:
after the steps that come before in the list.
-/

namespace LangCheck

/-! ## The nodes of an expression -/

namespace Expr

mutual

/-- An expression and all its parts, each before its own parts, from left to right. -/
def nodes : Expr → List Expr
  | .binary op left right span => .binary op left right span :: (left.nodes ++ right.nodes)
  | .unary op operand span => .unary op operand span :: operand.nodes
  | .literal value span => [.literal value span]
  | .symbol name span => [.symbol name span]
  | .call callee arguments span => .call callee arguments span :: allNodes arguments
  | .group inner span => .group inner span :: inner.nodes

/-- The nodes of several expressions, in order. -/
def allNodes : List Expr → List Expr
  | [] => []
  | e :: es => e.nodes ++ allNodes es

end

/-- An expression is a call of the given function. -/
def isCallOf (name : String) : Expr → Bool
  | .call callee _ _ => callee == name
  | _ => false

end Expr

/-- The nodes of an expression if there is one. -/
def nodesOf (e : Option Expr) : List Expr := e.toList.flatMap Expr.nodes

@[simp] lemma nodesOf_none : nodesOf none = [] := rfl

@[simp] lemma nodesOf_some (e : Expr) : nodesOf (some e) = e.nodes := by simp [nodesOf]

/-! ## The steps of a statement -/

/-- A step of the walk through a body. -/
inductive Step where
  /-- A variable is declared, and then its initialiser is looked at. -/
  | declare (d : VarDecl)
  /-- A variable is assigned to. -/
  | assign (a : Assignment)
  /-- An expression stands by itself: a condition or a call. -/
  | evaluate (e : Expr)
  /-- A control structure begins. -/
  | control (word : String) (line : UInt32)
  /-- The function returns. -/
  | returning (value : Option Expr) (line : UInt32)
deriving Repr, Inhabited

namespace Stmt

mutual

/-- The steps of the walk through a statement, in order. -/
def steps : Stmt → List Step
  | .declaration d => [.declare d]
  | .assignment a => [.assign a]
  | .call c => [.evaluate c.toExpr]
  | .conditional condition ⟨thenBody, _⟩ none span =>
    .control "if" span.line :: .evaluate condition :: allSteps thenBody
  | .conditional condition ⟨thenBody, _⟩ (some ⟨elseBody, _⟩) span =>
    .control "if" span.line :: .evaluate condition :: (allSteps thenBody ++ allSteps elseBody)
  | .whileLoop condition ⟨body, _⟩ span =>
    .control "while" span.line :: .evaluate condition :: allSteps body
  | .forLoop init condition update ⟨body, _⟩ span =>
    .control "for" span.line ::
      (steps? init ++ condition.toList.map .evaluate ++ steps? update ++ allSteps body)
  | .returning value span => [.returning value span.line]

/-- The steps of the walk through a statement if there is one. -/
def steps? : Option Stmt → List Step
  | none => []
  | some s => s.steps

/-- The steps of the walk through statements, in order. -/
def allSteps : List Stmt → List Step
  | [] => []
  | s :: ss => s.steps ++ allSteps ss

end

end Stmt

/-- The steps of the walk through the body of a function. -/
def FunctionDef.steps (f : FunctionDef) : List Step := Stmt.allSteps f.body.body

namespace Step

/-- The line on which a step itself is reported. -/
def line : Step → UInt32
  | declare d => d.span.line
  | assign a => a.span.line
  | evaluate e => e.span.line
  | control _ line | returning _ line => line

/-- The expression that is looked at in a step. -/
def value? : Step → Option Expr
  | declare d => d.value
  | assign a => a.value
  | evaluate e => some e
  | control _ _ => none
  | returning value _ => value

/-- The variable that a step declares. -/
def declared? : Step → Option Variable
  | declare d => some (Walk.declared d)
  | _ => none

/-- The declaration that a step is. -/
def declaration? : Step → Option VarDecl
  | declare d => some d
  | _ => none

end Step

/-- The declarations in the body of a function, at every depth, in the order of the walk. -/
def FunctionDef.declarations (f : FunctionDef) : List VarDecl := f.steps.filterMap Step.declaration?

namespace Walk

/-- Takes one step. -/
def step (w : Walk) : Step → Walk
  | .declare d => w.declaration d
  | .assign a => w.assignment a
  | .evaluate e => w.expression e
  | .control word line => w.control word line
  | .returning value line => w.returning value line

lemma expression?_eq_foldl (w : Walk) (e : Option Expr) :
    w.expression? e = (e.toList.map Step.evaluate).foldl step w := by
  cases e <;> rfl

mutual

/-- The walk through a statement takes its steps, in order. -/
theorem statement_eq (w : Walk) : ∀ s : Stmt, w.statement s = s.steps.foldl step w
  | .declaration _ | .assignment _ | .call _ | .returning _ _ => by
    simp [statement, Stmt.steps, step, call]
  | .conditional condition ⟨thenBody, _⟩ none span => by
    simp only [statement, Stmt.steps, List.foldl_cons, step]
    exact statements_eq _ thenBody
  | .conditional condition ⟨thenBody, _⟩ (some ⟨elseBody, _⟩) span => by
    simp only [statement, Stmt.steps, List.foldl_cons, List.foldl_append, step]
    rw [statements_eq _ thenBody, statements_eq _ elseBody]
  | .whileLoop condition ⟨body, _⟩ span => by
    simp only [statement, Stmt.steps, List.foldl_cons, step]
    exact statements_eq _ body
  | .forLoop init condition update ⟨body, _⟩ span => by
    simp only [statement, Stmt.steps, List.foldl_cons, List.foldl_append, step]
    rw [statement?_eq _ init, expression?_eq_foldl, statement?_eq _ update, statements_eq _ body]

/-- The walk through an optional statement takes its steps. -/
theorem statement?_eq (w : Walk) : ∀ s : Option Stmt, w.statement? s = (Stmt.steps? s).foldl step w
  | none => rfl
  | some s => by
    simp only [statement?, Stmt.steps?]
    exact statement_eq w s

/-- The walk through statements takes their steps, in order. -/
theorem statements_eq (w : Walk) :
    ∀ ss : List Stmt, w.statements ss = (Stmt.allSteps ss).foldl step w
  | [] => rfl
  | s :: ss => by
    simp only [statements, Stmt.allSteps, List.foldl_append]
    rw [statement_eq w s, statements_eq _ ss]

end

/-- The walk through the body of a function takes its steps, in order. -/
lemma block_eq (w : Walk) (f : FunctionDef) : w.block f.body = f.steps.foldl step w :=
  statements_eq w f.body.body

end Walk

end LangCheck
