import LangCheck.Proofs.Grammar.Spelling

/-!
# Canonical programs

Not every tree is read from tokens: the parts of an operation are grouped as the powers of the
operators tell, an operator that changes a variable has a value or not, the header of a `for` holds
certain statements only, and no type is unknown.  The trees that keep to this are canonical
(`Program.Canonical`).  Whether a tree is canonical does not depend on its spans, and `Program.bare`
leaves them out: trees with the same bare tree are the same up to spans.
-/

namespace LangCheck

open Grammar

/-- How tightly an operator of one operand binds it. -/
def UnaryOp.power (op : UnaryOp) : Power := if op.isPostfix then .suffix else .unary

namespace Expr

/-- How tightly the parts of an expression are bound. -/
def power : Expr → Power
  | binary op _ _ _ => Tables.powerOf op
  | unary op _ _ => op.power
  | literal _ _ | symbol _ _ | call _ _ _ | group _ _ => .primary

mutual

/-- The parts of an expression are grouped as the powers of the operators tell.  Operations of the same
power are grouped from the left. -/
def Canonical : Expr → Prop
  | .binary op left right _ =>
    left.Canonical ∧ right.Canonical ∧ Tables.powerOf op ≤ left.power ∧
      Tables.powerOf op < right.power
  | .unary op operand _ => operand.Canonical ∧ op.power ≤ operand.power
  | .literal _ _ | .symbol _ _ => True
  | .call _ arguments _ => AllCanonical arguments
  | .group inner _ => inner.Canonical

/-- Several expressions are canonical. -/
def AllCanonical : List Expr → Prop
  | [] => True
  | e :: es => e.Canonical ∧ AllCanonical es

end

mutual

/-- An expression without its spans. -/
def bare : Expr → Expr
  | .binary op left right _ => .binary op left.bare right.bare default
  | .unary op operand _ => .unary op operand.bare default
  | .literal value _ => .literal value default
  | .symbol name _ => .symbol name default
  | .call callee arguments _ => .call callee (allBare arguments) default
  | .group inner _ => .group inner.bare default

/-- Several expressions without their spans. -/
def allBare : List Expr → List Expr
  | [] => []
  | e :: es => e.bare :: allBare es

end

end Expr

/-! ## Statements -/

/-- A declaration names a type, and its initialiser is canonical. -/
def VarDecl.Canonical (d : VarDecl) : Prop := d.ty ≠ .unknown ∧ ∀ e, d.value = some e → e.Canonical

/-- An assignment has a value exactly if its operator takes one, and the value is canonical. -/
def Assignment.Canonical (a : Assignment) : Prop :=
  a.value.isSome = a.op.takesValue ∧ ∀ e, a.value = some e → e.Canonical

/-- A declaration without its spans. -/
def VarDecl.bare (d : VarDecl) : VarDecl := { d with value := d.value.map Expr.bare, span := default }

/-- An assignment without its spans. -/
def Assignment.bare (a : Assignment) : Assignment :=
  { a with value := a.value.map Expr.bare, span := default }

namespace Stmt

/-- A `for` begins with a declaration or an assignment, if with anything. -/
def InitCanonical : Option Stmt → Prop
  | none => True
  | some (declaration d) => d.Canonical
  | some (assignment a) => a.Canonical
  | some _ => False

/-- The header of a `for` ends with an assignment, if with anything. -/
def UpdateCanonical : Option Stmt → Prop
  | none => True
  | some (assignment a) => a.Canonical
  | some _ => False

mutual

/-- A statement can be read from tokens. -/
def Canonical : Stmt → Prop
  | .declaration d => d.Canonical
  | .assignment a => a.Canonical
  | .call c => c.toExpr.Canonical
  | .conditional condition ⟨thenBody, _⟩ none _ => condition.Canonical ∧ AllCanonical thenBody
  | .conditional condition ⟨thenBody, _⟩ (some ⟨elseBody, _⟩) _ =>
    condition.Canonical ∧ AllCanonical thenBody ∧ AllCanonical elseBody
  | .whileLoop condition ⟨body, _⟩ _ => condition.Canonical ∧ AllCanonical body
  | .forLoop init condition update ⟨body, _⟩ _ =>
    InitCanonical init ∧ (∀ e, condition = some e → e.Canonical) ∧ UpdateCanonical update ∧
      AllCanonical body
  | .returning value _ => ∀ e, value = some e → e.Canonical

/-- Statements can be read from tokens. -/
def AllCanonical : List Stmt → Prop
  | [] => True
  | s :: ss => s.Canonical ∧ AllCanonical ss

end

mutual

/-- A statement without its spans. -/
def bare : Stmt → Stmt
  | .declaration d => .declaration d.bare
  | .assignment a => .assignment a.bare
  | .call c => .call ⟨c.callee, Expr.allBare c.arguments, default⟩
  | .conditional condition ⟨thenBody, _⟩ none _ =>
    .conditional condition.bare ⟨allBare thenBody, default⟩ none default
  | .conditional condition ⟨thenBody, _⟩ (some ⟨elseBody, _⟩) _ =>
    .conditional condition.bare ⟨allBare thenBody, default⟩ (some ⟨allBare elseBody, default⟩) default
  | .whileLoop condition ⟨body, _⟩ _ => .whileLoop condition.bare ⟨allBare body, default⟩ default
  | .forLoop init condition update ⟨body, _⟩ _ =>
    .forLoop (bare? init) (condition.map Expr.bare) (bare? update) ⟨allBare body, default⟩ default
  | .returning value _ => .returning (value.map Expr.bare) default

/-- A statement without its spans, if there is one. -/
def bare? : Option Stmt → Option Stmt
  | none => none
  | some s => some s.bare

/-- Statements without their spans. -/
def allBare : List Stmt → List Stmt
  | [] => []
  | s :: ss => s.bare :: allBare ss

end

end Stmt

/-! ## Programs -/

/-- An item can be read from tokens. -/
def Item.Canonical : Item → Prop
  | global d => d.ty ≠ .unknown
  | function f =>
    f.returns ≠ .unknown ∧ (∀ q ∈ f.parameters, q.ty ≠ .unknown) ∧ Stmt.AllCanonical f.body.body

/-- A parameter without its span. -/
def Parameter.bare (q : Parameter) : Parameter := { q with span := default }

/-- An item without its spans. -/
def Item.bare : Item → Item
  | global d => .global { d with span := default }
  | function f =>
    .function ⟨f.name, f.returns, f.parameters.map Parameter.bare,
      ⟨Stmt.allBare f.body.body, default⟩, default⟩

/-- A program can be read from tokens: no type is unknown, the parts of its expressions are grouped as
the powers of the operators tell, assignments have a value exactly if their operator takes one, and
the headers of `for` hold a declaration or an assignment and an assignment. -/
def Program.Canonical (p : Program) : Prop := ∀ item ∈ p.items, item.Canonical

/-- A program without its spans. -/
def Program.bare (p : Program) : Program := ⟨p.items.map Item.bare, default⟩

/-! ## Spans do not matter -/

namespace Expr

@[simp] lemma power_bare (e : Expr) : e.bare.power = e.power := by
  cases e <;> simp [bare, power]

mutual

theorem canonical_bare : ∀ e : Expr, e.bare.Canonical ↔ e.Canonical
  | .binary op left right span => by
    simp [bare, Canonical, canonical_bare left, canonical_bare right]
  | .unary op operand span => by simp [bare, Canonical, canonical_bare operand]
  | .literal value span | .symbol name span => by simp [bare, Canonical]
  | .call callee arguments span => by simp [bare, Canonical, allCanonical_bare arguments]
  | .group inner span => by simp [bare, Canonical, canonical_bare inner]

theorem allCanonical_bare : ∀ es : List Expr, AllCanonical (allBare es) ↔ AllCanonical es
  | [] => by simp [allBare]
  | e :: es => by simp [allBare, AllCanonical, canonical_bare e, allCanonical_bare es]

end

lemma forall_canonical_bare (e : Option Expr) :
    (∀ f, e.map bare = some f → f.Canonical) ↔ ∀ f, e = some f → f.Canonical := by
  cases e <;> simp [canonical_bare]

end Expr

lemma VarDecl.canonical_bare (d : VarDecl) : d.bare.Canonical ↔ d.Canonical :=
  and_congr_right fun _ => Expr.forall_canonical_bare d.value

lemma Assignment.canonical_bare (a : Assignment) : a.bare.Canonical ↔ a.Canonical := by
  unfold Canonical
  rw [show a.bare.value = a.value.map Expr.bare from rfl, Expr.forall_canonical_bare,
    Option.isSome_map]
  rfl

namespace Stmt

lemma initCanonical_bare (s : Option Stmt) : InitCanonical (bare? s) ↔ InitCanonical s := by
  rcases s with _ | s
  · rw [bare?]
  · rw [bare?]
    cases s with
    | declaration d => simpa [bare, InitCanonical] using d.canonical_bare
    | assignment a => simpa [bare, InitCanonical] using a.canonical_bare
    | conditional condition thenBlock elseBlock span =>
      rcases elseBlock with _ | elseBlock <;> simp [bare, InitCanonical]
    | _ => simp [bare, InitCanonical]

lemma updateCanonical_bare (s : Option Stmt) : UpdateCanonical (bare? s) ↔ UpdateCanonical s := by
  rcases s with _ | s
  · rw [bare?]
  · rw [bare?]
    cases s with
    | assignment a => simpa [bare, UpdateCanonical] using a.canonical_bare
    | conditional condition thenBlock elseBlock span =>
      rcases elseBlock with _ | elseBlock <;> simp [bare, UpdateCanonical]
    | _ => simp [bare, UpdateCanonical]

mutual

theorem canonical_bare : ∀ s : Stmt, s.bare.Canonical ↔ s.Canonical
  | .declaration d => by simpa [bare, Canonical] using d.canonical_bare
  | .assignment a => by simpa [bare, Canonical] using a.canonical_bare
  | .call c => by simp [bare, Canonical, Call.toExpr, Expr.Canonical, Expr.allCanonical_bare]
  | .conditional condition ⟨thenBody, _⟩ none span => by
    simp [bare, Canonical, condition.canonical_bare, allCanonical_bare thenBody]
  | .conditional condition ⟨thenBody, _⟩ (some ⟨elseBody, _⟩) span => by
    simp [bare, Canonical, condition.canonical_bare, allCanonical_bare thenBody,
      allCanonical_bare elseBody]
  | .whileLoop condition ⟨body, _⟩ span => by
    simp [bare, Canonical, condition.canonical_bare, allCanonical_bare body]
  | .forLoop init condition update ⟨body, _⟩ span => by
    simp only [bare, Canonical, initCanonical_bare, updateCanonical_bare,
      Expr.forall_canonical_bare, allCanonical_bare body]
  | .returning value span => by simp only [bare, Canonical, Expr.forall_canonical_bare]

theorem allCanonical_bare : ∀ ss : List Stmt, AllCanonical (allBare ss) ↔ AllCanonical ss
  | [] => by simp [allBare]
  | s :: ss => by simp [allBare, AllCanonical, canonical_bare s, allCanonical_bare ss]

end

end Stmt

lemma Item.canonical_bare (item : Item) : item.bare.Canonical ↔ item.Canonical := by
  cases item with
  | global d => simp [bare, Canonical]
  | function f => simp [bare, Canonical, Stmt.allCanonical_bare, Parameter.bare]

lemma Program.canonical_bare (p : Program) : p.bare.Canonical ↔ p.Canonical := by
  simp [bare, Canonical, Item.canonical_bare]

end LangCheck
