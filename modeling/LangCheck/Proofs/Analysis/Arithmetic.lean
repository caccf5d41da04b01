import LangCheck.Analysis.Resolve
import Mathlib.Tactic.Lemma

/-!
# The type of arithmetic

Arithmetic takes its operands two by two, and each operation has a type of its own.  All the same the type
of a whole arithmetic expression is told by its leaves, whatever the operations between them: it is the
widest of their types (`Ty.widest`).  What makes this so is that `Ty.widest` turns lists one behind the
other into an operation (`Ty.widest_append`).  The main result (`Scope.typeOf_arithmetic`) adds what
follows: to write an expression in another shape (`Expr.Reshaped`) does not change its type.
-/

namespace LangCheck

/-! ## The widest of some types -/

namespace Ty

/-- The type of arithmetic on operands of some types: the widest of them, and `float` where this makes no
sense. -/
def widest (types : List Ty) : Ty :=
  if .string ∈ types then .string
  else if .double ∈ types then .double
  else if ∀ τ ∈ types, τ = .int then .int
  else .float

variable {σs τs : List Ty}

/-- It only matters which types there are, and neither their order nor how often they occur. -/
lemma widest_congr (h : ∀ τ, τ ∈ σs ↔ τ ∈ τs) : widest σs = widest τs := by
  simp only [widest, h]

lemma arithmetic_assoc (ρ σ τ : Ty) :
    (ρ.arithmetic σ).arithmetic τ = ρ.arithmetic (σ.arithmetic τ) := by
  cases ρ <;> cases σ <;> cases τ <;> rfl

/-- What an operation yields is not changed by another operand of type `int`. -/
lemma int_arithmetic (σ τ : Ty) : int.arithmetic (σ.arithmetic τ) = σ.arithmetic τ := by
  cases σ <;> cases τ <;> rfl

lemma widest_cons (σ : Ty) (τs : List Ty) : widest (σ :: τs) = σ.arithmetic (widest τs) := by
  by_cases hstring : string ∈ τs
  · simp [widest, arithmetic, hstring]
  by_cases hdouble : double ∈ τs
  · cases σ <;> simp [widest, arithmetic, hstring, hdouble]
  by_cases hint : ∀ τ ∈ τs, τ = int
  · have hrest : widest τs = int := by rw [widest, if_neg hstring, if_neg hdouble, if_pos hint]
    rw [hrest]
    cases σ with
    | int => simpa [widest, arithmetic, hstring, hdouble] using hint
    | _ => simp [widest, arithmetic, hstring, hdouble]
  · cases σ <;> simp [widest, arithmetic, hstring, hdouble, hint]

/-- An operation yields the widest type of its operands. -/
lemma arithmetic_eq_widest (σ τ : Ty) : σ.arithmetic τ = widest [σ, τ] := by
  cases σ <;> cases τ <;> rfl

/-- What an operation yields counts, as an operand, as it is. -/
lemma widest_arithmetic (σ τ : Ty) : widest [σ.arithmetic τ] = σ.arithmetic τ := by
  cases σ <;> cases τ <;> rfl

/-- The widest of the types in two lists is that of an operation on the widest ones of each. -/
theorem widest_append (σs τs : List Ty) : widest (σs ++ τs) = (widest σs).arithmetic (widest τs) := by
  induction σs with
  | nil =>
    rcases τs with _ | ⟨τ, τs⟩
    · rfl
    · rw [List.nil_append, widest_cons]
      exact (int_arithmetic _ _).symm
  | cons σ σs ih => rw [List.cons_append, widest_cons, ih, widest_cons, arithmetic_assoc]

end Ty

/-! ## Arithmetic expressions and their leaves -/

namespace Expr

/-- Whether an expression is an arithmetic operation, perhaps in parentheses and behind or in front of
operators of one operand other than `!`. -/
def isArithmetic : Expr → Bool
  | .binary op _ _ _ => !op.isBoolean
  | .unary op operand _ => if op = .not then false else operand.isArithmetic
  | .group inner _ => inner.isArithmetic
  | .literal _ _ | .symbol _ _ | .call _ _ _ => false

/-- The leaves of an expression: what is reached through arithmetic operations, parentheses and operators of
one operand other than `!`, and is none of these. -/
def arithmeticLeaves : Expr → List Expr
  | .binary op left right span =>
    if op.isBoolean then [.binary op left right span]
    else left.arithmeticLeaves ++ right.arithmeticLeaves
  | .unary op operand span =>
    if op = .not then [.unary op operand span] else operand.arithmeticLeaves
  | .group inner _ => inner.arithmeticLeaves
  | .literal value span => [.literal value span]
  | .symbol name span => [.symbol name span]
  | .call callee arguments span => [.call callee arguments span]

/-- The second expression is the first one in another shape: anywhere in it arithmetic operations are
associated in another way, their operands change places, their operators are replaced by other arithmetic
ones, and parentheses are added, and the other way round. -/
inductive Reshaped : Expr → Expr → Prop
  | refl (e : Expr) : Reshaped e e
  | symm {e f : Expr} (h : Reshaped e f) : Reshaped f e
  | trans {e f g : Expr} (h : Reshaped e f) (h' : Reshaped f g) : Reshaped e g
  | associate {op op' : BinaryOp} (hop : op.isBoolean = false) (hop' : op'.isBoolean = false)
      (e f g : Expr) (span span' inner inner' : Span) :
      Reshaped (.binary op' (.binary op e f inner) g span) (.binary op e (.binary op' f g inner') span')
  | commute {op : BinaryOp} (hop : op.isBoolean = false) (e f : Expr) (span span' : Span) :
      Reshaped (.binary op e f span) (.binary op f e span')
  | exchange {op op' : BinaryOp} (hop : op.isBoolean = false) (hop' : op'.isBoolean = false)
      (e f : Expr) (span span' : Span) : Reshaped (.binary op e f span) (.binary op' e f span')
  | parenthesise (e : Expr) (span : Span) : Reshaped e (.group e span)
  | left {e f : Expr} (h : Reshaped e f) (op : BinaryOp) (right : Expr) (span : Span) :
      Reshaped (.binary op e right span) (.binary op f right span)
  | right {e f : Expr} (h : Reshaped e f) (op : BinaryOp) (left : Expr) (span : Span) :
      Reshaped (.binary op left e span) (.binary op left f span)
  | operand {e f : Expr} (h : Reshaped e f) (op : UnaryOp) (span : Span) :
      Reshaped (.unary op e span) (.unary op f span)
  | inner {e f : Expr} (h : Reshaped e f) (span : Span) : Reshaped (.group e span) (.group f span)
  | argument {e f : Expr} (h : Reshaped e f) (callee : String) (before after : List Expr) (span : Span) :
      Reshaped (.call callee (before ++ e :: after) span) (.call callee (before ++ f :: after) span)

end Expr

/-! ## Types of arithmetic expressions -/

namespace Scope

variable {s t : Scope} {e f : Expr}

/-- The types of the leaves of an expression. -/
def leafTypes (s : Scope) (e : Expr) : List Ty := e.arithmeticLeaves.map s.typeOf

lemma leafTypes_binary {op : BinaryOp} (hop : op.isBoolean = false) (e f : Expr) (span : Span) :
    s.leafTypes (.binary op e f span) = s.leafTypes e ++ s.leafTypes f := by
  simp [leafTypes, Expr.arithmeticLeaves, hop]

/-- As an operand, an expression counts like its leaves. -/
lemma widest_typeOf (s : Scope) (e : Expr) : Ty.widest [s.typeOf e] = Ty.widest (s.leafTypes e) := by
  unfold leafTypes
  fun_induction Expr.arithmeticLeaves e with
  | case2 op left right span hop ihl ihr =>
    rw [typeOf, if_neg hop, List.map_append, Ty.widest_append, ← ihl, ← ihr, ← Ty.widest_append,
      List.singleton_append, ← Ty.arithmetic_eq_widest, Ty.widest_arithmetic]
  | case4 op operand span hop ih => rw [typeOf, if_neg hop, ih]
  | case5 inner span ih => rw [typeOf, ih]
  | _ => rfl

/-- The type of an arithmetic expression is the widest type of its leaves. -/
theorem typeOf_eq_widest (h : e.isArithmetic = true) : s.typeOf e = Ty.widest (s.leafTypes e) := by
  rw [← widest_typeOf]
  -- the operation inside is what has the type, and it counts as it is
  fun_induction Expr.isArithmetic e with
  | case1 op left right span =>
    rw [typeOf, if_neg (by simpa using h), Ty.widest_arithmetic]
  | case2 => cases h
  | case3 op operand span hop ih => rw [typeOf, if_neg hop, ← ih h]
  | case4 inner span ih => rw [typeOf, ← ih h]
  | _ => cases h

/-- Leaves of the same types make arithmetic expressions of the same type. -/
theorem typeOf_congr_leafTypes (he : e.isArithmetic = true) (hf : f.isArithmetic = true)
    (h : ∀ τ, τ ∈ s.leafTypes e ↔ τ ∈ t.leafTypes f) : s.typeOf e = t.typeOf f := by
  rw [typeOf_eq_widest he, typeOf_eq_widest hf, Ty.widest_congr h]

end Scope

variable {e f : Expr}

/-- Writing an expression in another shape does not change its type. -/
theorem Expr.Reshaped.typeOf_eq (h : e.Reshaped f) (s : Scope) : s.typeOf e = s.typeOf f := by
  induction h with
  | refl e => rfl
  | symm _ ih => exact ih.symm
  | trans _ _ ih ih' => exact ih.trans ih'
  | associate hop hop' e f g =>
    refine Scope.typeOf_congr_leafTypes (by simp [isArithmetic, hop']) (by simp [isArithmetic, hop])
      fun τ => ?_
    rw [Scope.leafTypes_binary hop', Scope.leafTypes_binary hop, Scope.leafTypes_binary hop,
      Scope.leafTypes_binary hop', List.append_assoc]
  | commute hop e f =>
    refine Scope.typeOf_congr_leafTypes (by simp [isArithmetic, hop]) (by simp [isArithmetic, hop])
      fun τ => ?_
    rw [Scope.leafTypes_binary hop, Scope.leafTypes_binary hop, List.mem_append, List.mem_append, or_comm]
  | exchange hop hop' e f =>
    refine Scope.typeOf_congr_leafTypes (by simp [isArithmetic, hop]) (by simp [isArithmetic, hop'])
      fun τ => ?_
    rw [Scope.leafTypes_binary hop, Scope.leafTypes_binary hop']
  | parenthesise e span => rw [Scope.typeOf]
  | left _ op right span ih | right _ op left span ih => rw [Scope.typeOf, Scope.typeOf, ih]
  | operand _ op span ih => rw [Scope.typeOf, Scope.typeOf, ih]
  | inner _ span ih => rw [Scope.typeOf, Scope.typeOf, ih]
  | argument _ callee before after span ih => rw [Scope.typeOf, Scope.typeOf]

/-- The type of an arithmetic expression is that of its leaves: `string` if one of them is a string, or else
`double` if one of them is a `double`, or else `int` if all are, or else `float`.  So leaves of the same
types make arithmetic expressions of the same type, and to associate operations in another way, to exchange
operands or operators and to add parentheses, anywhere in an expression, does not change its type. -/
theorem Scope.typeOf_arithmetic :
    (∀ (s : Scope) (e : Expr), e.isArithmetic = true → s.typeOf e =
      if .string ∈ s.leafTypes e then .string
      else if .double ∈ s.leafTypes e then .double
      else if ∀ τ ∈ s.leafTypes e, τ = .int then .int
      else .float) ∧
    (∀ (s t : Scope) (e f : Expr), e.isArithmetic = true → f.isArithmetic = true →
      (∀ τ, τ ∈ s.leafTypes e ↔ τ ∈ t.leafTypes f) → s.typeOf e = t.typeOf f) ∧
    ∀ (s : Scope) (e f : Expr), e.Reshaped f → s.typeOf e = s.typeOf f :=
  ⟨fun _ _ he => typeOf_eq_widest he, fun _ _ _ _ he hf => typeOf_congr_leafTypes he hf,
    fun s _ _ h => h.typeOf_eq s⟩

/-- A product with a sum in front: of a number and a truth value, and of a negated variable. -/
def Expr.mixedProduct : Expr :=
  .binary .multiply
    (.binary .add (.literal (.number "1") default) (.literal (.bool true) default) default)
    (.unary .negate (.symbol "x" default) default) default

/-- The same leaves, associated to the right, and then with the operands of the sum exchanged. -/
def Expr.mixedSum : Expr :=
  .binary .add
    (.binary .multiply (.literal (.bool true) default) (.unary .negate (.symbol "x" default) default) default)
    (.literal (.number "1") default) default

/-- Where the variable is not declared, both are of type `float`. -/
theorem Scope.typeOf_arithmetic_mixed :
    let s := SymbolTables.empty.scope none
    let e := Expr.mixedProduct
    let f := Expr.mixedSum
    (e.isArithmetic = true ∧ s.leafTypes e = [.int, .bool, .unknown] ∧ s.typeOf e = .float) ∧
    (f.isArithmetic = true ∧ s.leafTypes f = [.bool, .unknown, .int] ∧ s.typeOf e = s.typeOf f) ∧
    e.Reshaped f ∧ s.typeOf f = .float := by
  intro s e f
  obtain ⟨hflat, hleaves, hshape⟩ := Scope.typeOf_arithmetic
  have he : s.leafTypes e = [.int, .bool, .unknown] := by decide
  have hf : s.leafTypes f = [.bool, .unknown, .int] := by decide
  have hsame : ∀ τ, τ ∈ s.leafTypes e ↔ τ ∈ s.leafTypes f := by
    rw [he, hf]
    intro τ
    cases τ <;> decide
  have hfloat : s.typeOf e = .float := by
    rw [hflat s e rfl, he]
    rfl
  have hreshaped : e.Reshaped f :=
    .trans (.associate rfl rfl _ _ _ _ default _ default) (.commute rfl _ _ _ _)
  refine ⟨⟨rfl, he, hfloat⟩, ⟨rfl, hf, hleaves s s e f rfl rfl hsame⟩, hreshaped, ?_⟩
  rw [← hshape s e f hreshaped, hfloat]

end LangCheck
