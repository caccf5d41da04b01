import LangCheck.Proofs.Analysis.Findings

/-!
# What is visible, told by the source

What is visible at a point of a body can be read off the source: the globals declared by the items
before the function, all functions of the program, and the parameters and local variables declared
before the point.  A `Context` lists just these.  Its scope (`Context.scope`) is the one that arises
from declaring all of it in this order.  The scopes of a real walk differ from it only in what bodies
add to signatures, which no rule looks at (`Scope.Alike`).
-/

namespace LangCheck

instance : Named FunctionDef := ⟨FunctionDef.name⟩

/-- What the source declares before some point of a function. -/
structure Context where
  /-- The global variables declared by the items before the function. -/
  globals : List Variable
  /-- All function definitions of the program. -/
  functions : List FunctionDef
  /-- The parameters of the function and the variables that its body declares before the point. -/
  locals : List Variable

namespace Context

variable {Γ : Context} {name : String}

/-- The variable of a name.  Locals hide globals, and of several of one tier the first counts. -/
def findVariable? (Γ : Context) (name : String) : Option Variable :=
  (Table.search name Γ.locals).or (Table.search name Γ.globals)

/-- The function of a name.  Of several definitions the first counts. -/
def findFunction? (Γ : Context) (name : String) : Option FunctionDef :=
  Γ.functions.find? (·.name == name)

/-- The scope that arises from declaring everything in order. -/
def scope (Γ : Context) : Scope :=
  ⟨.ofList Γ.globals, .ofList (Γ.functions.map .ofDefinition), some (.ofList Γ.locals)⟩

lemma name_of_findVariable? {v : Variable} (h : Γ.findVariable? name = some v) : v.name = name := by
  rcases Option.or_eq_some_iff.1 h with h | ⟨-, h⟩ <;> exact Table.nameOf_of_search h

lemma mem_of_findVariable? {v : Variable} (h : Γ.findVariable? name = some v) :
    v ∈ Γ.locals ∨ v ∈ Γ.globals := by
  rcases Option.or_eq_some_iff.1 h with h | ⟨-, h⟩
  · exact Or.inl (Table.mem_of_search h)
  · exact Or.inr (Table.mem_of_search h)

lemma mem_of_findFunction? {f : FunctionDef} (h : Γ.findFunction? name = some f) : f ∈ Γ.functions :=
  List.mem_of_find?_eq_some h

@[simp] lemma findVariable?_scope : Γ.scope.findVariable? name = Γ.findVariable? name := by
  simp [scope, Scope.findVariable?, findVariable?, Table.find?_ofList]

lemma search_map_ofDefinition (fs : List FunctionDef) (name : String) :
    Table.search name (fs.map Signature.ofDefinition) =
      (fs.find? (·.name == name)).map Signature.ofDefinition :=
  Table.search_map (h := Signature.ofDefinition) (fun _ => rfl) fs

@[simp] lemma findFunction?_scope :
    Γ.scope.findFunction? name = (Γ.findFunction? name).map Signature.ofDefinition := by
  rw [scope, Scope.findFunction?, Table.find?_ofList, search_map_ofDefinition]
  rfl

/-- The name of a declaration is taken when a parameter or an earlier declaration has it. -/
lemma redeclarationErrors_scope (d : VarDecl) :
    Γ.scope.redeclarationErrors (.declare d) =
      if d.name ∈ Γ.locals.map (·.name) then [.duplicateLocal d.name] else [] := by
  have hiff := Table.contains_ofList Γ.locals d.name
  by_cases h : d.name ∈ Γ.locals.map (·.name)
  · rw [if_pos h]
    exact if_pos (hiff.2 h)
  · rw [if_neg h]
    exact if_neg fun hc => h (hiff.1 hc)

end Context

namespace Scope

/-- Two scopes show the same variables and the same headers of functions. -/
structure Alike (s t : Scope) : Prop where
  sameLocals : s.locals = t.locals
  sameVariables : ∀ name, s.findVariable? name = t.findVariable? name
  sameHeaders : ∀ name, (s.findFunction? name).map Signature.bare =
    (t.findFunction? name).map Signature.bare

namespace Alike

variable {s t : Scope}

lemma returns_eq (h : s.Alike t) (name : String) :
    (s.findFunction? name).map (·.returns) = (t.findFunction? name).map (·.returns) := by
  have := congrArg (Option.map Signature.returns) (h.sameHeaders name)
  simpa [Function.comp_def, Signature.bare] using this

/-- The type of an expression is the same in both scopes. -/
lemma typeOf_eq (h : s.Alike t) (e : Expr) : s.typeOf e = t.typeOf e := by
  fun_induction Scope.typeOf s e with
  | case1 op left right span hop => simp [Scope.typeOf, hop]
  | case2 op left right span hop ihl ihr => simp [Scope.typeOf, hop, ihl, ihr]
  | case3 operand span => simp [Scope.typeOf]
  | case4 op operand span hop ih => simp [Scope.typeOf, hop, ih]
  | case5 value span => rfl
  | case6 name span => simp [Scope.typeOf, h.sameVariables]
  | case7 callee arguments span => rw [Scope.typeOf, h.returns_eq]
  | case8 inner span ih => rw [Scope.typeOf, ih]

lemma argumentErrors_eq (h : s.Alike t) (callee : String) (types : List Ty) (place : ℕ)
    (arguments : List Expr) :
    s.argumentErrors callee place types arguments =
      t.argumentErrors callee place types arguments := by
  induction types generalizing place arguments with
  | nil => rfl
  | cons expected types ih =>
    cases arguments with
    | nil => rfl
    | cons argument arguments => simp only [Scope.argumentErrors, ih, h.typeOf_eq]

lemma callErrors_eq (h : s.Alike t) (callee : String) (arguments : List Expr) :
    s.callErrors callee arguments = t.callErrors callee arguments := by
  have hheader := h.sameHeaders callee
  unfold callErrors
  rcases hs : s.findFunction? callee with _ | f <;> rcases ht : t.findFunction? callee with _ | g
  · rfl
  · simp [hs, ht] at hheader
  · simp [hs, ht] at hheader
  · rw [hs, ht] at hheader
    have hparameters : f.parameters = g.parameters := by
      simpa [Signature.bare] using congrArg (Option.map Signature.parameters) hheader
    simp only [hparameters, Signature.parameterTypes, h.argumentErrors_eq]

lemma nodeErrors_eq (h : s.Alike t) (e : Expr) : s.nodeErrors e = t.nodeErrors e := by
  cases e with
  | symbol name span => simp only [nodeErrors, h.sameVariables]
  | call callee arguments span => exact h.callErrors_eq callee arguments
  | _ => rfl

lemma findings_eq (h : s.Alike t) (nodes : List Expr) : s.findings nodes = t.findings nodes := by
  simp only [findings, h.nodeErrors_eq]

lemma stepErrors_eq (h : s.Alike t) {f g : Signature} (hfg : f.bare = g.bare) (step : Step) :
    s.stepErrors f step = t.stepErrors g step := by
  cases step with
  | declare d => simp only [stepErrors, initializerErrors, h.typeOf_eq]
  | assign a => simp only [stepErrors, assignmentErrors, h.sameVariables, h.typeOf_eq]
  | returning value line =>
    have hname : f.bare.name = g.bare.name := by rw [hfg]
    have hreturns : f.bare.returns = g.bare.returns := by rw [hfg]
    change f.name = g.name at hname
    change f.returns = g.returns at hreturns
    rcases value with _ | value <;>
      simp only [stepErrors, returnErrors, hname, hreturns, h.typeOf_eq]
  | _ => rfl

end Alike

end Scope

/-- What is found in a step depends only on what both scopes show. -/
lemma stepFindings_congr {s s' t t' : Scope} {f g : Signature} (hs : s.Alike t) (hs' : s'.Alike t')
    (hfg : f.bare = g.bare) (step : Step) :
    stepFindings s s' f step = stepFindings t t' g step := by
  have hre : s.redeclarationErrors step = t.redeclarationErrors step := by
    cases step <;> simp only [Scope.redeclarationErrors, hs.sameLocals]
  rw [stepFindings, stepFindings, hre, hs'.stepErrors_eq hfg, hs'.findings_eq]

end LangCheck
