import LangCheck.Proofs.Analysis.Record

/-!
# What the analysis records, declaration by declaration

The result of an analysis names the first declaration of each global variable and the first definition of
each function, and for a function what its body declares: its local variables, its control structures, and
whether it calls itself.  All of this is read off the source here (`FunctionDef.newDeclarations`,
`FunctionDef.controls`, `FunctionDef.callsItself`).  The main result (`Program.analyse_tables`) says that
the tables of an analysis are just this.
-/

namespace LangCheck

/-! ## What the source declares -/

instance : Named GlobalDecl := ⟨GlobalDecl.name⟩

/-- The global declaration that an item is. -/
def Item.global? : Item → Option GlobalDecl
  | .global d => some d
  | .function _ => none

/-- The declarations of global variables in a program, in order. -/
def Program.globalDecls (p : Program) : List GlobalDecl := p.items.filterMap Item.global?

/-- The control structure that begins with a step, as it is recorded. -/
def Step.control? : Step → Option String
  | .control word line => some (word ++ " (linia " ++ toString line ++ ")")
  | _ => none

namespace FunctionDef

/-- A declaration, unless a parameter of the function or an earlier declaration has its name. -/
def ifNew (f : FunctionDef) (past : List VarDecl) (d : VarDecl) : List VarDecl :=
  if d.name ∈ f.parameters.map (·.name) ++ past.map (·.name) then [] else [d]

/-- The declarations in the body of a function whose names are new in it. -/
def newDeclarations (f : FunctionDef) : List VarDecl := flatMapPast f.ifNew [] f.declarations

/-- The control structures in the body of a function, each before those inside of it. -/
def controls (f : FunctionDef) : List String := f.steps.filterMap Step.control?

/-- Whether an expression in the body of a function calls this function, which is not the main one. -/
def callsItself (f : FunctionDef) : Bool :=
  f.name != mainName && (f.steps.flatMap fun s => nodesOf s.value?).any (Expr.isCallOf f.name)

end FunctionDef

/-! ## What the steps of a body record -/

namespace Frame

variable {frame : Frame} {vs : List Variable}

lemma signature_locals_declare (h : frame.locals = .ofList vs) (v : Variable) :
    (frame.declare v).signature.locals = frame.signature.locals ++ Table.ifNew vs v := by
  have hiff : frame.locals.contains v.name = true ↔ nameOf v ∈ vs.map nameOf := by
    rw [h]
    exact Table.contains_ofList vs v.name
  rw [declare, Table.ifNew]
  by_cases hname : nameOf v ∈ vs.map nameOf
  · rw [if_pos (hiff.2 hname), if_pos hname, List.append_nil]
  · rw [if_neg fun hc => hname (hiff.1 hc), if_neg hname]

/-- A step adds the variable that it declares to the recorded ones, if its name is new. -/
lemma signature_locals_after (h : frame.locals = .ofList vs) (s : Step) :
    (frame.after s).signature.locals =
      frame.signature.locals ++ flatMapPast Table.ifNew vs s.declared?.toList := by
  cases s with
  | declare d =>
    rw [Step.declared?, Option.toList_some, flatMapPast_cons, flatMapPast_nil, List.append_nil]
    exact signature_locals_declare h _
  | _ => exact (List.append_nil _).symm

/-- The steps of a body record the variables that they declare whose names are new. -/
lemma signature_locals_foldl_after (h : frame.locals = .ofList vs) (steps : List Step) :
    (steps.foldl after frame).signature.locals =
      frame.signature.locals ++ flatMapPast Table.ifNew vs (steps.filterMap Step.declared?) := by
  induction steps generalizing frame vs with
  | nil => simp
  | cons s steps ih =>
    have hnext : (frame.after s).locals = .ofList (vs ++ s.declared?.toList) := by
      rw [locals_after, h, Table.ofList, Table.ofList, List.foldl_append]
    have hsplit : (s :: steps).filterMap Step.declared? =
        s.declared?.toList ++ steps.filterMap Step.declared? := by
      rw [List.filterMap_cons]
      cases s.declared? <;> rfl
    rw [List.foldl_cons, ih hnext, signature_locals_after h, hsplit, flatMapPast_append,
      List.append_assoc]

lemma signature_controls_foldl_after (frame : Frame) (steps : List Step) :
    (steps.foldl after frame).signature.controls =
      frame.signature.controls ++ steps.filterMap Step.control? := by
  induction steps generalizing frame with
  | nil => simp
  | cons s steps ih =>
    rw [List.foldl_cons, ih]
    cases s with
    | declare d =>
      simp only [after, record, declare, Signature.noteCalls]
      split <;> rfl
    | control word line => exact List.append_assoc ..
    | _ => rfl

/-- What the calls in a body tell of the function.  The other records of a step do not matter to it. -/
lemma isRecursive_foldl_after (frame : Frame) (steps : List Step) :
    (steps.foldl after frame).signature.isRecursive =
      (frame.signature.isRecursive || (frame.signature.name != mainName &&
        (steps.flatMap fun s => nodesOf s.value?).any (Expr.isCallOf frame.signature.name))) := by
  induction steps generalizing frame with
  | nil => simp
  | cons s steps ih =>
    have hname : (frame.after s).signature.name = frame.signature.name :=
      show (frame.after s).signature.bare.name = _ by rw [bare_after]; rfl
    have hflag : (frame.after s).signature.isRecursive =
        (frame.signature.isRecursive || (frame.signature.name != mainName &&
          (nodesOf s.value?).any (Expr.isCallOf frame.signature.name))) := by
      cases s with
      | declare d =>
        simp only [after, record, declare, Signature.noteCalls]
        split <;> rfl
      | _ => rfl
    rw [List.foldl_cons, ih, hname, hflag, List.flatMap_cons, List.any_append, Bool.and_or_distrib_left,
      Bool.or_assoc]

end Frame

namespace FunctionDef

lemma filterMap_declared? (steps : List Step) :
    steps.filterMap Step.declared? = (steps.filterMap Step.declaration?).map Walk.declared := by
  rw [List.map_filterMap]
  refine List.filterMap_congr fun s _ => ?_
  cases s <;> rfl

/-- The variables of new names are those of the declarations of new names. -/
lemma flatMapPast_ifNew_declared (f : FunctionDef) (past ds : List VarDecl) :
    flatMapPast Table.ifNew (f.parameters.map Parameter.toVariable ++ past.map Walk.declared)
        (ds.map Walk.declared) =
      (flatMapPast f.ifNew past ds).map Walk.declared := by
  induction ds generalizing past with
  | nil => rfl
  | cons d ds ih =>
    have hnames : (f.parameters.map Parameter.toVariable ++ past.map Walk.declared).map nameOf =
        f.parameters.map (·.name) ++ past.map (·.name) := by
      rw [List.map_append, List.map_map, List.map_map]
      rfl
    have hhead : Table.ifNew (f.parameters.map Parameter.toVariable ++ past.map Walk.declared)
        (Walk.declared d) = (f.ifNew past d).map Walk.declared := by
      rw [Table.ifNew, hnames, FunctionDef.ifNew]
      split_ifs <;> first | rfl | contradiction
    have hrest := ih (past ++ [d])
    rw [List.map_append, List.map_singleton, ← List.append_assoc] at hrest
    rw [List.map_cons, flatMapPast_cons, flatMapPast_cons, List.map_append, hhead, hrest]

/-- What is recorded of a function, field by field. -/
theorem summary_eq (f : FunctionDef) : f.summary =
    { name := f.name
      returns := f.returns
      parameters := f.parameters.map fun q => ⟨q.name, q.ty⟩
      isRecursive := f.callsItself
      isMain := f.name == mainName
      locals := f.newDeclarations.map Walk.declared
      controls := f.controls } := by
  have hlocals : f.summary.locals = f.newDeclarations.map Walk.declared := by
    have h := f.flatMapPast_ifNew_declared [] f.declarations
    rw [List.map_nil, List.append_nil, declarations, ← filterMap_declared?] at h
    exact (Frame.signature_locals_foldl_after rfl f.steps).trans h
  have hcontrols : f.summary.controls = f.controls :=
    Frame.signature_controls_foldl_after _ f.steps
  have hrecursive : f.summary.isRecursive = f.callsItself := Frame.isRecursive_foldl_after _ f.steps
  -- the other fields are those of the header
  have hbare := f.bare_summary
  rcases hs : f.summary with ⟨name, returns, parameters, isRecursive, isMain, locals, controls⟩
  rw [hs] at hlocals hcontrols hrecursive hbare
  cases hlocals
  cases hcontrols
  cases hrecursive
  cases hbare
  rfl

end FunctionDef

/-! ## The tables of a program -/

lemma globalsOf_eq_map (items : List Item) :
    globalsOf items = (items.filterMap Item.global?).map Checker.global := by
  rw [globalsOf, List.map_filterMap]
  refine List.filterMap_congr fun item _ => ?_
  cases item <;> rfl

/-- The tables of an analysis are what the program declares: the first declarations of all global names,
and the first definitions of all function names with what their bodies declare. -/
theorem Program.analyse_tables (p : Program) :
    p.analyse.globals = (Table.firsts p.globalDecls).map (fun d =>
      ⟨d.name, d.ty, d.value.map Literal.render, d.isConst⟩) ∧
    p.analyse.functions = (Table.firsts p.functions).map fun f =>
      { name := f.name
        returns := f.returns
        parameters := f.parameters.map fun q => ⟨q.name, q.ty⟩
        isRecursive := f.callsItself
        isMain := f.name == mainName
        locals := f.newDeclarations.map fun d => ⟨d.name, d.ty, d.value.map Expr.render, d.isConst⟩
        controls := f.controls } := by
  constructor
  · rw [globals_analyse, globalsOf_eq_map, Table.firsts_map (h := Checker.global) fun _ => rfl]
    rfl
  · rw [functions_analyse]
    exact List.map_congr_left fun f _ => f.summary_eq

end LangCheck
