import LangCheck.Proofs.Analysis.Steps
import LangCheck.Proofs.Past
import LangCheck.Proofs.Scope.Table

/-!
# What a walk finds

A walk changes two things: it appends to the diagnostics, and it records in the frame what the body
declares.  Both are given here without any walking.  What is found at a node of an expression depends
on what is visible there and on nothing else (`Scope.nodeErrors`); what is found in a step depends on
what is visible before and after it (`stepFindings`); and a step changes the frame in a way of its own
(`Frame.after`).  The main results say that the walk does just this, for an expression
(`Walk.expression_eq`), for a step inside a function (`Walk.step_eq`) and for all the steps of a body
(`Walk.foldl_step_eq`).
-/

namespace LangCheck

/-- Findings on one line, in order. -/
def Diagnostic.allOn (line : UInt32) (errors : List SemanticError) : List Diagnostic :=
  errors.map fun error => ⟨line, error⟩

namespace Diagnostic

@[simp] lemma allOn_nil (line : UInt32) : allOn line [] = [] := rfl

@[simp] lemma allOn_cons (line : UInt32) (error : SemanticError) (errors : List SemanticError) :
    allOn line (error :: errors) = ⟨line, error⟩ :: allOn line errors := rfl

@[simp] lemma allOn_append (line : UInt32) (es fs : List SemanticError) :
    allOn line (es ++ fs) = allOn line es ++ allOn line fs := by
  simp [allOn]

@[simp] lemma allOn_eq_nil_iff {line : UInt32} {errors : List SemanticError} :
    allOn line errors = [] ↔ errors = [] := by
  simp [allOn]

end Diagnostic

/-! ## Nodes -/

namespace Scope

/-- What is wrong with a node of an expression, its parts left out. -/
def nodeErrors (s : Scope) : Expr → List SemanticError
  | .symbol name _ => if (s.findVariable? name).isSome then [] else [.undeclaredVariable name]
  | .call callee arguments _ => s.callErrors callee arguments
  | _ => []

/-- What is found at some nodes, in order. -/
def findings (s : Scope) (nodes : List Expr) : List Diagnostic :=
  nodes.flatMap fun e => Diagnostic.allOn e.span.line (s.nodeErrors e)

@[simp] lemma findings_nil (s : Scope) : s.findings [] = [] := rfl

lemma findings_cons (s : Scope) (e : Expr) (nodes : List Expr) :
    s.findings (e :: nodes) = Diagnostic.allOn e.span.line (s.nodeErrors e) ++ s.findings nodes := rfl

@[simp] lemma findings_append (s : Scope) (es fs : List Expr) :
    s.findings (es ++ fs) = s.findings es ++ s.findings fs := by
  simp [findings]

end Scope

/-- Notes that a function is recursive if one of the nodes calls it.  Calls of the main function do
not count. -/
def Signature.noteCalls (nodes : List Expr) (s : Signature) : Signature :=
  { s with isRecursive :=
      s.isRecursive || (s.name != mainName && nodes.any (Expr.isCallOf s.name)) }

namespace Signature

@[simp] lemma noteCalls_nil (s : Signature) : s.noteCalls [] = s := by
  simp [noteCalls]

lemma noteCalls_append (es fs : List Expr) (s : Signature) :
    (s.noteCalls es).noteCalls fs = s.noteCalls (es ++ fs) := by
  simp only [noteCalls, List.any_append, Bool.and_or_distrib_left, Bool.or_assoc]

end Signature

/-! ## Appending findings -/

namespace Checker

/-- Appends findings. -/
def found (c : Checker) (ds : List Diagnostic) : Checker :=
  { c with diagnostics := c.diagnostics ++ ds }

variable {c : Checker} {ds es : List Diagnostic}

@[simp] lemma found_nil : c.found [] = c := by simp [found]

@[simp] lemma found_found : (c.found ds).found es = c.found (ds ++ es) := by
  simp [found]

@[simp] lemma tables_found : (c.found ds).tables = c.tables := rfl

@[simp] lemma hasMain_found : (c.found ds).hasMain = c.hasMain := rfl

@[simp] lemma reached_found : (c.found ds).reached = c.reached := rfl

@[simp] lemma diagnostics_found : (c.found ds).diagnostics = c.diagnostics ++ ds := rfl

lemma report_eq_found (line : UInt32) (error : SemanticError) :
    c.report line error = c.found [⟨line, error⟩] := rfl

lemma foldl_report_eq_found (line : UInt32) (errors : List SemanticError) :
    errors.foldl (·.report line ·) c = c.found (Diagnostic.allOn line errors) := by
  induction errors generalizing c with
  | nil => simp
  | cons error errors ih =>
    rw [List.foldl_cons, ih, report_eq_found, found_found]
    rfl

end Checker

namespace Walk

/-- Appends findings. -/
def found (w : Walk) (ds : List Diagnostic) : Walk := { w with checker := w.checker.found ds }

variable {w : Walk} {ds es : List Diagnostic}

@[simp] lemma found_nil : w.found [] = w := by simp [found]

@[simp] lemma found_found : (w.found ds).found es = w.found (ds ++ es) := by simp [found]

@[simp] lemma scope_found : (w.found ds).scope = w.scope := rfl

@[simp] lemma scope_record (change : Signature → Signature) :
    (w.record change).scope = w.scope := by
  rcases w with ⟨c, _ | f⟩ <;> rfl

lemma record_found (change : Signature → Signature) :
    (w.record change).found ds = (w.found ds).record change := rfl

lemma record_record (first second : Signature → Signature) :
    (w.record first).record second = w.record fun s => second (first s) := by
  rcases w with ⟨c, _ | f⟩ <;> rfl

lemma record_eq_self {change : Signature → Signature} (h : ∀ s, change s = s) :
    w.record change = w := by
  rcases w with ⟨c, _ | f⟩
  · rfl
  · simp [record, h]

lemma report_eq_found (line : UInt32) (error : SemanticError) :
    w.report line error = w.found [⟨line, error⟩] := rfl

lemma reportAll_eq_found (line : UInt32) (errors : List SemanticError) :
    w.reportAll line errors = w.found (Diagnostic.allOn line errors) := by
  unfold reportAll
  induction errors generalizing w with
  | nil => simp
  | cons error errors ih =>
    rw [List.foldl_cons, ih, report_eq_found, found_found]
    rfl

lemma noteCall_eq_record (callee : String) (arguments : List Expr) (span : Span) :
    w.noteCall callee = w.record (Signature.noteCalls [.call callee arguments span]) := by
  unfold noteCall
  by_cases h : callee = mainName
  · rw [if_pos h, record_eq_self]
    intro s
    have hnone : (s.name != mainName && (Expr.call callee arguments span).isCallOf s.name) = false := by
      by_cases hs : s.name = mainName
      · simp [hs]
      · simp [Expr.isCallOf, h, Ne.symm hs]
    simp only [Signature.noteCalls, List.any_cons, List.any_nil, Bool.or_false, hnone]
  · rw [if_neg h]
    congr 1
    funext s
    have hsame : (s.name == callee) =
        (s.name != mainName && (Expr.call callee arguments span).isCallOf s.name) := by
      by_cases hs : s.name = callee
      · simp [Expr.isCallOf, hs, h]
      · have h1 : (s.name == callee) = false := beq_false_of_ne hs
        have h2 : (callee == s.name) = false := beq_false_of_ne (Ne.symm hs)
        simp [Expr.isCallOf, h1, h2]
    simp only [Signature.noteCalls, List.any_cons, List.any_nil, Bool.or_false, hsame]

/-! ## The walk through an expression -/

/-- What the walk does with the nodes of an expression. -/
def visit (w : Walk) (nodes : List Expr) : Walk :=
  (w.found (w.scope.findings nodes)).record (Signature.noteCalls nodes)

@[simp] lemma visit_nil : w.visit [] = w := by
  simp [visit, record_eq_self]

lemma visit_visit (es fs : List Expr) : (w.visit es).visit fs = w.visit (es ++ fs) := by
  simp only [visit, scope_record, scope_found, record_found, found_found, record_record,
    Signature.noteCalls_append, Scope.findings_append]

lemma visit_of_isLeaf {e : Expr} (hcall : ∀ name, e.isCallOf name = false) :
    w.visit [e] = w.found (Diagnostic.allOn e.span.line (w.scope.nodeErrors e)) := by
  rw [visit, record_eq_self]
  · simp [Scope.findings]
  · intro s
    simp [Signature.noteCalls, hcall]

mutual

/-- The walk through an expression looks at its nodes, in order. -/
theorem expression_eq (w : Walk) : ∀ e : Expr, w.expression e = w.visit e.nodes
  | .binary op left right span => by
    rw [expression, expression_eq w left, expression_eq _ right, visit_visit, Expr.nodes,
      ← List.singleton_append, ← visit_visit [_], visit_of_isLeaf fun _ => rfl]
    simp [Scope.nodeErrors]
  | .unary op operand span => by
    rw [expression, expression_eq w operand, Expr.nodes, ← List.singleton_append, ← visit_visit,
      visit_of_isLeaf fun _ => rfl]
    simp [Scope.nodeErrors]
  | .literal value span => by
    rw [expression, Expr.nodes, visit_of_isLeaf fun _ => rfl]
    simp [Scope.nodeErrors]
  | .symbol name span => by
    rw [expression, Expr.nodes, visit_of_isLeaf fun _ => rfl]
    by_cases h : (w.scope.findVariable? name).isSome <;>
      simp [Scope.nodeErrors, h, report_eq_found, Expr.span]
  | .call callee arguments span => by
    -- the call is judged and noted before its arguments are looked at
    rw [expression, expressions_eq _ arguments, Expr.nodes, ← List.singleton_append, ← visit_visit,
      noteCall_eq_record callee arguments span, reportAll_eq_found]
    congr 1
    simp [visit, Scope.findings, Scope.nodeErrors, Expr.span]
  | .group inner span => by
    rw [expression, expression_eq w inner, Expr.nodes, ← List.singleton_append, ← visit_visit,
      visit_of_isLeaf fun _ => rfl]
    simp [Scope.nodeErrors]

/-- The walk through expressions looks at their nodes, in order. -/
theorem expressions_eq (w : Walk) :
    ∀ es : List Expr, w.expressions es = w.visit (Expr.allNodes es)
  | [] => by simp [expressions, Expr.allNodes]
  | e :: es => by
    rw [expressions, expression_eq w e, expressions_eq _ es, visit_visit, Expr.allNodes]

end

lemma expression?_eq (w : Walk) (e : Option Expr) : w.expression? e = w.visit (nodesOf e) := by
  cases e with
  | none => simp [expression?]
  | some e => rw [expression?, expression_eq, nodesOf_some]

end Walk

/-! ## Steps -/

namespace Frame

/-- Declares a local variable; if its name is taken, nothing happens. -/
def declare (f : Frame) (v : Variable) : Frame :=
  if f.locals.contains v.name then f
  else ⟨{ f.signature with locals := f.signature.locals ++ [v] }, f.locals.declareOrKeep v⟩

/-- Records a control structure. -/
def enter (f : Frame) (word : String) (line : UInt32) : Frame :=
  { f with signature.controls :=
      f.signature.controls ++ [word ++ " (linia " ++ toString line ++ ")"] }

/-- What the declaration or the control structure of a step records. -/
def record (f : Frame) : Step → Frame
  | .declare d => f.declare (Walk.declared d)
  | .control word line => f.enter word line
  | .assign _ | .evaluate _ | .returning _ _ => f

/-- The frame after a step. -/
def after (f : Frame) (s : Step) : Frame :=
  { f.record s with signature := (f.record s).signature.noteCalls (nodesOf s.value?) }

lemma locals_declare (f : Frame) (v : Variable) :
    (f.declare v).locals = f.locals.declareOrKeep v := by
  unfold declare
  split
  · next h => rw [Table.declareOrKeep_of_contains h]
  · rfl

/-- A step adds the variable that it declares to the local ones, if its name is free. -/
lemma locals_after (f : Frame) (s : Step) :
    (f.after s).locals = s.declared?.toList.foldl Table.declareOrKeep f.locals := by
  cases s with
  | declare d => exact locals_declare f _
  | _ => rfl

lemma locals_foldl_after (f : Frame) (steps : List Step) :
    (steps.foldl after f).locals =
      (steps.filterMap Step.declared?).foldl Table.declareOrKeep f.locals := by
  induction steps generalizing f with
  | nil => rfl
  | cons s steps ih =>
    rw [List.foldl_cons, ih, locals_after, List.filterMap_cons]
    cases s.declared? <;> rfl

end Frame

/-- What was known of a function before its body was looked at. -/
def Signature.bare (s : Signature) : Signature :=
  { s with isRecursive := false, locals := [], controls := [] }

@[simp] lemma Signature.bare_ofDefinition (f : FunctionDef) :
    (Signature.ofDefinition f).bare = .ofDefinition f := rfl

@[simp] lemma Frame.bare_after (f : Frame) (s : Step) :
    (f.after s).signature.bare = f.signature.bare := by
  cases s with
  | declare d =>
    simp only [Frame.after, Frame.record, Frame.declare]
    split <;> rfl
  | _ => rfl

/-- No step changes what the header of the function tells. -/
lemma Frame.bare_foldl_after (f : Frame) (steps : List Step) :
    (steps.foldl Frame.after f).signature.bare = f.signature.bare := by
  induction steps generalizing f with
  | nil => rfl
  | cons s steps ih => rw [List.foldl_cons, ih, Frame.bare_after]

namespace Scope

/-- What is wrong with a declaration whose name is taken. -/
def redeclarationErrors (s : Scope) : Step → List SemanticError
  | .declare d => if s.locals.any (·.contains d.name) then [.duplicateLocal d.name] else []
  | _ => []

/-- What is wrong with a step itself, in a function of the given signature. -/
def stepErrors (s : Scope) (f : Signature) : Step → List SemanticError
  | .declare d => s.initializerErrors d
  | .assign a => s.assignmentErrors a
  | .returning value _ => s.returnErrors f value
  | .evaluate _ | .control _ _ => []

end Scope

/-- What is found in a step, given what is visible before and after it: whether it declares a name
that is taken, what else is wrong with it, and what is wrong with the nodes of its expression. -/
def stepFindings (before after : Scope) (f : Signature) (s : Step) : List Diagnostic :=
  Diagnostic.allOn s.line (before.redeclarationErrors s ++ after.stepErrors f s) ++
    after.findings (nodesOf s.value?)

namespace Checker

/-- What is visible inside a function. -/
def scopeIn (c : Checker) (f : Frame) : Scope := c.tables.scope (some f.locals)

@[simp] lemma scopeIn_found (c : Checker) (ds : List Diagnostic) (f : Frame) :
    (c.found ds).scopeIn f = c.scopeIn f := rfl

end Checker

namespace Walk

variable (c : Checker) (f : Frame)

lemma visit_frame (nodes : List Expr) :
    visit ⟨c, some f⟩ nodes =
      ⟨c.found ((c.scopeIn f).findings nodes),
        some { f with signature := f.signature.noteCalls nodes }⟩ := rfl

lemma declare_eq (d : VarDecl) :
    declare ⟨c, some f⟩ f d =
      ⟨c.found (Diagnostic.allOn d.span.line ((c.scopeIn f).redeclarationErrors (.declare d))),
        some (f.declare (declared d))⟩ := by
  by_cases h : f.locals.contains d.name = true
  · have hd : f.locals.declare (declared d) = .error ⟨d.name⟩ := Table.declare_of_contains h
    have hf : f.declare (declared d) = f := if_pos h
    have he : (c.scopeIn f).redeclarationErrors (.declare d) = [.duplicateLocal d.name] := if_pos h
    rw [declare, hd, hf, he]
    rfl
  · have hd : f.locals.declare (declared d) = .ok (f.locals.declareOrKeep (declared d)) :=
      Table.declare_of_not_contains (Bool.eq_false_iff.2 h)
    have hf : f.declare (declared d) =
        ⟨{ f.signature with locals := f.signature.locals ++ [declared d] },
          f.locals.declareOrKeep (declared d)⟩ := if_neg h
    have he : (c.scopeIn f).redeclarationErrors (.declare d) = [] := if_neg h
    rw [declare, hd, hf, he, Diagnostic.allOn_nil, Checker.found_nil]

/-- Inside a function, a step appends its findings and changes the frame as `Frame.after` tells. -/
theorem step_eq (s : Step) :
    step ⟨c, some f⟩ s =
      ⟨c.found (stepFindings (c.scopeIn f) (c.scopeIn (f.after s)) f.signature s),
        some (f.after s)⟩ := by
  cases s with
  | declare d =>
    simp only [step, declaration, declare_eq, reportAll_eq_found, expression?_eq, found,
      visit_frame, Checker.found_found, stepFindings, Diagnostic.allOn_append]
    rfl
  | assign a =>
    simp only [step, assignment, reportAll_eq_found, expression?_eq, found, visit_frame,
      Checker.found_found]
    rfl
  | evaluate e =>
    simp only [step, expression_eq, visit_frame]
    simp only [stepFindings, Scope.redeclarationErrors, Scope.stepErrors, List.append_nil,
      Diagnostic.allOn_nil, List.nil_append, Step.value?, nodesOf_some]
    -- an expression by itself changes the frame as far as its calls are noted
    congr 2
    simp [Frame.after, Frame.record, Step.value?]
  | control word line =>
    simp [step, control, record, stepFindings, Scope.redeclarationErrors, Scope.stepErrors,
      Step.value?, Frame.after, Frame.record, Frame.enter]
  | returning value line =>
    simp only [step, returning, reportAll_eq_found, expression?_eq, found, visit_frame,
      Checker.found_found]
    rfl

/-- Inside a function, the steps of a body append what is found in each of them, with what is visible
there after the steps before it. -/
theorem foldl_step_eq (steps : List Step) (past : List Step) :
    steps.foldl step ⟨c, some (past.foldl Frame.after f)⟩ =
      ⟨c.found (flatMapPast (fun past s =>
          stepFindings (c.scopeIn (past.foldl Frame.after f))
            (c.scopeIn ((past ++ [s]).foldl Frame.after f))
            (past.foldl Frame.after f).signature s) past steps),
        some ((past ++ steps).foldl Frame.after f)⟩ := by
  induction steps generalizing past c with
  | nil => simp
  | cons s steps ih =>
    have hnext : (past.foldl Frame.after f).after s = (past ++ [s]).foldl Frame.after f := by
      simp
    rw [List.foldl_cons, step_eq, hnext, ih]
    simp [flatMapPast_cons]

end Walk

end LangCheck
