import LangCheck.Proofs.Analysis.Record

/-!
# What a walk leaves alone

A walk through an expression or a statement owns little of the state that it is given.  Of the analysis it
only extends the diagnostics, and of the function that is walked through it only adds to what is recorded
(`Walk.Extends`).  Every variable that is recorded was declared in the table of local variables, and
nothing else was declared there (`Frame.Gained`).  One step of the walk does no more than that
(`Walk.extends_step`), and since extensions compose, neither does any walk (`Walk.extends_walks`).
-/

namespace LangCheck

/-! ## Declaring one after the other -/

namespace Table

variable {α : Type} [Named α] {t u : Table α} {e : α} {es : List α}

lemma toList_of_declare (h : t.declare e = .ok u) : u.toList = t.toList ++ [e] := by
  rw [declare] at h
  split at h
  · cases h
  · cases h
    simp [toList]

/-- A table in which entries were declared, each under a free name, holds them behind the others. -/
lemma toList_of_foldlM_declare (h : es.foldlM declare t = .ok u) : u.toList = t.toList ++ es := by
  induction es generalizing t with
  | nil =>
    cases h
    rw [List.append_nil]
  | cons e es ih =>
    rw [List.foldlM_cons] at h
    rcases ht : t.declare e with d | t'
    · rw [ht] at h
      cases h
    · rw [ht] at h
      rw [ih h, toList_of_declare ht, List.append_assoc, List.singleton_append]

end Table

/-! ## Frames -/

namespace Frame

variable {f g k : Frame} {added more : List Variable}

/-- From one frame to another some variables were added: they are recorded in the signature behind those
recorded before, they are the new entries of the table of local variables in the same order, and the
table is the one in which they were declared one by one, each under a free name. -/
structure Gained (f g : Frame) (added : List Variable) : Prop where
  recorded : g.signature.locals = f.signature.locals ++ added
  entries : g.locals.toList = f.locals.toList ++ added
  declared : added.foldlM Table.declare f.locals = .ok g.locals

lemma Gained.of_declared (hrecorded : g.signature.locals = f.signature.locals ++ added)
    (hdeclared : added.foldlM Table.declare f.locals = .ok g.locals) : f.Gained g added :=
  ⟨hrecorded, Table.toList_of_foldlM_declare hdeclared, hdeclared⟩

lemma Gained.trans (h : f.Gained g added) (h' : g.Gained k more) : f.Gained k (added ++ more) := by
  refine .of_declared ?_ ?_
  · rw [h'.recorded, h.recorded, List.append_assoc]
  · rw [List.foldlM_append, h.declared]
    exact h'.declared

/-- One frame is another one after some walking: what the header of the function tells is the same, a
function that was found to be recursive stays so, and control structures and variables were added. -/
structure Extends (f g : Frame) : Prop where
  name : g.signature.name = f.signature.name
  returns : g.signature.returns = f.signature.returns
  parameters : g.signature.parameters = f.signature.parameters
  isMain : g.signature.isMain = f.signature.isMain
  isRecursive : f.signature.isRecursive = true → g.signature.isRecursive = true
  controls : f.signature.controls <+: g.signature.controls
  locals : ∃ added, f.Gained g added

namespace Extends

lemma refl (f : Frame) : f.Extends f :=
  ⟨rfl, rfl, rfl, rfl, id, List.prefix_refl _, [], .of_declared (List.append_nil _).symm rfl⟩

lemma trans (h : f.Extends g) (h' : g.Extends k) : f.Extends k := by
  obtain ⟨added, hadded⟩ := h.locals
  obtain ⟨more, hmore⟩ := h'.locals
  exact ⟨h'.name.trans h.name, h'.returns.trans h.returns, h'.parameters.trans h.parameters,
    h'.isMain.trans h.isMain, fun hf => h'.isRecursive (h.isRecursive hf),
    h.controls.trans h'.controls, _, hadded.trans hmore⟩

/-- Noting calls makes a function recursive or leaves it as it is. -/
lemma noteCalls (f : Frame) (nodes : List Expr) :
    f.Extends { f with signature := f.signature.noteCalls nodes } := by
  refine ⟨rfl, rfl, rfl, rfl, fun hf => ?_, List.prefix_refl _, [],
    .of_declared (List.append_nil _).symm rfl⟩
  simp [Signature.noteCalls, hf]

lemma enter (f : Frame) (word : String) (line : UInt32) : f.Extends (f.enter word line) :=
  ⟨rfl, rfl, rfl, rfl, id, List.prefix_append _ _, [], .of_declared (List.append_nil _).symm rfl⟩

/-- A variable whose name is free is added to the table and to the signature together, and one whose name
is taken to neither. -/
lemma declare (f : Frame) (v : Variable) : f.Extends (f.declare v) := by
  by_cases hv : f.locals.contains v.name = true
  · rw [Frame.declare, if_pos hv]
    exact refl f
  · rw [Frame.declare, if_neg hv]
    refine ⟨rfl, rfl, rfl, rfl, id, List.prefix_refl _, [v], .of_declared rfl ?_⟩
    have hfree : f.locals.contains (nameOf v) = false := Bool.eq_false_iff.2 hv
    rw [List.foldlM_cons, Table.declare_of_not_contains hfree]
    rfl

end Extends

end Frame

/-! ## Walks -/

namespace Walk

variable {w v x : Walk}

/-- One state of a walk is another one after some walking: of the analysis only the diagnostics were
extended, and the function that is walked through, if there is one, is the same, with more recorded. -/
structure Extends (w v : Walk) : Prop where
  globals : v.checker.tables.globals = w.checker.tables.globals
  functions : v.checker.tables.functions = w.checker.tables.functions
  hasMain : v.checker.hasMain = w.checker.hasMain
  reached : v.checker.reached = w.checker.reached
  diagnostics : w.checker.diagnostics <+: v.checker.diagnostics
  frame : Option.Rel Frame.Extends w.frame v.frame

/-- What only changes the function that is walked through extends it if the change does. -/
lemma extends_of_frame (c : Checker) {f g : Option Frame} (h : Option.Rel Frame.Extends f g) :
    Extends ⟨c, f⟩ ⟨c, g⟩ :=
  ⟨rfl, rfl, rfl, rfl, List.prefix_refl _, h⟩

lemma Extends.refl (w : Walk) : w.Extends w := by
  rcases w with ⟨c, _ | f⟩
  · exact extends_of_frame c .none
  · exact extends_of_frame c (.some (.refl f))

lemma Extends.trans (h : w.Extends v) (h' : v.Extends x) : w.Extends x := by
  refine ⟨h'.globals.trans h.globals, h'.functions.trans h.functions, h'.hasMain.trans h.hasMain,
    h'.reached.trans h.reached, h.diagnostics.trans h'.diagnostics, ?_⟩
  have hframe := h.frame
  have hframe' := h'.frame
  generalize w.frame = f, v.frame = g, x.frame = k at hframe hframe'
  cases hframe with
  | none => exact hframe'
  | some hfg =>
    cases hframe' with
    | some hgk => exact .some (hfg.trans hgk)

lemma Extends.found (h : w.Extends v) (ds : List Diagnostic) : w.Extends (v.found ds) :=
  ⟨h.globals, h.functions, h.hasMain, h.reached, h.diagnostics.trans (List.prefix_append _ _), h.frame⟩

lemma Extends.reportAll (h : w.Extends v) (line : UInt32) (errors : List SemanticError) :
    w.Extends (v.reportAll line errors) := by
  rw [reportAll_eq_found]
  exact h.found _

lemma extends_record (w : Walk) {change : Signature → Signature}
    (h : ∀ f : Frame, f.Extends { f with signature := change f.signature }) :
    w.Extends (w.record change) := by
  rcases w with ⟨c, _ | f⟩
  · exact extends_of_frame c .none
  · exact extends_of_frame c (.some (h f))

/-! ### Expressions -/

lemma extends_visit (w : Walk) (nodes : List Expr) : w.Extends (w.visit nodes) := by
  have hfound : w.Extends (w.found (w.scope.findings nodes)) := (Extends.refl w).found _
  exact hfound.trans (extends_record _ fun f => .noteCalls f nodes)

lemma extends_expression (w : Walk) (e : Expr) : w.Extends (w.expression e) := by
  rw [expression_eq]
  exact extends_visit w _

lemma Extends.expression? (h : w.Extends v) (e : Option Expr) : w.Extends (v.expression? e) := by
  rw [expression?_eq]
  exact h.trans (extends_visit v _)

/-! ### Steps -/

lemma extends_declaration (w : Walk) (d : VarDecl) : w.Extends (w.declaration d) := by
  rcases w with ⟨c, _ | f⟩
  -- without a function to record it in, a declaration is passed over
  · exact .refl _
  · have hdeclare : Extends ⟨c, some f⟩ (declare ⟨c, some f⟩ f d) := by
      rw [declare_eq]
      exact (extends_of_frame c (.some (.declare f (declared d)))).found _
    exact (hdeclare.reportAll _ _).expression? _

lemma extends_assignment (w : Walk) (a : Assignment) : w.Extends (w.assignment a) :=
  ((Extends.refl w).reportAll _ _).expression? _

lemma extends_returning (w : Walk) (value : Option Expr) (line : UInt32) :
    w.Extends (w.returning value line) := by
  rcases w with ⟨c, _ | f⟩
  · exact (Extends.refl _).found [_]
  · exact ((Extends.refl _).reportAll _ _).expression? _

/-- A step of the walk only extends what it is given. -/
theorem extends_step (w : Walk) (s : Step) : w.Extends (w.step s) := by
  cases s with
  | declare d => exact extends_declaration w d
  | assign a => exact extends_assignment w a
  | evaluate e => exact extends_expression w e
  | control word line =>
    rw [step, control]
    exact extends_record w fun f => Frame.Extends.enter f word line
  | returning value line => exact extends_returning w value line

/-- However many steps are taken, what was there is only extended. -/
theorem extends_foldl_step (w : Walk) (steps : List Step) : w.Extends (steps.foldl step w) := by
  induction steps generalizing w with
  | nil => exact .refl w
  | cons s steps ih => exact (extends_step w s).trans (ih (w.step s))

end Walk

/-! ## Inside a function -/

namespace Checker

/-- What is known of a function when its body is entered: what the table tells, or else its header. -/
def known (c : Checker) (f : FunctionDef) : Signature :=
  (c.tables.functions.find? f.name).getD (.ofDefinition f)

/-- When the body of a function is entered, its parameters are declared and nothing else. -/
lemma frame_enter (c : Checker) (f : FunctionDef) :
    (c.enter f).frame = some (startFrame (c.known f) f) := by
  have hparameters : ∀ d : Checker,
      (f.parameters.foldl enterParameter ⟨d, some ⟨c.known f, .ofList []⟩⟩).frame =
        some (startFrame (c.known f) f) := by
    intro d
    have h := foldl_enterParameter_eq (c := d) (c.known f) [] f.parameters
    rw [List.map_nil, List.nil_append] at h
    rw [h]
    rfl
  exact hparameters _

/-- The frame of a function when some steps of its body were taken. -/
def frameAt (c : Checker) (f : FunctionDef) (n : ℕ) : Option Frame :=
  ((f.steps.take n).foldl Walk.step (c.enter f)).frame

/-- After all steps it is the frame that the walk through the function ends with. -/
lemma frame_walkFunction (c : Checker) (f : FunctionDef) :
    (c.walkFunction f).frame = c.frameAt f f.steps.length := by
  rw [walkFunction_eq_foldl, frameAt, List.take_length]

/-- All through the body of a function, the frame extends the one with which the body was entered. -/
lemma exists_frameAt (c : Checker) (f : FunctionDef) (n : ℕ) :
    ∃ g, c.frameAt f n = some g ∧ (startFrame (c.known f) f).Extends g := by
  have h := (Walk.extends_foldl_step (c.enter f) (f.steps.take n)).frame
  rw [frame_enter] at h
  rw [frameAt]
  generalize ((f.steps.take n).foldl Walk.step (c.enter f)).frame = k at h
  cases h with
  | some hg => exact ⟨_, rfl, hg⟩

end Checker

namespace Walk

/-- The walk touches only what it owns.  Whatever the state of the analysis, and with a function or without,
walking through a statement, a block, an expression or a call extends the state: the tables and what was
reached stay, diagnostics are appended, and the frame keeps its header, stays recursive, and gains control
structures and variables, the latter in the signature and in the table alike.  So all through the walk of a
function the table of local variables holds the first occurrences of its parameters and then what was added
to the variables of its signature; and in the analysis of a program, where these are none at first, all
the variables of the signature. -/
theorem extends_walks :
    (∀ w : Walk, (∀ s : Stmt, w.Extends (w.statement s)) ∧ (∀ b : Block, w.Extends (w.block b)) ∧
      (∀ e : Expr, w.Extends (w.expression e)) ∧ ∀ c : Call, w.Extends (w.call c)) ∧
    (∀ (c : Checker) (f : FunctionDef),
      (c.walkFunction f).frame = c.frameAt f f.steps.length ∧
      ∀ n, ∃ g added, c.frameAt f n = some g ∧
        g.signature.locals = (c.known f).locals ++ added ∧
        g.locals.toList = Table.firsts (f.parameters.map Parameter.toVariable) ++ added) ∧
    ∀ (p : Program) (before after : List Item) (f : FunctionDef),
      p.items = before ++ .function f :: after → f.name ∉ functionNames before →
      ∀ n, ∃ g, (p.stateAfter before).frameAt f n = some g ∧
        g.locals.toList =
          Table.firsts (f.parameters.map Parameter.toVariable) ++ g.signature.locals := by
  have hframe : ∀ (c : Checker) (f : FunctionDef) (n : ℕ), ∃ g added, c.frameAt f n = some g ∧
      g.signature.locals = (c.known f).locals ++ added ∧
      g.locals.toList = Table.firsts (f.parameters.map Parameter.toVariable) ++ added := by
    intro c f n
    obtain ⟨g, hg, hextends⟩ := c.exists_frameAt f n
    obtain ⟨added, hadded⟩ := hextends.locals
    refine ⟨g, added, hg, hadded.recorded, ?_⟩
    rw [← Table.toList_ofList]
    exact hadded.entries
  refine ⟨fun w => ⟨fun s => ?_, fun b => ?_, extends_expression w, fun c => ?_⟩,
    fun c f => ⟨c.frame_walkFunction f, hframe c f⟩, fun p before after f hp hf n => ?_⟩
  · rw [statement_eq]
    exact extends_foldl_step w _
  · rw [block, statements_eq]
    exact extends_foldl_step w _
  · exact extends_expression w _
  · -- until its definition is reached, no variable is recorded for a function
    have hknown : (p.stateAfter before).known f = .ofDefinition f := by
      rw [Checker.known, (Checker.recorded_stateAfter hp).find?_of_not_mem hp hf, Option.getD_some]
    obtain ⟨g, added, hg, hrecorded, hentries⟩ := hframe (p.stateAfter before) f n
    rw [hknown] at hrecorded
    refine ⟨g, hg, ?_⟩
    rw [hrecorded]
    exact hentries

/-- A program with one function, which has a repeated parameter and declares two variables, one of them
under a name that is taken. -/
def crowded : Program :=
  let body : List Stmt := [.declaration ⟨"a", .bool, false, none, default⟩,
    .declaration ⟨"b", .int, true, some (.symbol "b" default), default⟩]
  ⟨[.function ⟨"f", .void, [⟨"a", .int, default⟩, ⟨"a", .float, default⟩], ⟨body, default⟩, default⟩],
    default⟩

/-- After both declarations one variable is recorded. -/
theorem extends_walks_crowded :
    ∃ f after, crowded.items = [] ++ .function f :: after ∧ f.name ∉ functionNames [] ∧
      ∃ g, (crowded.stateAfter []).frameAt f 2 = some g ∧
        g.signature.locals = [⟨"b", .int, some "b", true⟩] ∧
        g.locals.toList = ⟨"a", .int, none, false⟩ :: g.signature.locals := by
  obtain ⟨-, -, hprogram⟩ := extends_walks
  obtain ⟨g, hg, hentries⟩ := hprogram crowded [] [] _ rfl List.not_mem_nil 2
  refine ⟨_, _, rfl, List.not_mem_nil, g, hg, ?_, hentries⟩
  have hlocals : ∀ f, crowded.items = [.function f] →
      ((crowded.stateAfter []).frameAt f 2).map (·.signature.locals) =
        some [⟨"b", .int, some "b", true⟩] := by
    rintro f ⟨⟩
    decide +kernel
  have h := hlocals _ rfl
  rw [hg] at h
  exact Option.some.inj h

end Walk

end LangCheck
