import LangCheck.Analysis.Diagnostic
import LangCheck.Analysis.Resolve

/-!
# Walking through statements and expressions

The walk goes through a function's body in the order of the source.  It appends what it finds to the
diagnostics, and it records what the body declares in the frame of the function.  Outside any
function it still checks names and calls, but has nowhere to put declarations.
-/

namespace LangCheck

/-- What the analysis of a program knows and has found so far. -/
structure Checker where
  /-- The tables of the program. -/
  tables : SymbolTables
  /-- What was found, in the order in which it was found. -/
  diagnostics : List Diagnostic
  /-- Whether a definition of the main function was walked through. -/
  hasMain : Bool
  /-- The names of the functions whose definition was reached. -/
  reached : List String
deriving Inhabited

/-- The function that is being walked through. -/
structure Frame where
  /-- What is known of the function. -/
  signature : Signature
  /-- Its parameters and the variables declared so far. -/
  locals : Variables
deriving Inhabited

namespace Frame

/-- The frame of a function before its parameters are declared. -/
def ofSignature (s : Signature) : Frame := ⟨s, .empty⟩

/-- Declares a parameter as a local variable. -/
def declareParameter (f : Frame) (p : Formal) : Except DuplicateName Frame :=
  match f.locals.declare ⟨p.name, p.ty, none, false⟩ with
  | .ok locals => .ok { f with locals := locals }
  | .error e => .error e

end Frame

/-- The state of a walk. -/
structure Walk where
  /-- What the analysis knows. -/
  checker : Checker
  /-- The function that is walked through, if any. -/
  frame : Option Frame
deriving Inhabited

namespace Checker

/-- The analysis before it has seen anything. -/
def empty : Checker := ⟨.empty, [], false, []⟩

/-- Appends a finding. -/
def report (c : Checker) (line : UInt32) (error : SemanticError) : Checker :=
  { c with diagnostics := c.diagnostics ++ [⟨line, error⟩] }

end Checker

namespace Walk

/-- What is visible at this point of the walk. -/
def scope (w : Walk) : Scope := w.checker.tables.scope (w.frame.map (·.locals))

/-- Appends a finding. -/
def report (w : Walk) (line : UInt32) (error : SemanticError) : Walk :=
  { w with checker := w.checker.report line error }

/-- Appends findings on one line, in order. -/
def reportAll (w : Walk) (line : UInt32) (errors : List SemanticError) : Walk :=
  errors.foldl (·.report line ·) w

/-- Changes the signature of the function that is walked through. -/
def record (w : Walk) (change : Signature → Signature) : Walk :=
  { w with frame := w.frame.map fun f => { f with signature := change f.signature } }

end Walk

/-! ## What is wrong with a single construct -/

/-- The arguments that do not fit their parameters, where the first argument has the given place. -/
def Scope.argumentErrors (s : Scope) (callee : String) :
    Nat → List Ty → List Expr → List SemanticError
  | place, expected :: types, argument :: arguments =>
    let received := s.typeOf argument
    let rest := s.argumentErrors callee (place + 1) types arguments
    if expected.accepts received then rest
    else .argumentTypeMismatch callee place expected received :: rest
  | _, _, _ => []

/-- What is wrong with a call itself.  Types are compared only if the number of arguments fits. -/
def Scope.callErrors (s : Scope) (callee : String) (arguments : List Expr) : List SemanticError :=
  if callee = mainName then [.mainCalled]
  else match s.findFunction? callee with
    | none => [.undefinedFunction callee]
    | some f =>
      if f.parameters.length = arguments.length then
        s.argumentErrors callee 1 f.parameterTypes arguments
      else [.argumentCountMismatch callee f.parameters.length arguments.length]

/-- What is wrong with the initialiser of a declaration. -/
def Scope.initializerErrors (s : Scope) (d : VarDecl) : List SemanticError :=
  match d.value with
  | none => []
  | some value =>
    let received := s.typeOf value
    if d.ty.accepts received then [] else [.initializerMismatch d.name d.ty received]

/-- What is wrong with an assignment itself. -/
def Scope.assignmentErrors (s : Scope) (a : Assignment) : List SemanticError :=
  match s.findVariable? a.target with
  | none => [.undeclaredVariable a.target]
  | some v =>
    let constant := if v.isConst then [.constAssignment v.name] else []
    let mismatch := match a.op.takesValue, a.value with
      | true, some value =>
        let received := s.typeOf value
        if v.ty.accepts received then [] else [.assignmentMismatch v.name v.ty received]
      | _, _ => []
    constant ++ mismatch

/-- What is wrong with a `return` in a function. -/
def Scope.returnErrors (s : Scope) (f : Signature) : Option Expr → List SemanticError
  | none => if f.returns = .void then [] else [.missingReturnValue f.name f.returns]
  | some value =>
    if f.returns = .void then [.voidReturnsValue f.name]
    else
      let received := s.typeOf value
      if f.returns.accepts received then [] else [.returnTypeMismatch f.returns received]

namespace Walk

/-! ## Expressions -/

/-- Records a call: the function that is walked through is recursive if it calls itself.  A call of
the main function is an error and does not count. -/
def noteCall (w : Walk) (callee : String) : Walk :=
  if callee = mainName then w
  else w.record fun s => { s with isRecursive := s.isRecursive || s.name == callee }

mutual

/-- Walks through an expression: its names must be declared, and its calls must fit. -/
def expression (w : Walk) : Expr → Walk
  | .binary _ left right _ => (w.expression left).expression right
  | .unary _ operand _ => w.expression operand
  | .literal _ _ => w
  | .symbol name span =>
    if (w.scope.findVariable? name).isSome then w else w.report span.line (.undeclaredVariable name)
  | .call callee arguments span =>
    ((w.reportAll span.line (w.scope.callErrors callee arguments)).noteCall callee).expressions
      arguments
  | .group inner _ => w.expression inner

/-- Walks through expressions, in order. -/
def expressions (w : Walk) : List Expr → Walk
  | [] => w
  | e :: es => (w.expression e).expressions es

end

/-- Walks through an expression if there is one. -/
def expression? (w : Walk) : Option Expr → Walk
  | none => w
  | some e => w.expression e

/-- Walks through a call. -/
def call (w : Walk) (c : Call) : Walk := w.expression c.toExpr

/-! ## Statements -/

/-- Records a control structure of the function that is walked through. -/
def control (w : Walk) (word : String) (line : UInt32) : Walk :=
  w.record fun s =>
    { s with controls := s.controls ++ [word ++ " (linia " ++ toString line ++ ")"] }

/-- The variable that a declaration declares. -/
def declared (d : VarDecl) : Variable := ⟨d.name, d.ty, d.value.map (·.render), d.isConst⟩

/-- Declares a local variable of the function that is walked through.  A name that is taken is
reported, and the variable of that name stays as it is. -/
def declare (w : Walk) (f : Frame) (d : VarDecl) : Walk :=
  match f.locals.declare (declared d) with
  | .ok locals =>
    let signature := { f.signature with locals := f.signature.locals ++ [declared d] }
    { w with frame := some ⟨signature, locals⟩ }
  | .error e => w.report d.span.line (.duplicateLocal e.name)

/-- Walks through a declaration; outside a function it is passed over.  The variable is visible in
its own initialiser, which is checked even if the name is taken. -/
def declaration (w : Walk) (d : VarDecl) : Walk :=
  match w.frame with
  | none => w
  | some f =>
    let w := w.declare f d
    (w.reportAll d.span.line (w.scope.initializerErrors d)).expression? d.value

/-- Walks through an assignment. -/
def assignment (w : Walk) (a : Assignment) : Walk :=
  (w.reportAll a.span.line (w.scope.assignmentErrors a)).expression? a.value

/-- Walks through a `return`.  Outside a function nothing but the `return` itself is reported. -/
def returning (w : Walk) (value : Option Expr) (line : UInt32) : Walk :=
  match w.frame with
  | none => w.report line .returnOutsideFunction
  | some f => (w.reportAll line (w.scope.returnErrors f.signature value)).expression? value

mutual

/-- Walks through a statement. -/
def statement (w : Walk) : Stmt → Walk
  | .declaration d => w.declaration d
  | .assignment a => w.assignment a
  | .call c => w.call c
  | .conditional condition ⟨thenBody, _⟩ none span =>
    ((w.control "if" span.line).expression condition).statements thenBody
  | .conditional condition ⟨thenBody, _⟩ (some ⟨elseBody, _⟩) span =>
    (((w.control "if" span.line).expression condition).statements thenBody).statements elseBody
  | .whileLoop condition ⟨body, _⟩ span =>
    ((w.control "while" span.line).expression condition).statements body
  | .forLoop init condition update ⟨body, _⟩ span =>
    ((((w.control "for" span.line).statement? init).expression? condition).statement?
      update).statements body
  | .returning value span => w.returning value span.line

/-- Walks through a statement if there is one. -/
def statement? (w : Walk) : Option Stmt → Walk
  | none => w
  | some s => w.statement s

/-- Walks through statements, in order. -/
def statements (w : Walk) : List Stmt → Walk
  | [] => w
  | s :: ss => (w.statement s).statements ss

end

/-- Walks through a block. -/
def block (w : Walk) (b : Block) : Walk := w.statements b.body

end Walk

end LangCheck
