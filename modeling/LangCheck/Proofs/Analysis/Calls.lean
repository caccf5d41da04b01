import LangCheck.Proofs.Analysis.Sites
import LangCheck.Proofs.Analysis.Typing

/-!
# The verdict on each call

Every call in a body is judged by itself: by the function that its name refers to, the number of its
arguments and their types where the call stands (`Context.verdict`).  The main result
(`Program.diagnostics_call_eq_verdicts`) says that what the analysis finds about calls is the verdict on
each call of each body, once and in the order of the source, an outer call before those in its
arguments.
-/

namespace LangCheck

/-! ## Calls and verdicts -/

/-- The call that an expression is. -/
def Expr.call? : Expr → Option Call
  | .call callee arguments span => some ⟨callee, arguments, span⟩
  | _ => none

/-- The calls in a step, at any depth, each before those in its arguments. -/
def Step.calls (s : Step) : List Call := (nodesOf s.value?).filterMap Expr.call?

namespace Context

/-- What is wrong with the arguments of a call of a function that has as many parameters: for each
argument whose type the type of its parameter does not accept, its place, counted from 1. -/
def argumentVerdicts (Γ : Context) (c : Call) (f : FunctionDef) : List SemanticError :=
  ((f.parameters.zip c.arguments).zipIdx 1).filterMap fun ((q, argument), place) =>
    if q.ty.accepts (Γ.scope.typeOf argument) then none
    else some (.argumentTypeMismatch c.callee place q.ty (Γ.scope.typeOf argument))

/-- The verdict on a call.  The main function cannot be called, and other functions must be defined
somewhere in the program; arguments are looked at only if there are as many as parameters. -/
def verdict (Γ : Context) (c : Call) : List SemanticError :=
  if c.callee = mainName then [.mainCalled]
  else match Γ.findFunction? c.callee with
    | none => [.undefinedFunction c.callee]
    | some f =>
      if c.arguments.length ≠ f.parameters.length then
        [.argumentCountMismatch c.callee f.parameters.length c.arguments.length]
      else Γ.argumentVerdicts c f

variable {Γ : Context}

/-- Arguments are judged one after the other, the places counting on from any first one. -/
lemma argumentErrors_eq_filterMap (callee : String) (qs : List Parameter) (arguments : List Expr)
    (place : ℕ) :
    Γ.scope.argumentErrors callee place (qs.map (·.ty)) arguments =
      ((qs.zip arguments).zipIdx place).filterMap fun ((q, argument), place) =>
        if q.ty.accepts (Γ.scope.typeOf argument) then none
        else some (.argumentTypeMismatch callee place q.ty (Γ.scope.typeOf argument)) := by
  induction qs generalizing arguments place with
  | nil => rfl
  | cons q qs ih =>
    cases arguments with
    | nil => rfl
    | cons argument arguments =>
      rw [List.map_cons, Scope.argumentErrors, List.zip_cons_cons, List.zipIdx_cons,
        List.filterMap_cons, ih]
      by_cases h : q.ty.accepts (Γ.scope.typeOf argument) = true
      · simp only [if_pos h]
      · simp only [if_neg h]

/-- What is found at a call is the verdict on it. -/
lemma callErrors_scope (c : Call) : Γ.scope.callErrors c.callee c.arguments = Γ.verdict c := by
  unfold Scope.callErrors verdict
  by_cases hmain : c.callee = mainName
  · rw [if_pos hmain, if_pos hmain]
  rw [if_neg hmain, if_neg hmain, findFunction?_scope]
  rcases Γ.findFunction? c.callee with _ | f
  · rfl
  · simp only [Option.map_some, parameterTypes_ofDefinition, length_parameters_ofDefinition]
    by_cases hlen : f.parameters.length = c.arguments.length
    · rw [if_pos hlen, if_neg (not_not.2 hlen.symm)]
      exact argumentErrors_eq_filterMap c.callee f.parameters c.arguments 1
    · rw [if_neg hlen, if_pos (Ne.symm hlen)]

end Context

/-! ## What is found about calls -/

section Found

variable {Γ Δ : Context}

/-- A rule about calls is about no other construct. -/
lemma Construct.dropped_of_ne_call {c : Construct} (hc : c ≠ .call) :
    c.Dropped Construct.call.reports := by
  intro error h
  cases error with
  | mainCalled | undefinedFunction name | argumentCountMismatch f m n
  | argumentTypeMismatch f place s t => cases c <;> first | exact absurd rfl hc | cases h
  | _ => rfl

/-- Of what is found at the nodes of an expression, the verdicts on its calls are about calls. -/
lemma filter_call_findings (nodes : List Expr) :
    ((Γ.scope.findings nodes).filter fun d => Construct.call.reports d.error) =
      (nodes.filterMap Expr.call?).flatMap fun c =>
        Diagnostic.allOn c.span.line (Γ.verdict c) := by
  induction nodes with
  | nil => rfl
  | cons e nodes ih =>
    rw [Scope.findings_cons, List.filter_append, ih]
    cases e with
    | call callee arguments span =>
      have hkept : ((Diagnostic.allOn span.line (Γ.scope.callErrors callee arguments)).filter
          fun d => Construct.call.reports d.error) =
          Diagnostic.allOn span.line (Γ.verdict ⟨callee, arguments, span⟩) := by
        rw [← Γ.callErrors_scope, List.filter_eq_self]
        intro d hd
        obtain ⟨error, herror, rfl⟩ := List.mem_map.1 hd
        exact reports_of_mem_callErrors herror
      rw [List.filterMap_cons, Expr.call?, List.flatMap_cons]
      exact congrArg (· ++ _) hkept
    | symbol name span =>
      have hdropped : Construct.symbol.Dropped Construct.call.reports :=
        Construct.dropped_of_ne_call (by decide)
      rw [hdropped.filter_allOn, List.nil_append]
      · rfl
      · intro error herror
        simp only [Scope.nodeErrors] at herror
        split at herror
        · cases herror
        · rw [List.mem_singleton.1 herror]
          rfl
    | _ => rfl

/-- What is found at a site about calls are the verdicts on the calls in its step. -/
lemma filter_call_stepFindings (f : Signature) (s : Step) :
    ((stepFindings Δ.scope Γ.scope f s).filter fun d => Construct.call.reports d.error) =
      s.calls.flatMap fun c => Diagnostic.allOn c.span.line (Γ.verdict c) := by
  have hdropped {c : Construct} (hc : c ≠ .call) := Construct.dropped_of_ne_call hc
  rw [filter_stepFindings (hdropped (by decide)) (hdropped (by decide)), filter_call_findings,
    List.flatMap_eq_nil_iff.2 fun a _ =>
      (hdropped (by decide)).filter_allOn fun _ h => reports_of_mem_assignmentErrors h]
  rfl

end Found

/-- What is found about calls is the verdict on each call of each body: function by function, of several
of one name the first, step by step, and in each step from the outer calls to the inner ones. -/
theorem Program.diagnostics_call_eq_verdicts (p : Program) :
    (p.analyse.diagnostics.filter fun d => Construct.call.reports d.error) =
      p.sites.flatMap fun s => s.step.calls.flatMap fun c =>
        Diagnostic.allOn c.span.line ((s.context p).verdict c) := by
  rw [p.filter_diagnostics_analyse]
  · congr 1
    funext s
    exact filter_call_stepFindings _ s.step
  · rintro c hc
    exact Construct.dropped_of_ne_call (by rintro rfl; cases hc)

end LangCheck
