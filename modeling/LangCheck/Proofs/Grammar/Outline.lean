import LangCheck.Proofs.Grammar.SyntaxErrors
import LangCheck.Proofs.Token.Lines
import Mathlib.Data.List.Chain

/-!
# The outline of a program

The nodes of a program and their spans make a tree (`Program.outline`).  In a program that was read from
tokens each node is written with a stretch of them, and its parts with stretches of this stretch, one behind
the other (`Outline.Placed`).  So if the tokens lie on ascending lines, the spans are nested and ordered as
the nodes are (`Program.outline_inOrder`).
-/

namespace LangCheck

open Grammar Placement

/-- The span of a node, and the outlines of its parts in the order of the source. -/
inductive Outline where
  | node (span : Span) (parts : List Outline)
deriving Repr, Inhabited

namespace Outline

/-- The span of the outermost node. -/
def span : Outline → Span
  | node span _ => span

/-- Every node starts on a line not behind that on which it ends, it lies within the lines of the node that
it is a part of, and it ends on a line not behind that on which a later part of this node starts. -/
inductive InOrder : Outline → Prop
  | node {span : Span} {parts : List Outline} (hspan : span.start.line ≤ span.stop.line)
      (hinside : ∀ part ∈ parts,
        span.start.line ≤ part.span.start.line ∧ part.span.stop.line ≤ span.stop.line)
      (hsiblings : parts.Pairwise fun first second => first.span.stop.line ≤ second.span.start.line)
      (hparts : ∀ part ∈ parts, part.InOrder) : InOrder (node span parts)

end Outline

/-! ## The outlines of nodes -/

namespace Expr

mutual

/-- The outline of an expression. -/
def outline : Expr → Outline
  | .binary _ left right span => .node span [left.outline, right.outline]
  | .unary _ operand span => .node span [operand.outline]
  | .literal _ span | .symbol _ span => .node span []
  | .call _ arguments span => .node span (outlines arguments)
  | .group inner span => .node span [inner.outline]

/-- The outlines of several expressions. -/
def outlines : List Expr → List Outline
  | [] => []
  | e :: es => e.outline :: outlines es

end

end Expr

/-- The outline of a declaration. -/
def VarDecl.outline (d : VarDecl) : Outline := .node d.span (d.value.toList.map Expr.outline)

/-- The outline of an assignment. -/
def Assignment.outline (a : Assignment) : Outline := .node a.span (a.value.toList.map Expr.outline)

namespace Stmt

mutual

/-- The outline of a statement. -/
def outline : Stmt → Outline
  | .declaration d => d.outline
  | .assignment a => a.outline
  | .call c => c.toExpr.outline
  | .conditional condition ⟨thenBody, thenSpan⟩ none span =>
    .node span [condition.outline, .node thenSpan (outlines thenBody)]
  | .conditional condition ⟨thenBody, thenSpan⟩ (some ⟨elseBody, elseSpan⟩) span =>
    .node span [condition.outline, .node thenSpan (outlines thenBody),
      .node elseSpan (outlines elseBody)]
  | .whileLoop condition ⟨body, bodySpan⟩ span =>
    .node span [condition.outline, .node bodySpan (outlines body)]
  | .forLoop init condition update ⟨body, bodySpan⟩ span =>
    .node span (outline? init ++ (condition.toList.map Expr.outline ++
      (outline? update ++ [.node bodySpan (outlines body)])))
  | .returning value span => .node span (value.toList.map Expr.outline)

/-- The outline of a statement if there is one. -/
def outline? : Option Stmt → List Outline
  | none => []
  | some s => [s.outline]

/-- The outlines of several statements. -/
def outlines : List Stmt → List Outline
  | [] => []
  | s :: ss => s.outline :: outlines ss

end

end Stmt

/-- The outline of a block. -/
def BlockOf.outline (b : Block) : Outline := .node b.span (Stmt.outlines b.body)

namespace Stmt

lemma outline_conditional (condition : Expr) (thenBlock : Block) (elseBlock : Option Block) (span : Span) :
    (conditional condition thenBlock elseBlock span).outline =
      .node span ([condition.outline] ++ ([thenBlock.outline] ++ elseBlock.toList.map BlockOf.outline)) := by
  rcases elseBlock with _ | elseBlock <;> simp [outline, BlockOf.outline]

lemma outline_whileLoop (condition : Expr) (body : Block) (span : Span) :
    (whileLoop condition body span).outline = .node span ([condition.outline] ++ [body.outline]) := by
  rw [outline]
  rfl

lemma outline_forLoop (init : Option Stmt) (condition : Option Expr) (update : Option Stmt) (body : Block)
    (span : Span) : (forLoop init condition update body span).outline = .node span
      ((outline? init ++ (condition.toList.map Expr.outline ++ outline? update)) ++ [body.outline]) := by
  rw [outline, List.append_assoc, List.append_assoc]
  rfl

end Stmt

/-- The outline of a parameter. -/
def Parameter.outline (q : Parameter) : Outline := .node q.span []

/-- The outline of an item. -/
def Item.outline : Item → Outline
  | .global d => .node d.span []
  | .function f => .node f.span (f.parameters.map Parameter.outline ++ [f.body.outline])

/-- The outline of a program. -/
def Program.outline (p : Program) : Outline := .node p.span (p.items.map Item.outline)

/-! ## Outlines along tokens -/

namespace Outline

mutual

/-- A node is written with some tokens: it spans them, and its parts are written along them. -/
inductive Placed : List Token → Outline → Prop
  | node {ts : List Token} {span : Span} {parts : List Outline} :
      ts ≠ [] → span = .covering ts → AllPlaced ts parts → Placed ts (node span parts)

/-- Nodes are written along some tokens, one behind the other, each with a stretch of them. -/
inductive AllPlaced : List Token → List Outline → Prop
  | nil {ts : List Token} : AllPlaced ts []
  | pass {t : Token} {ts : List Token} {parts : List Outline} : AllPlaced ts parts → AllPlaced (t :: ts) parts
  | part {ts us : List Token} {o : Outline} {parts : List Outline} :
      Placed ts o → AllPlaced us parts → AllPlaced (ts ++ us) (o :: parts)

end

variable {ts us : List Token} {o : Outline} {os ps : List Outline}

lemma Placed.ne_nil (h : Placed ts o) : ts ≠ [] := by
  cases h
  assumption

lemma Placed.span_eq (h : Placed ts o) : o.span = .covering ts := by
  cases h
  assumption

lemma AllPlaced.of_right (ts : List Token) (h : AllPlaced us os) : AllPlaced (ts ++ us) os := by
  induction ts with
  | nil => exact h
  | cons t ts ih => exact .pass ih

theorem AllPlaced.append : ∀ {ts : List Token} {os : List Outline}, AllPlaced ts os → AllPlaced us ps →
    AllPlaced (ts ++ us) (os ++ ps)
  | ts, _, .nil, h' => h'.of_right ts
  | _, _, .pass h, h' => .pass (h.append h')
  | _, _, .part ho h, h' => by
    rw [List.append_assoc]
    exact .part ho (h.append h')

lemma AllPlaced.of_left (us : List Token) (h : AllPlaced ts os) : AllPlaced (ts ++ us) os := by
  have := h.append (@nil us)
  rwa [List.append_nil] at this

lemma Placed.single (h : Placed ts o) : AllPlaced ts [o] := by
  have := AllPlaced.part h (@AllPlaced.nil [])
  rwa [List.append_nil] at this

end Outline

/-! ### Lines -/

/-- No token ends before it starts, and none starts before the one in front of it ends. -/
def LinesInOrder (ts : List Token) : Prop :=
  (∀ t ∈ ts, t.span.start.line ≤ t.span.stop.line) ∧
    ts.IsChain fun t u => t.span.stop.line ≤ u.span.start.line

lemma linesInOrder_iff {ts : List Token} : LinesInOrder ts ↔ (tokenLines ts).Pairwise (· ≤ ·) := by
  have hchain : LinesInOrder ts ↔ (tokenLines ts).IsChain (· ≤ ·) := by
    induction ts with
    | nil => simp [LinesInOrder, tokenLines]
    | cons t ts ih =>
      cases ts with
      | nil => simp [LinesInOrder, tokenLines]
      | cons u us =>
        rw [LinesInOrder] at ih
        rw [LinesInOrder, List.forall_mem_cons, List.isChain_cons_cons, tokenLines_cons, tokenLines_cons,
          List.isChain_cons_cons, List.isChain_cons_cons, ← tokenLines_cons, ← ih]
        tauto
  rw [hchain, List.isChain_iff_pairwise]

namespace Outline

variable {ts us : List Token} {o : Outline} {os : List Outline}

section Lines

variable (hlines : (tokenLines ts).Pairwise (· ≤ ·)) (hts : ts ≠ [])
include hlines hts

/-- The first line of some tokens is the first of their lines. -/
lemma start_le_of_mem {line : UInt32} (hline : line ∈ tokenLines ts) :
    (Span.covering ts).start.line ≤ line := by
  obtain ⟨t, ts, rfl⟩ := List.exists_cons_of_ne_nil hts
  rcases List.mem_cons.1 hline with rfl | hline
  · exact UInt32.le_refl _
  · exact List.rel_of_pairwise_cons hlines hline

lemma le_stop_of_mem {line : UInt32} (hline : line ∈ tokenLines ts) :
    line ≤ (Span.covering ts).stop.line := by
  obtain ⟨front, t, rfl⟩ := (List.eq_nil_or_concat ts).resolve_left hts
  rw [List.concat_eq_append] at hline hlines ⊢
  rw [Span.stop_covering_append (List.cons_ne_nil t [])]
  have hlast : tokenLines (front ++ [t]) =
      (tokenLines front ++ [t.span.start.line]) ++ [t.span.stop.line] := by
    simp [tokenLines]
  rw [hlast] at hline hlines
  rcases List.mem_append.1 hline with hline | hline
  · exact (List.pairwise_append.1 hlines).2.2 line hline _ List.mem_cons_self
  · rw [List.mem_singleton.1 hline]
    exact UInt32.le_refl _

end Lines

lemma mem_tokenLines_covering (hts : ts ≠ []) : (Span.covering ts).start.line ∈ tokenLines ts ∧
    (Span.covering ts).stop.line ∈ tokenLines ts := by
  constructor
  · obtain ⟨t, ts, rfl⟩ := List.exists_cons_of_ne_nil hts
    exact List.mem_cons_self
  · obtain ⟨front, t, rfl⟩ := (List.eq_nil_or_concat ts).resolve_left hts
    rw [List.concat_eq_append, Span.stop_covering_append (List.cons_ne_nil t [])]
    simp [tokenLines]

/-- The nodes that are written along some tokens start and end on lines of these. -/
lemma AllPlaced.mem_tokenLines : ∀ {ts : List Token} {os : List Outline}, AllPlaced ts os → ∀ o ∈ os,
    o.span.start.line ∈ tokenLines ts ∧ o.span.stop.line ∈ tokenLines ts
  | _, _, .nil => List.forall_mem_nil _
  | _, _, .pass h => by
    intro o ho
    obtain ⟨hstart, hstop⟩ := h.mem_tokenLines o ho
    rw [tokenLines_cons]
    exact ⟨.tail _ (.tail _ hstart), .tail _ (.tail _ hstop)⟩
  | _, _, .part hfirst h => by
    intro o ho
    rw [tokenLines_append, List.mem_append, List.mem_append]
    rcases List.mem_cons.1 ho with rfl | ho
    · rw [hfirst.span_eq]
      exact (mem_tokenLines_covering hfirst.ne_nil).imp .inl .inl
    · exact (h.mem_tokenLines o ho).imp .inr .inr

/-- Nodes that are written one behind the other are in order if the lines of the tokens are. -/
lemma AllPlaced.pairwise : ∀ {ts : List Token} {os : List Outline}, AllPlaced ts os →
    (tokenLines ts).Pairwise (· ≤ ·) →
      os.Pairwise fun first second => first.span.stop.line ≤ second.span.start.line
  | _, _, .nil, _ => .nil
  | _, _, .pass h, hlines => by
    rw [tokenLines_cons] at hlines
    exact h.pairwise hlines.of_cons.of_cons
  | _, _, .part hfirst h, hlines => by
    rw [tokenLines_append, List.pairwise_append] at hlines
    obtain ⟨-, hrest, hacross⟩ := hlines
    refine List.pairwise_cons.2 ⟨fun o ho => ?_, h.pairwise hrest⟩
    rw [hfirst.span_eq]
    exact hacross _ (mem_tokenLines_covering hfirst.ne_nil).2 _ (h.mem_tokenLines o ho).1

/-- A node is in order if its parts are written along tokens on ascending lines, which it encloses, and are in
order themselves. -/
lemma AllPlaced.node_inOrder {span : Span} (h : AllPlaced ts os)
    (hlines : (tokenLines ts).Pairwise (· ≤ ·)) (hspan : span.start.line ≤ span.stop.line)
    (hstart : ∀ line ∈ tokenLines ts, span.start.line ≤ line)
    (hstop : ∀ line ∈ tokenLines ts, line ≤ span.stop.line) (hos : ∀ o ∈ os, o.InOrder) :
    (node span os).InOrder := by
  refine .node hspan (fun part hpart => ?_) (h.pairwise hlines) hos
  obtain ⟨hfirst, hlast⟩ := h.mem_tokenLines part hpart
  exact ⟨hstart _ hfirst, hstop _ hlast⟩

mutual

/-- A node that is written with tokens on ascending lines is in order, with all its parts. -/
theorem Placed.inOrder : ∀ {ts : List Token} {o : Outline}, Placed ts o →
    (tokenLines ts).Pairwise (· ≤ ·) → o.InOrder
  | _, _, .node hts hspan h, hlines => by
    subst hspan
    have hstart := fun line => @start_le_of_mem _ hlines hts line
    have hstop := fun line => @le_stop_of_mem _ hlines hts line
    exact h.node_inOrder hlines (hstart _ (mem_tokenLines_covering hts).2) hstart hstop (h.inOrder hlines)

theorem AllPlaced.inOrder : ∀ {ts : List Token} {os : List Outline}, AllPlaced ts os →
    (tokenLines ts).Pairwise (· ≤ ·) → ∀ o ∈ os, o.InOrder
  | _, _, .nil, _ => List.forall_mem_nil _
  | _, _, .pass h, hlines => by
    rw [tokenLines_cons] at hlines
    exact h.inOrder hlines.of_cons.of_cons
  | _, _, .part hfirst h, hlines => by
    rw [tokenLines_append, List.pairwise_append] at hlines
    exact List.forall_mem_cons.2 ⟨hfirst.inOrder hlines.1, h.inOrder hlines.2.1⟩

end

end Outline

/-! ## What is spelled is written along its tokens -/

section

open Outline

variable {ts us : List Token}

mutual

theorem Expr.Spelled.placed : ∀ {ts : List Token} {e : Expr}, e.Spelled tight ts → Placed ts e.outline
  | _, _, .literal _ hspan => by
    rw [Expr.outline]
    exact .node (by simp) hspan .nil
  | _, _, .symbol _ hspan => by
    rw [Expr.outline]
    exact .node (by simp) hspan .nil
  | _, _, .call _ _ hes _ hspan => by
    rw [Expr.outline]
    exact .node (by simp) hspan (.pass (.pass (hes.allPlaced.of_left _)))
  | _, _, .group _ he _ hspan => by
    rw [Expr.outline]
    exact .node (by simp) hspan (.pass (he.placed.single.of_left _))
  | _, _, .sign _ _ he hspan => by
    rw [Expr.outline]
    exact .node (by simp) hspan (.pass he.placed.single)
  | _, _, .step _ he _ hspan => by
    rw [Expr.outline]
    exact .node (by simp) hspan (he.placed.single.of_left _)
  | _, _, .binary hl _ hr hspan => by
    rw [Expr.outline]
    exact .node (by simp) hspan (.part hl.placed (.pass hr.placed.single))

theorem Expr.ArgumentsSpelled.allPlaced : ∀ {ts : List Token} {es : List Expr},
    Expr.ArgumentsSpelled tight ts es → AllPlaced ts (Expr.outlines es)
  | _, _, .none => by
    rw [Expr.outlines]
    exact .nil
  | _, _, .last he => by
    rw [Expr.outlines, Expr.outlines]
    exact he.placed.single
  | _, _, .more he _ hes => by
    rw [Expr.outlines]
    exact .part he.placed (.pass hes.allPlaced)

end

lemma Expr.SpelledIfAny.allPlaced {e : Option Expr} (h : Expr.SpelledIfAny tight ts e) :
    AllPlaced ts (e.toList.map Expr.outline) := by
  cases e with
  | none => exact .nil
  | some e => exact (Expr.Spelled.placed h).single

lemma VarDecl.Spelled.placed {d : VarDecl} (h : d.Spelled tight ts) : Placed ts d.outline := by
  refine .node h.ne_nil ?_ ?_
  · rcases h with ⟨-, -, -, -, hspan⟩
    exact hspan
  · rcases h with @⟨cs, vs, word, name, isConst, ty, value, span, -, -, -, hvalue, -⟩
    refine .of_right cs (.pass (.pass ?_))
    cases value with
    | none => exact .nil
    | some e =>
      obtain ⟨t, us, rfl, -, he⟩ := hvalue
      exact .pass he.placed.single

lemma Assignment.Spelled.placed {a : Assignment} (h : a.Spelled tight ts) : Placed ts a.outline := by
  cases h with
  | value _ _ _ he hspan => exact .node (by simp) hspan (.pass (.pass he.placed.single))
  | step _ _ _ hspan => exact .node (by simp) hspan .nil

lemma ConditionSpelled.allPlaced {word : Kind} {e : Expr} (h : ConditionSpelled tight word ts e) :
    AllPlaced ts [e.outline] := by
  obtain ⟨-, -, he, -⟩ := h
  exact .pass (.pass (he.placed.single.of_left _))

lemma InitSpelled.allPlaced {init : Option Stmt} (h : InitSpelled tight ts init) :
    AllPlaced ts (Stmt.outline? init) := by
  cases h with
  | none => exact .nil
  | declaration hd => exact hd.placed.single
  | assignment ha => exact ha.placed.single

lemma UpdateSpelled.allPlaced {update : Option Stmt} (h : UpdateSpelled tight ts update) :
    AllPlaced ts (Stmt.outline? update) := by
  cases h with
  | none => exact .nil
  | assignment ha => exact ha.placed.single

lemma ForSpelled.allPlaced {init update : Option Stmt} {e : Option Expr}
    (h : ForSpelled tight ts init e update) :
    AllPlaced ts (Stmt.outline? init ++ (e.toList.map Expr.outline ++ Stmt.outline? update)) := by
  obtain ⟨-, -, hinit, -, he, -, hupdate, -⟩ := h
  refine .pass (.pass (hinit.allPlaced.append (.pass ?_)))
  exact he.allPlaced.append (.pass (hupdate.allPlaced.of_left _))

mutual

/-- A statement is written along its tokens, the semicolon of a declaration, an assignment and a call left
out. -/
theorem Stmt.Spelled.allPlaced : ∀ {ts : List Token} {s : Stmt}, s.Spelled tight ts → AllPlaced ts [s.outline]
  | _, _, .declaration hd _ => by
    rw [Stmt.outline]
    exact hd.placed.single.of_left _
  | _, _, .assignment ha _ => by
    rw [Stmt.outline]
    exact ha.placed.single.of_left _
  | _, _, .call hcall _ => by
    rw [Stmt.outline]
    exact hcall.placed.single.of_left _
  | _, _, .returning _ he _ hspan => by
    rw [Stmt.outline]
    exact (Placed.node (by simp) hspan (.pass (he.allPlaced.of_left _))).single
  | _, _, .conditional he hthen helse hspan => by
    rw [Stmt.outline_conditional]
    refine (Placed.node (by simp [he.ne_nil]) hspan (he.allPlaced.append ?_)).single
    exact .part hthen.placed helse.allPlaced
  | _, _, .whileLoop he hbody hspan => by
    rw [Stmt.outline_whileLoop]
    exact (Placed.node (by simp [he.ne_nil]) hspan (he.allPlaced.append hbody.placed.single)).single
  | _, _, .forLoop hhead hbody hspan => by
    rw [Stmt.outline_forLoop]
    exact (Placed.node (by simp [hhead.ne_nil]) hspan (hhead.allPlaced.append hbody.placed.single)).single

theorem Stmt.ElseSpelled.allPlaced : ∀ {ts : List Token} {b : Option Block},
    Stmt.ElseSpelled tight ts b → AllPlaced ts (b.toList.map BlockOf.outline)
  | _, _, .none => .nil
  | _, _, .block _ hb => .pass hb.placed.single
  | _, _, .nested _ _ hs hspan => by
    rw [Option.toList_some, List.map_singleton, BlockOf.outline, Stmt.outlines, Stmt.outlines]
    exact .pass (Placed.node hs.ne_nil hspan hs.allPlaced).single

theorem BlockOf.Spelled.placed : ∀ {ts : List Token} {b : Block}, b.Spelled tight ts → Placed ts b.outline
  | _, _, .intro _ hss _ hspan => by
    rw [BlockOf.outline]
    exact .node (by simp) hspan (.pass (hss.allPlaced.of_left _))

theorem Stmt.AllSpelled.allPlaced : ∀ {ts : List Token} {ss : List Stmt}, Stmt.AllSpelled tight ts ss →
    AllPlaced ts (Stmt.outlines ss)
  | _, _, .nil => by
    rw [Stmt.outlines]
    exact .nil
  | _, _, .cons hs hss => by
    rw [Stmt.outlines]
    exact hs.allPlaced.append hss.allPlaced

end

lemma ParametersSpelled.allPlaced {qs : List Parameter} (h : ParametersSpelled tight ts qs) :
    AllPlaced ts (qs.map Parameter.outline) := by
  have hparameter : ∀ {us : List Token} {q : Parameter}, q.Spelled tight us → Placed us q.outline := by
    rintro us q ⟨-, -, hspan⟩
    exact .node (by simp) hspan .nil
  induction h with
  | none => exact .nil
  | last hq => exact (hparameter hq).single
  | more hq _ _ ih => exact .part (hparameter hq) (.pass ih)

lemma Grammar.ItemTaken.placed {item : Item} (h : ItemTaken ts item) : Placed ts item.outline := by
  cases h with
  | global _ _ _ _ _ => exact .node (by simp) rfl .nil
  | function _ _ _ hqs _ _ hbody =>
    refine .node (by simp) rfl (.pass (.pass (.pass ?_)))
    exact hqs.allPlaced.append (.pass hbody.1.placed.single)

lemma Grammar.ItemsTaken.allPlaced {items : List Item} (h : ItemsTaken ts items) :
    AllPlaced ts (items.map Item.outline) := by
  induction h with
  | nil => exact .nil
  | cons hitem _ ih => exact .part hitem.placed ih

end

/-! ## Else blocks -/

namespace Stmt

mutual

/-- The else blocks in a statement, at every depth. -/
def elseBlocks : Stmt → List Block
  | .declaration _ | .assignment _ | .call _ | .returning _ _ => []
  | .conditional _ ⟨thenBody, _⟩ none _ => allElseBlocks thenBody
  | .conditional _ ⟨thenBody, _⟩ (some ⟨elseBody, elseSpan⟩) _ =>
    allElseBlocks thenBody ++ ⟨elseBody, elseSpan⟩ :: allElseBlocks elseBody
  | .whileLoop _ ⟨body, _⟩ _ => allElseBlocks body
  | .forLoop init _ update ⟨body, _⟩ _ => elseBlocks? init ++ (elseBlocks? update ++ allElseBlocks body)

/-- The else blocks in a statement if there is one. -/
def elseBlocks? : Option Stmt → List Block
  | none => []
  | some s => s.elseBlocks

/-- The else blocks in several statements. -/
def allElseBlocks : List Stmt → List Block
  | [] => []
  | s :: ss => s.elseBlocks ++ allElseBlocks ss

end

end Stmt

lemma Stmt.mem_elseBlocks_conditional {b thenBlock : Block} {elseBlock : Option Block} {condition : Expr}
    {span : Span} : b ∈ (Stmt.conditional condition thenBlock elseBlock span).elseBlocks ↔
      b ∈ allElseBlocks thenBlock.body ∨ ∃ c ∈ elseBlock, b = c ∨ b ∈ allElseBlocks c.body := by
  rcases elseBlock with _ | elseBlock <;> simp [elseBlocks]

/-- The else blocks in an item. -/
def Item.elseBlocks : Item → List Block
  | .global _ => []
  | .function f => Stmt.allElseBlocks f.body.body

/-- The else blocks in a program. -/
def Program.elseBlocks (p : Program) : List Block := p.items.flatMap Item.elseBlocks

/-- An else block is written behind a word `else` among the tokens, and it spans what it is written with: an
`if`, which is then the only statement of the block and has the same span, or else statements in braces. -/
def ElseWritten (ts : List Token) (b : Block) : Prop :=
  ∃ word us, word :: us <:+: ts ∧ word.kind = .elseWord ∧ b.span = .covering us ∧
    if us.head?.map (·.kind) = some .ifWord then ∃ s, s.isConditional = true ∧ b = ⟨[s], s.span⟩
    else us.head?.map (·.kind) = some .openBrace ∧ us.getLast?.map (·.kind) = some .closeBrace

section

variable {ts us : List Token} {b : Block}

lemma ElseWritten.mono (h : ElseWritten ts b) (hts : ts <:+: us) : ElseWritten us b := by
  obtain ⟨word, vs, hinfix, h⟩ := h
  exact ⟨word, vs, hinfix.trans hts, h⟩

lemma ElseWritten.of_left (h : ElseWritten ts b) (us : List Token) : ElseWritten (ts ++ us) b :=
  h.mono (List.prefix_append ts us).isInfix

lemma ElseWritten.of_right (h : ElseWritten us b) (ts : List Token) : ElseWritten (ts ++ us) b :=
  h.mono (List.suffix_append ts us).isInfix

lemma head?_of_isConditional {s : Stmt} (h : s.Spelled tight ts) (hs : s.isConditional = true) :
    ts.head?.map (·.kind) = some .ifWord := by
  cases h with
  | conditional hcondition _ _ _ =>
    obtain ⟨hfirst, -, -, -⟩ := hcondition
    exact congrArg some hfirst
  | _ => cases hs

lemma ForSpelled.elseBlocks?_eq_nil {init update : Option Stmt} {e : Option Expr}
    (h : ForSpelled tight ts init e update) : Stmt.elseBlocks? init = [] ∧ Stmt.elseBlocks? update = [] := by
  obtain ⟨-, -, hinit, -, -, -, hupdate, -⟩ := h
  constructor
  · cases hinit <;> simp [Stmt.elseBlocks?, Stmt.elseBlocks]
  · cases hupdate <;> simp [Stmt.elseBlocks?, Stmt.elseBlocks]

/-- What stands behind an `else` and spells a block is that block. -/
lemma elseWritten_of_elseSpelled (h : Stmt.ElseSpelled tight ts (some b)) : ElseWritten ts b := by
  cases h with
  | block hword hb =>
    refine ⟨_, _, List.infix_refl _, hword, span_of_block hb, ?_⟩
    rcases hb with ⟨hopened, -, hclosed, -⟩
    simp [hopened, hclosed, List.getLast?_cons]
  | @nested word us s span hword hs hspelled hspan =>
    obtain rfl : span = .covering us := hspan
    refine ⟨word, us, List.infix_refl _, hword, rfl, ?_⟩
    rw [if_pos (head?_of_isConditional hspelled hs), ← span_of_isConditional hspelled hs]
    exact ⟨s, hs, rfl⟩

mutual

theorem Stmt.Spelled.elseWritten : ∀ {ts : List Token} {s : Stmt}, s.Spelled tight ts →
    ∀ b ∈ s.elseBlocks, ElseWritten ts b
  | _, _, .declaration _ _ | _, _, .assignment _ _ | _, _, .call _ _ | _, _, .returning _ _ _ _ => by
    rw [Stmt.elseBlocks]
    exact List.forall_mem_nil _
  | _, _, @Stmt.Spelled.conditional _ hs ts us _ _ _ _ _ hthen helse _ => by
    intro b hb
    rcases Stmt.mem_elseBlocks_conditional.1 hb with hb | ⟨c, hc, hb⟩
    · exact ((hthen.elseWritten b hb).of_left us).of_right hs
    · refine ElseWritten.of_right (ElseWritten.of_right ?_ ts) hs
      rcases hb with rfl | hb
      · exact elseWritten_of_elseSpelled (Option.mem_def.1 hc ▸ helse)
      · exact helse.elseWritten c hc b hb
  | _, _, @Stmt.Spelled.whileLoop _ hs _ _ _ _ _ hbody _ => by
    rw [Stmt.elseBlocks]
    exact fun b hb => (hbody.elseWritten b hb).of_right hs
  | _, _, @Stmt.Spelled.forLoop _ hs _ _ _ _ _ _ hhead hbody _ => by
    obtain ⟨hinit, hupdate⟩ := hhead.elseBlocks?_eq_nil
    rw [Stmt.elseBlocks, hinit, hupdate]
    exact fun b hb => (hbody.elseWritten b hb).of_right hs

theorem Stmt.ElseSpelled.elseWritten : ∀ {ts : List Token} {block : Option Block},
    Stmt.ElseSpelled tight ts block → ∀ c ∈ block, ∀ b ∈ Stmt.allElseBlocks c.body, ElseWritten ts b
  | _, _, .none => by
    rintro c ⟨⟩
  | _, _, .block _ hblock => by
    rintro c ⟨⟩ b hb
    exact (hblock.elseWritten b hb).of_right [_]
  | _, _, .nested _ _ hs _ => by
    rintro c ⟨⟩
    rw [Stmt.allElseBlocks, Stmt.allElseBlocks, List.append_nil]
    exact fun b hb => (hs.elseWritten b hb).of_right [_]

theorem BlockOf.Spelled.elseWritten : ∀ {ts : List Token} {block : Block}, block.Spelled tight ts →
    ∀ b ∈ Stmt.allElseBlocks block.body, ElseWritten ts b
  | _, _, .intro _ hss _ _ => fun b hb => ((hss.elseWritten b hb).of_left [_]).of_right [_]

theorem Stmt.AllSpelled.elseWritten : ∀ {ts : List Token} {ss : List Stmt}, Stmt.AllSpelled tight ts ss →
    ∀ b ∈ Stmt.allElseBlocks ss, ElseWritten ts b
  | _, _, .nil => by
    rw [Stmt.allElseBlocks]
    exact List.forall_mem_nil _
  | _, _, .cons hs hss => by
    rw [Stmt.allElseBlocks]
    intro b hb
    rcases List.mem_append.1 hb with hb | hb
    · exact (hs.elseWritten b hb).of_left _
    · exact (hss.elseWritten b hb).of_right _

end

lemma Grammar.ItemTaken.elseWritten {item : Item} (h : ItemTaken ts item) :
    ∀ b ∈ item.elseBlocks, ElseWritten ts b := by
  cases h with
  | global _ _ _ _ _ => exact List.forall_mem_nil _
  | @function word name opened closed ps vs ty qs body _ _ _ _ _ _ hbody =>
    intro b hb
    have hwritten := (hbody.1.elseWritten b hb).of_right (word :: name :: opened :: (ps ++ [closed]))
    rwa [List.cons_append, List.cons_append, List.cons_append, List.append_assoc] at hwritten

lemma Grammar.ItemsTaken.elseWritten {items : List Item} (h : ItemsTaken ts items) :
    ∀ b ∈ items.flatMap Item.elseBlocks, ElseWritten ts b := by
  induction h with
  | nil => exact List.forall_mem_nil _
  | cons hitem _ ih =>
    intro b hb
    rw [List.flatMap_cons] at hb
    rcases List.mem_append.1 hb with hb | hb
    · exact (hitem.elseWritten b hb).of_left _
    · exact (ih b hb).of_right _

end

/-! ## Programs -/

section

open Outline

variable {tokens ts : List Token} {file : String} {p : Program}

/-- The end of input that is added to a list lies on the line on which the list ends. -/
lemma linesInOrder_terminated (h : LinesInOrder tokens) : LinesInOrder (terminated tokens file) := by
  rw [linesInOrder_iff] at h ⊢
  rcases List.eq_nil_or_concat tokens with rfl | ⟨front, last, rfl⟩
  · exact List.pairwise_pair.2 (UInt32.le_refl 1)
  · rw [List.concat_eq_append] at h ⊢
    have hstop : (Span.covering (front ++ [last])).stop.line = last.span.stop.line := by
      rw [Span.stop_covering_append (List.cons_ne_nil last [])]
      rfl
    rw [terminated, List.getLast?_append, List.getLast?_singleton, Option.some_or]
    by_cases hlast : last.kind = .endOfInput
    · simpa [hlast] using h
    · simp only [hlast, if_false]
      rw [tokenLines_append, List.pairwise_append]
      refine ⟨h, List.pairwise_pair.2 (UInt32.le_refl _), fun line hline other hother => ?_⟩
      have hle := le_stop_of_mem h (by simp) hline
      rw [hstop] at hle
      simp only [tokenLines, List.flatMap_singleton, List.mem_cons, List.not_mem_nil, or_false] at hother
      rcases hother with rfl | rfl <;> exact hle

/-- The items of a program are written along the tokens in front of the first end of input.  The program goes
from the first token to where this begins. -/
lemma Program.exists_itemsTaken (h : ofTokens tokens file = .ok p) : ∃ eof,
    beforeEnd tokens ++ [eof] <+: terminated tokens file ∧ ItemsTaken (beforeEnd tokens) p.items ∧
      p.span = ⟨(Span.covering (beforeEnd tokens ++ [eof])).start, eof.span.start⟩ := by
  obtain ⟨c', hrun⟩ := ofTokens_eq_ok.1 h
  simp only [program, position_bind, bind_eq_ok, pure_eq_ok] at hrun
  obtain ⟨items, c, hitems, rfl, rfl, rfl⟩ := hrun
  obtain ⟨ts, hpasses, htaken, hend⟩ := itemsTaken_of_itemsWithin _ (Nat.le_refl _) hitems
  obtain ⟨htake, hcurrent⟩ := hpasses.take_terminated
  have hfirst : (Cursor.start tokens file).position = (Span.covering (ts ++ [c'.current])).start := by
    cases hpasses <;> rfl
  obtain rfl : ts = beforeEnd tokens := by
    rw [hpasses.eq_beforeEnd hend, beforeEnd_ahead_start]
  refine ⟨c'.current, ?_, htaken, ?_⟩
  · have hprefix := List.take_prefix ((beforeEnd tokens).length + 1) (terminated tokens file)
    rwa [List.take_add_one, htake, hcurrent] at hprefix
  · rw [hfirst]
    rfl

/-- A node whose parts are written along tokens, and that goes on to where the next token begins, is in order. -/
lemma inOrder_of_allPlaced {eof : Token} {os : List Outline} {span : Span}
    (hlines : (tokenLines (ts ++ [eof])).Pairwise (· ≤ ·)) (hparts : AllPlaced ts os)
    (hspan : span = ⟨(Span.covering (ts ++ [eof])).start, eof.span.start⟩) :
    (Outline.node span os).InOrder := by
  subst hspan
  have hstart := fun line => @start_le_of_mem _ hlines (by simp) line
  rw [tokenLines_append] at hlines hstart
  obtain ⟨hfront, -, hacross⟩ := List.pairwise_append.1 hlines
  refine hparts.node_inOrder hfront ?_ ?_ ?_ (hparts.inOrder hfront)
  · exact hstart _ (List.mem_append_right _ List.mem_cons_self)
  · exact fun line hline => hstart line (List.mem_append_left _ hline)
  · exact fun line hline => hacross line hline _ List.mem_cons_self

/-- The spans in a program are nested and ordered.  If no token ends before it starts and none starts before
the one in front of it ends, then every node of the program that is read starts on a line not behind that on
which it ends, within the lines of the node that it is a part of, and ends on a line not behind that on which
the next part of this node starts; a block behind an `else` spans what is written there, and if that is an
`if`, it has the same span.  The tokens of a source are of this kind, if the number of its last line fits into
a word. -/
theorem Program.outline_inOrder (file : String) :
    (∀ tokens p, LinesInOrder tokens → ofTokens tokens file = .ok p →
      p.outline.InOrder ∧ ∀ b ∈ p.elseBlocks, ElseWritten tokens b) ∧
    ∀ source : String, source.toList.count '\n' + 1 < UInt32.size →
      LinesInOrder (tokenize source file) := by
  constructor
  · intro tokens p horder hp
    obtain ⟨eof, hprefix, htaken, hspan⟩ := exists_itemsTaken hp
    constructor
    · obtain ⟨rest, hrest⟩ := hprefix
      have hall := linesInOrder_iff.1 (@linesInOrder_terminated tokens file horder)
      rw [← hrest, tokenLines_append, List.pairwise_append] at hall
      exact inOrder_of_allPlaced hall.1 htaken.allPlaced hspan
    · exact fun b hb => (htaken.elseWritten b hb).mono (List.takeWhile_prefix _).isInfix
  · exact fun source hlines => linesInOrder_iff.2 (pairwise_tokenLines_tokenize file hlines)

/-- A program with an `if` behind an `else`, broken over lines. -/
def brokenElse : String :=
  "int f(int a) \x7b\n  if (a < 1) \x7b\x7d else if (a\n    > g(a,\n 2)) \x7b\n  \x7d\n\x7d\n"

/-- The block behind the `else` spans the lines of the `if`, from 2 to 5. -/
theorem Program.outline_inOrder_brokenElse :
    LinesInOrder (tokenize brokenElse "") ∧ ∃ p, ofTokens (tokenize brokenElse "") "" = .ok p ∧
      p.elseBlocks.map (·.span) = [⟨⟨2, ""⟩, ⟨5, ""⟩⟩] ∧ p.outline.InOrder ∧
      ∀ b ∈ p.elseBlocks, ElseWritten (tokenize brokenElse "") b := by
  have hread : (ofTokens (tokenize brokenElse "") "").map (fun p => p.elseBlocks.map (·.span)) =
      .ok [⟨⟨2, ""⟩, ⟨5, ""⟩⟩] := by
    decide +kernel
  obtain ⟨hordered, htokenize⟩ := Program.outline_inOrder ""
  have horder := htokenize brokenElse (by decide)
  refine ⟨horder, ?_⟩
  obtain ⟨p, h, hspans⟩ := exists_eq_ok_of_map hread
  obtain ⟨hnested, helse⟩ := hordered _ p horder h
  exact ⟨p, h, hspans, hnested, helse⟩

end

end LangCheck
