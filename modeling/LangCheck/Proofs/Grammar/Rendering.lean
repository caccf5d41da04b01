import LangCheck.Proofs.Grammar.Precedence
import LangCheck.Proofs.Grammar.Programs
import LangCheck.Proofs.Text.Quoting
import LangCheck.Proofs.Token.Kinds
import LangCheck.Proofs.Token.Written

/-!
# Reading the text of an expression

The text of an expression is written without parentheses or blank characters of its own around the
operators of one operand, and its string literals are quoted as they are shown.  So it need not be read as
the tokens of the expression.  The main result (`Grammar.expression_render_iff`) says when it is: a minus
sign must not stand in front of another one, and no character may be shown by its code point.

The text is put together from pieces.  For each piece `Recovers` tells under which condition its tokens are
recovered, wherever it stands, and the condition for a text is that for all of its pieces
(`Recovers.append`).
-/

namespace LangCheck

open Lexeme LexRule Grammar

variable {s t rest : List Char} {kind : Kind} {text : String}

/-! ## What is read of the tokens of a text -/

/-- What is read of the tokens of a text, the token that ends it included. -/
def shapes (s : List Char) : List (Kind × String) := (tokensBehind "" 0 s).map Token.shape

lemma map_shape_tokensOf (file file' : String) : ∀ (line line' : UInt32) (fs : List Fragment),
    (tokensOf file line fs).map Token.shape = (tokensOf file' line' fs).map Token.shape
  | _, _, [] => rfl
  | line, line', f :: fs => by
    have ih := map_shape_tokensOf file file' (line + newlines f.text) (line' + newlines f.text) fs
    rw [tokensOf, tokensOf]
    rcases f.token? with _ | ⟨kind, text⟩
    · exact ih
    · exact congrArg (_ :: ·) ih

/-- Neither the file nor the lines in front of a text are read. -/
lemma map_shape_tokensBehind (file : String) (n : ℕ) (s : List Char) :
    (tokensBehind file n s).map Token.shape = shapes s :=
  map_shape_tokensOf _ _ _ _ _

lemma map_shape_tokenize (source file : String) :
    (tokenize source file).map Token.shape = shapes source.toList :=
  map_shape_tokensOf _ _ _ _ _

lemma shapes_nil : shapes [] = [(.endOfInput, "")] := by
  rw [shapes, tokensBehind_nil]
  rfl

lemma shapes_of_nextFragment {form : Form} (h : nextFragment (s ++ rest) = (form, s.length))
    (htoken : Fragment.token? ⟨form, s⟩ = some (kind, text)) :
    shapes (s ++ rest) = (⟨kind, text, default⟩ : Token).shape :: shapes rest := by
  rw [shapes, tokensBehind, fragments_append h, tokensOf, htoken]
  exact congrArg (_ :: ·) (map_shape_tokensOf _ _ _ _ _)

lemma shapes_writes (h : Writes s kind text) (hrest : Detached s rest) :
    shapes (s ++ rest) = (⟨kind, text, default⟩ : Token).shape :: shapes rest := by
  obtain ⟨form, hnext, htoken⟩ := exists_nextFragment_of_writes h hrest
  exact shapes_of_nextFragment hnext htoken

/-- A symbol is read in front of what does not go on with it. -/
lemma shapes_symbol {spelling : String} (h : (spelling, kind) ∈ Kind.symbols)
    (hrest : Detached spelling.toList rest) :
    shapes (spelling.toList ++ rest) = (Token.word kind).shape :: shapes rest := by
  have hbare : ∀ entry ∈ Kind.symbols, entry.2.hasText = false := by decide
  rw [shapes_writes (.symbol h) hrest, Token.shape_word rfl (hbare _ h)]

lemma shapes_blank {c : Char} (hc : Text.isBlank c) : shapes (c :: s) = shapes s := by
  rw [shapes, tokensBehind_blank "" 0 hc, map_shape_tokensBehind]

/-- What stands between quotes is read as a string literal, whatever follows. -/
lemma shapes_quoted (h : IsInner s) :
    shapes ('"' :: (s ++ ['"']) ++ rest) = (.text, String.ofList (Text.unescape s)) :: shapes rest := by
  have hnext : nextFragment ('"' :: (s ++ ['"']) ++ rest) = (.quoted, ('"' :: (s ++ ['"'])).length) :=
    nextFragment_of_ne_number (first?_of_quote (closedQuote?_append ⟨s, rfl, h⟩)) (by decide)
  have htoken : Fragment.token? ⟨.quoted, '"' :: (s ++ ['"'])⟩ =
      some (.text, String.ofList (Text.unescape s)) := by
    rw [Fragment.token?, List.tail_cons, List.dropLast_concat]
  exact shapes_of_nextFragment hnext htoken

/-! ## Pieces of a text -/

/-- The characters that can stand directly behind an expression or a name inside the text of an
expression. -/
def followers : List Char := [' ', '+', '-', '(', ')', ',']

lemma forall_mem_followers {P : Char → Prop} :
    (∀ c ∈ followers, P c) ↔ P ' ' ∧ P '+' ∧ P '-' ∧ P '(' ∧ P ')' ∧ P ',' := by
  simp [followers]

/-- A text that can stand directly behind an expression or a name. -/
def Follows (rest : List Char) : Prop := ∀ c ∈ rest.head?, c ∈ followers

/-- In front of every text with a property, what is read of a piece is the given tokens if a condition holds,
and something else if it does not. -/
structure Recovers (F : List Char → Prop) (s : List Char) (us : List (Kind × String)) (P : Prop) :
    Prop where
  shapes_eq : P → ∀ rest, F rest → shapes (s ++ rest) = us ++ shapes rest
  of_prefix : ∀ rest, F rest → us <+: shapes (s ++ rest) → P

namespace Recovers

variable {F G : List Char → Prop} {us vs : List (Kind × String)} {P Q : Prop}

lemma of_shapes_eq (h : ∀ rest, F rest → shapes (s ++ rest) = us ++ shapes rest) :
    Recovers F s us True :=
  ⟨fun _ => h, fun _ _ _ => trivial⟩

/-- Two pieces, one behind the other, are recovered if each of them is. -/
lemma append (h : Recovers F s us P) (h' : Recovers G t vs Q) (hFG : ∀ rest, G rest → F (t ++ rest)) :
    Recovers G (s ++ t) (us ++ vs) (P ∧ Q) := by
  refine ⟨fun ⟨hP, hQ⟩ rest hrest => ?_, fun rest hrest hfront => ?_⟩
  · rw [List.append_assoc, h.shapes_eq hP _ (hFG rest hrest), h'.shapes_eq hQ rest hrest,
      List.append_assoc]
  · rw [List.append_assoc] at hfront
    have hP : P := h.of_prefix _ (hFG rest hrest) ((List.prefix_append us vs).trans hfront)
    -- what is left of the tokens is read of what is left of the text
    rw [h.shapes_eq hP _ (hFG rest hrest), List.prefix_append_right_inj] at hfront
    exact ⟨hP, h'.of_prefix rest hrest hfront⟩

lemma congr (h : Recovers F s us P) (hPQ : P ↔ Q) : Recovers F s us Q :=
  ⟨fun hQ => h.shapes_eq (hPQ.2 hQ), fun rest hrest hfront => hPQ.1 (h.of_prefix rest hrest hfront)⟩

lemma mono (h : Recovers F s us P) (hGF : ∀ rest, G rest → F rest) : Recovers G s us P :=
  ⟨fun hP rest hrest => h.shapes_eq hP rest (hGF rest hrest),
    fun rest hrest hfront => h.of_prefix rest (hGF rest hrest) hfront⟩

lemma of_false (h : ∀ rest, F rest → ¬ us <+: shapes (s ++ rest)) (hP : ¬ P) : Recovers F s us P :=
  ⟨fun hP' => absurd hP' hP, fun rest hrest hfront => absurd hfront (h rest hrest)⟩

lemma symbol {spelling : String} (h : (spelling, kind) ∈ Kind.symbols) :
    Recovers (Detached spelling.toList) spelling.toList [(Token.word kind).shape] True :=
  of_shapes_eq fun _ hrest => shapes_symbol h hrest

lemma blank {c : Char} (hc : Text.isBlank c) : Recovers (fun _ => True) [c] [] True :=
  of_shapes_eq fun _ _ => shapes_blank hc

end Recovers

/-! ## What stands directly behind a piece -/

lemma Follows.detached (h : Follows rest)
    (hs : ∀ c ∈ followers, (s.head?.any isWordChar → isWordChar c = false ∧ c ≠ '.') ∧
      s ++ [c] ∉ marks) : Detached s rest :=
  fun c hc => hs c (h c hc)

/-- Nothing that can follow an expression goes on with a word or a number. -/
lemma Follows.detached_of_isWordChar (h : Follows rest) (hs : s.head?.any isWordChar = true) :
    Detached s rest := by
  have hmarks : ∀ mark ∈ marks, mark.head?.any isWordChar = false := by decide
  have hfollowers : ∀ c ∈ followers, isWordChar c = false ∧ c ≠ '.' :=
    forall_mem_followers.2 (by decide)
  refine h.detached fun c hc => ⟨fun _ => hfollowers c hc, fun hmark => ?_⟩
  have hnot := hmarks _ hmark
  rw [List.head?_append_of_ne_nil _ (by rintro rfl; cases hs), hs] at hnot
  cases hnot

/-- A symbol stands apart from what follows unless the two make another mark. -/
lemma detached_of_marks (hs : s.head?.any isWordChar = false)
    (h : ∀ mark ∈ marks, mark.dropLast = s → mark.getLast? ≠ rest.head?) : Detached s rest := by
  intro c hc
  refine ⟨fun hword => ?_, fun hmark => h _ hmark List.dropLast_concat ?_⟩
  · rw [hs] at hword
    cases hword
  · rw [List.getLast?_concat, Option.mem_def.1 hc]

lemma follows_nil : Follows [] := by
  intro c hc
  cases hc

lemma follows_cons {c : Char} (hc : c ∈ followers) (s : List Char) : Follows (c :: s) := by
  intro d hd
  cases hd
  exact hc

/-! ## Lexemes of names and numbers -/

namespace Writes

lemma toList_eq (h : Writes s kind text) (hkind : kind = .name ∨ kind = .number) :
    text.toList = s := by
  cases h with
  | reserved _ => rfl
  | symbol _ => rfl
  | name _ _ => exact String.toList_ofList
  | number _ => exact String.toList_ofList
  | text _ => simp at hkind

lemma isWordChar_head (h : Writes s kind text) (hkind : kind = .name ∨ kind = .number) :
    s.head?.any isWordChar = true := by
  have hword : ∀ {s}, IsWord s → s.head?.any isWordChar = true := by
    rintro _ ⟨c, cs, rfl, hc, -⟩
    exact isWordChar_of_isWordStart hc
  cases h with
  | reserved h => exact hword (isWord_of_reserved h)
  | symbol h =>
    have hkinds : ∀ entry ∈ Kind.symbols, ¬ (entry.2 = .name ∨ entry.2 = .number) := by decide
    exact absurd hkind (hkinds _ h)
  | name h _ => exact hword h
  | number h =>
    obtain ⟨whole, fraction, exponent, rfl, ⟨hne, hdigits⟩, -⟩ := h
    obtain ⟨c, cs, rfl⟩ := List.exists_cons_of_ne_nil hne
    simp [isWordChar, Char.isAlphanum, hdigits c List.mem_cons_self]
  | text _ => simp at hkind

end Writes

/-- The texts that are read of some tokens can be written. -/
def Writable (ts : List Token) : Prop :=
  ∀ t ∈ ts, t.kind.hasText = true → ∃ s, Writes s t.kind t.text

@[simp] lemma writable_cons {t : Token} {ts : List Token} :
    Writable (t :: ts) ↔ (t.kind.hasText = true → ∃ s, Writes s t.kind t.text) ∧ Writable ts := by
  simp [Writable]

@[simp] lemma writable_append {ts us : List Token} :
    Writable (ts ++ us) ↔ Writable ts ∧ Writable us := by
  simp [Writable, or_imp, forall_and]

/-- A name or a number is written as its text, which begins with a character of words. -/
lemma Writable.writes {t : Token} {ts : List Token} (h : Writable (t :: ts))
    (ht : t.kind = .name ∨ t.kind = .number) :
    Writes t.text.toList t.kind t.text ∧ t.text.toList.head?.any isWordChar = true := by
  obtain ⟨s, hs⟩ := h t List.mem_cons_self (by rcases ht with ht | ht <;> rw [ht] <;> rfl)
  rw [hs.toList_eq ht]
  exact ⟨hs, hs.isWordChar_head ht⟩

lemma exists_head (hs : s.head?.any isWordChar = true) :
    ∃ c cs, s = c :: cs ∧ c ≠ '=' ∧ c ≠ '-' := by
  rcases s with _ | ⟨c, cs⟩
  · cases hs
  · refine ⟨c, cs, rfl, ?_, ?_⟩ <;> rintro rfl <;> cases hs

/-! ## How operators are written -/

lemma BinaryOp.symbol_mem (op : BinaryOp) : (op.symbol, op.kind) ∈ Kind.symbols := by
  cases op <;> decide

/-- The symbol of an operator of one operand. -/
def UnaryOp.symbol : UnaryOp → String
  | not => "!"
  | negate => "-"
  | preIncrement | postIncrement => "++"
  | preDecrement | postDecrement => "--"

lemma UnaryOp.symbol_mem (op : UnaryOp) : (op.symbol, op.kind) ∈ Kind.symbols := by
  cases op <;> decide

lemma UnaryOp.render_eq (op : UnaryOp) (operand : String) :
    op.render operand = if op.isPostfix then operand ++ op.symbol else op.symbol ++ operand := by
  cases op <;> rfl

namespace Expr

/-! ## How an expression begins -/

/-- An expression begins with a minus sign, its own or that of a decrement. -/
def leadsMinus : Expr → Bool
  | unary op _ _ => op == .negate || op == .preDecrement
  | _ => false

lemma toList_render_call (callee : String) (arguments : List Expr) (span : Span) :
    (call callee arguments span).render.toList = callee.toList ++
      (['('] ++ ((", ".intercalate (renderAll arguments)).toList ++ [')'])) := by
  simp [render]

/-- An operand without signs begins with neither of the characters that a sign could go on with. -/
theorem head_render_of_suffix : ∀ {e : Expr}, e.Canonical → Writable e.unparse →
    Power.suffix ≤ e.power → ∃ c cs, e.render.toList = c :: cs ∧ c ≠ '=' ∧ c ≠ '-'
  | .binary _ _ _ _, _, _, h => by
    cases (suffix_le_power_iff.1 h).1
  | .unary op operand _, hcanonical, hw, h => by
    have hop : op.isPostfix = true := by simpa [isPrefix] using (suffix_le_power_iff.1 h).2
    rw [unparse, if_pos hop, writable_append] at hw
    obtain ⟨c, cs, hcs, hc⟩ := head_render_of_suffix hcanonical.1 hw.1 (Nat.le_trans h hcanonical.2)
    exact ⟨c, cs ++ op.symbol.toList, by simp [render, UnaryOp.render_eq, hop, hcs], hc⟩
  | .literal (.number text) _, _, hw, _ => by
    rw [unparse] at hw
    rw [render]
    exact exists_head (hw.writes (.inr rfl)).2
  | .literal (.string text) _, _, _, _ =>
    ⟨'"', text.toList.flatMap Text.quoteChar ++ ['"'],
      by simp [render, Literal.render, Text.quote], by decide, by decide⟩
  | .literal (.bool true) _, _, _, _ =>
    ⟨'t', ['r', 'u', 'e'], by simp [render, Literal.render], by decide, by decide⟩
  | .literal (.bool false) _, _, _, _ =>
    ⟨'f', ['a', 'l', 's', 'e'], by simp [render, Literal.render], by decide, by decide⟩
  | .symbol name _, _, hw, _ => by
    rw [unparse] at hw
    rw [render]
    exact exists_head (hw.writes (.inl rfl)).2
  | .call callee arguments _, _, hw, _ => by
    rw [unparse] at hw
    obtain ⟨c, cs, hcs, hc⟩ := exists_head (hw.writes (.inl rfl)).2
    have hcallee : callee.toList = c :: cs := hcs
    exact ⟨c, _, by rw [toList_render_call, hcallee, List.cons_append], hc⟩
  | .group inner _, _, _, _ =>
    ⟨'(', inner.render.toList ++ [')'], by simp [render], by decide, by decide⟩

/-- An operand of a sign begins with a minus sign exactly if it is a negation or a decrement itself. -/
lemma head_render_of_unary {e : Expr} (hcanonical : e.Canonical) (hw : Writable e.unparse)
    (h : Power.unary ≤ e.power) :
    ∃ c cs, e.render.toList = c :: cs ∧ c ≠ '=' ∧ (c = '-' ↔ e.leadsMinus = true) := by
  by_cases hprefix : e.isPrefix = true
  · cases e with
    | unary op operand _ =>
      cases op <;> simp_all [isPrefix, UnaryOp.isPostfix, render, UnaryOp.render, leadsMinus]
    | _ => cases hprefix
  · have hsuffix : Power.suffix ≤ e.power :=
      suffix_le_power_iff.2 ⟨unary_le_power_iff.1 h, by simpa using hprefix⟩
    obtain ⟨c, cs, hcs, heq, hminus⟩ := head_render_of_suffix hcanonical hw hsuffix
    refine ⟨c, cs, hcs, heq, iff_of_false hminus ?_⟩
    cases e with
    | unary op _ _ => cases op <;> simp_all [isPrefix, UnaryOp.isPostfix, leadsMinus]
    | _ => simp [leadsMinus]

/-! ## The pieces of the text of an expression -/

/-- A minus sign stands directly in front of another one. -/
def doublesMinus : Expr → Bool
  | unary .negate operand _ => operand.leadsMinus
  | _ => false

/-- A string literal has a character that is shown by its code point. -/
def ShowsCode : Expr → Prop
  | literal (.string text) _ => ∃ c ∈ text.toList, Text.IsCoded c
  | _ => False

/-- The text of a node is not read differently. -/
def Survives (e : Expr) : Prop := e.doublesMinus = false ∧ ¬ e.ShowsCode

/-- The tokens of an expression are recovered from its text exactly if each node survives. -/
def Recovered (e : Expr) : Prop :=
  Recovers Follows e.render.toList (e.unparse.map Token.shape) (∀ n ∈ e.nodes, n.Survives)

/-- So are those of arguments with commas between them. -/
def AllRecovered (es : List Expr) : Prop :=
  Recovers Follows (", ".intercalate (renderAll es)).toList
    ((unparseArguments es).map Token.shape) (∀ n ∈ allNodes es, n.Survives)

/-- A lexeme of word characters is recovered as its token. -/
lemma recovers_lexeme {t : Token} {ts : List Token} (hw : Writable (t :: ts))
    (ht : t.kind = .name ∨ t.kind = .number) :
    Recovers Follows t.text.toList [t.shape] True := by
  obtain ⟨hwrites, hhead⟩ := hw.writes ht
  exact .of_shapes_eq fun rest hrest => shapes_writes hwrites (hrest.detached_of_isWordChar hhead)

lemma recovers_reserved (entry : String × Kind) (h : entry ∈ Kind.reservedWords) :
    Recovers Follows entry.1.toList [(Token.word entry.2).shape] True := by
  have hbare : ∀ entry ∈ Kind.reservedWords,
      entry.2.hasText = false ∧ entry.1.toList.head?.any isWordChar = true := by decide
  refine .of_shapes_eq fun rest hrest => ?_
  rw [shapes_writes (.reserved h) (hrest.detached_of_isWordChar (hbare _ h).2),
    Token.shape_word rfl (hbare _ h).1]
  rfl

/-- A string literal is recovered if none of its characters is shown by its code point. -/
lemma recovers_quoted (text : String) :
    Recovers Follows (Text.quote text).toList [(Kind.text, text)]
      (∀ c ∈ text.toList, ¬ Text.IsCoded c) := by
  have hshapes : ∀ rest, shapes ((Text.quote text).toList ++ rest) =
      (.text, String.ofList (Text.unescape (text.toList.flatMap Text.quoteChar))) :: shapes rest := by
    intro rest
    rw [Text.quote, String.toList_ofList, ← shapes_quoted (Text.isInner_flatMap_quoteChar text.toList)]
    rfl
  simp only [← Text.unescape_flatMap_quoteChar_iff]
  refine ⟨fun htext rest _ => ?_, fun rest _ hfront => ?_⟩
  · rw [hshapes, htext, String.ofList_toList]
    rfl
  · rw [hshapes] at hfront
    have htext := congrArg Prod.snd (List.cons_prefix_cons.1 hfront).1
    rw [← String.toList_inj, String.toList_ofList] at htext
    exact htext.symm

lemma recovered_literal {value : Literal} {span : Span} (hw : Writable [value.token]) :
    (literal value span).Recovered := by
  rw [Recovered, render, unparse, nodes]
  rcases value with text | text | _ | _
  · exact (recovers_lexeme hw (.inr rfl)).congr (by simp [Survives, doublesMinus, ShowsCode])
  · exact (recovers_quoted text).congr (by simp [Survives, doublesMinus, ShowsCode])
  · exact (recovers_reserved ("false", .falseWord) (by decide)).congr
      (by simp [Survives, doublesMinus, ShowsCode])
  · exact (recovers_reserved ("true", .trueWord) (by decide)).congr
      (by simp [Survives, doublesMinus, ShowsCode])

lemma recovered_symbol {name : String} {span : Span} (hw : Writable [.named name]) :
    (symbol name span).Recovered := by
  rw [Recovered, render, unparse, nodes]
  exact (recovers_lexeme hw (.inl rfl)).congr (by simp [Survives, doublesMinus, ShowsCode])

/-- Blank characters set off an operator between two operands. -/
lemma recovered_binary {op : BinaryOp} {left right : Expr} {span : Span} (hleft : left.Recovered)
    (hright : right.Recovered) : (binary op left right span).Recovered := by
  have hspace := Recovers.blank (c := ' ') (by decide)
  have hop := (Recovers.symbol op.symbol_mem).append (hspace.append hright fun _ _ => trivial)
    fun _ _ => BeginsBlank.detached (by rintro _ ⟨⟩; decide) _
  have hpieces := hleft.append (hspace.append hop fun _ _ => trivial)
    fun _ _ => follows_cons (by decide) _
  have htext : (binary op left right span).render.toList = left.render.toList ++
      ([' '] ++ (op.symbol.toList ++ ([' '] ++ right.render.toList))) := by
    simp [render]
  rw [Recovered, htext, unparse, nodes, List.map_append, List.forall_mem_cons, List.forall_mem_append]
  exact hpieces.congr (by simp [Survives, doublesMinus, ShowsCode])

/-- A step stands directly behind its operand, and no other symbol begins with it. -/
lemma recovered_step {op : UnaryOp} {operand : Expr} {span : Span} (hop : op.isPostfix = true)
    (hoperand : operand.Recovered) : (unary op operand span).Recovered := by
  have hwhole : op.symbol.toList.head?.any isWordChar = false ∧
      ∀ mark ∈ marks, mark.dropLast ≠ op.symbol.toList := by
    revert hop
    cases op <;> decide
  have hstep := (Recovers.symbol op.symbol_mem).mono fun rest (_ : Follows rest) =>
    detached_of_marks hwhole.1 fun mark hmark heq => absurd heq (hwhole.2 mark hmark)
  have hpieces := hoperand.append hstep fun rest _ => by
    revert hop
    cases op <;> first | exact fun _ => follows_cons (by decide) _ | exact fun h => absurd h (by decide)
  have htext : (unary op operand span).render.toList = operand.render.toList ++ op.symbol.toList := by
    simp [render, UnaryOp.render_eq, hop]
  have hnode : (unary op operand span).Survives := by
    revert hop
    cases op <;> simp [Survives, doublesMinus, ShowsCode, UnaryOp.isPostfix]
  rw [Recovered, htext, unparse, if_pos hop, nodes, List.map_append, List.forall_mem_cons]
  exact hpieces.congr (by simp [hnode])

/-- Two minus signs make a decrement, so that the first one is not read. -/
lemma recovered_of_doublesMinus {operand : Expr} {span : Span} {cs : List Char}
    (hcs : operand.render.toList = '-' :: cs) (hoperand : operand.leadsMinus = true) :
    (unary .negate operand span).Recovered := by
  have hshapes : ∀ rest, shapes ((unary .negate operand span).render.toList ++ rest) =
      (Token.word .minusMinus).shape :: shapes (cs ++ rest) := by
    intro rest
    have hdetached : Detached "--".toList (cs ++ rest) :=
      detached_of_marks rfl fun mark hmark heq => absurd heq (by revert mark; decide)
    have hminus : ("--", .minusMinus) ∈ Kind.symbols := by decide
    rw [← shapes_symbol hminus hdetached]
    simp [render, UnaryOp.render, hcs]
  refine .of_false (fun rest _ hfront => ?_) fun hsurvive => ?_
  · rw [hshapes, unparse, if_neg (by decide), List.map_cons, List.cons_prefix_cons] at hfront
    cases hfront.1
  · have hnode := (hsurvive _ (by rw [nodes]; exact List.mem_cons_self)).1
    rw [doublesMinus, hoperand] at hnode
    cases hnode

/-- A sign in front of its operand is read as such unless both are minus signs. -/
lemma recovered_sign {op : UnaryOp} {operand : Expr} {span : Span} (hop : op.isPostfix = false)
    (hcanonical : (unary op operand span).Canonical) (hw : Writable operand.unparse)
    (hoperand : operand.Recovered) : (unary op operand span).Recovered := by
  have hpower : Power.unary ≤ operand.power := by
    have hpower := hcanonical.2
    rwa [UnaryOp.power, if_neg (by simp [hop])] at hpower
  obtain ⟨c, cs, hcs, heq, hminus⟩ := head_render_of_unary hcanonical.1 hw hpower
  by_cases hdouble : op = .negate ∧ c = '-'
  · obtain ⟨rfl, rfl⟩ := hdouble
    exact recovered_of_doublesMinus hcs (hminus.1 rfl)
  have hmarks : op.symbol.toList.head?.any isWordChar = false ∧
      ∀ mark ∈ marks, mark.dropLast = op.symbol.toList →
        mark.getLast? = some '=' ∨ op = .negate ∧ mark.getLast? = some '-' := by
    revert hop
    cases op <;> decide
  have hpieces := (Recovers.symbol op.symbol_mem).append hoperand fun rest _ => by
    refine detached_of_marks hmarks.1 fun mark hmark hsame hlast => ?_
    rw [hcs, List.cons_append, List.head?_cons] at hlast
    rcases hmarks.2 mark hmark hsame with h | ⟨hnegate, h⟩ <;> rw [h, Option.some_inj] at hlast
    · exact heq hlast.symm
    · exact hdouble ⟨hnegate, hlast.symm⟩
  have htext : (unary op operand span).render.toList = op.symbol.toList ++ operand.render.toList := by
    simp [render, UnaryOp.render_eq, hop]
  have hnode : (unary op operand span).Survives := by
    refine ⟨?_, id⟩
    cases op with
    | negate => simpa [doublesMinus, hminus] using hdouble
    | _ => rfl
  rw [Recovered, htext, unparse, if_neg (by simp [hop]), nodes, List.map_cons, List.forall_mem_cons]
  exact hpieces.congr (by simp [hnode])

/-- Parentheses stand apart from everything. -/
lemma recovers_parens {ts : List Token} {text : List Char} {P : Prop}
    (h : Recovers Follows text (ts.map Token.shape) P) :
    Recovers Follows (['('] ++ (text ++ [')']))
      ((Token.word .openParen :: (ts ++ [Token.word .closeParen])).map Token.shape) P := by
  have hopen : ("(", .openParen) ∈ Kind.symbols := by decide
  have hclose : (")", .closeParen) ∈ Kind.symbols := by decide
  have hclosed := (Recovers.symbol hclose).mono
    fun rest (hrest : Follows rest) => hrest.detached (forall_mem_followers.2 (by decide))
  have hpieces := (Recovers.symbol hopen).append (h.append hclosed fun _ _ => follows_cons (by decide) _)
    fun rest _ => detached_of_marks rfl fun mark hmark heq => absurd heq (by revert mark; decide)
  rw [List.map_cons, List.map_append]
  exact hpieces.congr (by simp)

lemma recovered_group {inner : Expr} {span : Span} (hinner : inner.Recovered) :
    (group inner span).Recovered := by
  have htext : (group inner span).render.toList = ['('] ++ (inner.render.toList ++ [')']) := by
    simp [render]
  rw [Recovered, htext, unparse, nodes, List.forall_mem_cons]
  exact (recovers_parens hinner).congr (by simp [Survives, doublesMinus, ShowsCode])

lemma recovered_call {callee : String} {arguments : List Expr} {span : Span} {ts : List Token}
    (hw : Writable (.named callee :: ts)) (harguments : AllRecovered arguments) :
    (call callee arguments span).Recovered := by
  have hpieces := (recovers_lexeme hw (.inl rfl)).append (recovers_parens harguments)
    fun _ _ => follows_cons (by decide) _
  rw [Recovered, toList_render_call, unparse, nodes, List.map_cons, List.forall_mem_cons]
  exact hpieces.congr (by simp [Survives, doublesMinus, ShowsCode])

lemma allRecovered_nil : AllRecovered [] :=
  (Recovers.of_shapes_eq fun _ _ => rfl).congr (by simp [allNodes])

lemma allRecovered_singleton {e : Expr} (he : e.Recovered) : AllRecovered [e] := by
  simpa [AllRecovered, Recovered, renderAll, unparseArguments, allNodes] using he

/-- Between arguments there are a comma and a blank character. -/
lemma allRecovered_cons {e f : Expr} {es : List Expr} (he : e.Recovered)
    (hes : AllRecovered (f :: es)) : AllRecovered (e :: f :: es) := by
  have hspace := Recovers.blank (c := ' ') (by decide)
  have hmark : (",", .comma) ∈ Kind.symbols := by decide
  have hcomma := (Recovers.symbol hmark).append
    (hspace.append hes fun _ _ => trivial) fun _ _ => BeginsBlank.detached (by rintro _ ⟨⟩; decide) _
  have hpieces := he.append hcomma fun _ _ => follows_cons (by decide) _
  have htext : (", ".intercalate (renderAll (e :: f :: es))).toList = e.render.toList ++
      ([','] ++ ([' '] ++ (", ".intercalate (renderAll (f :: es))).toList)) := by
    simp [renderAll, String.intercalate_cons_cons]
  rw [AllRecovered, htext, unparseArguments, allNodes, List.map_append, List.forall_mem_append]
  exact hpieces.congr (by simp)

mutual

/-- The tokens of an expression are recovered from its text exactly if each node survives. -/
theorem recovered : ∀ e : Expr, e.Canonical → Writable e.unparse → e.Recovered
  | .binary op left right span, hcanonical, hw => by
    rw [unparse, writable_append, writable_cons] at hw
    exact recovered_binary (recovered left hcanonical.1 hw.1) (recovered right hcanonical.2.1 hw.2.2)
  | .unary op operand span, hcanonical, hw => by
    by_cases hop : op.isPostfix = true
    · rw [unparse, if_pos hop, writable_append] at hw
      exact recovered_step hop (recovered operand hcanonical.1 hw.1)
    · rw [unparse, if_neg hop, writable_cons] at hw
      exact recovered_sign (by simpa using hop) hcanonical hw.2 (recovered operand hcanonical.1 hw.2)
  | .literal value span, _, hw => by
    rw [unparse] at hw
    exact recovered_literal hw
  | .symbol name span, _, hw => by
    rw [unparse] at hw
    exact recovered_symbol hw
  | .call callee arguments span, hcanonical, hw => by
    rw [unparse] at hw
    refine recovered_call hw (allRecovered arguments hcanonical ?_)
    rw [writable_cons, writable_cons, writable_append] at hw
    exact hw.2.2.1
  | .group inner span, hcanonical, hw => by
    rw [unparse, writable_cons, writable_append] at hw
    exact recovered_group (recovered inner hcanonical hw.2.1)

theorem allRecovered : ∀ es : List Expr, AllCanonical es → Writable (unparseArguments es) →
    AllRecovered es
  | [], _, _ => allRecovered_nil
  | [e], hcanonical, hw => by
    rw [unparseArguments] at hw
    exact allRecovered_singleton (recovered e hcanonical.1 hw)
  | e :: f :: es, hcanonical, hw => by
    rw [unparseArguments, writable_append, writable_cons] at hw
    exact allRecovered_cons (recovered e hcanonical.1 hw.1)
      (allRecovered (f :: es) hcanonical.2 hw.2.2)

end

/-! ## Spans -/

mutual

/-- Spans are not written. -/
theorem unparse_bare : ∀ e : Expr, e.bare.unparse = e.unparse
  | .binary _ left right _ => by simp [bare, unparse, unparse_bare left, unparse_bare right]
  | .unary _ operand _ => by simp [bare, unparse, unparse_bare operand]
  | .literal _ _ | .symbol _ _ => by simp [bare, unparse]
  | .call _ arguments _ => by simp [bare, unparse, unparseArguments_allBare arguments]
  | .group inner _ => by simp [bare, unparse, unparse_bare inner]

theorem unparseArguments_allBare : ∀ es : List Expr,
    unparseArguments (allBare es) = unparseArguments es
  | [] => by simp [allBare]
  | [e] => by simp [allBare, unparseArguments, unparse_bare e]
  | e :: f :: es => by
    have ih := unparseArguments_allBare (f :: es)
    simp only [allBare] at ih ⊢
    simp [unparseArguments, unparse_bare e, ih]

end

end Expr

/-! ## Reading the text again -/

namespace Grammar

variable {source file file' : String} {e : Expr} {c' : Cursor} {ts : List Token}

lemma prefix_ahead_start (ts : List Token) (file : String) : (Cursor.start ts file).ahead <+: ts := by
  rcases ahead_start ts file with ⟨t, -, hts⟩ | hts
  · exact ⟨[t], hts.symm⟩
  · rw [hts]

lemma start_concat {t : Token} (ht : t.kind = .endOfInput) (ts : List Token) (file : String) :
    (Cursor.start (ts ++ [t]) file).ahead ++ [(Cursor.start (ts ++ [t]) file).finish] =
      ts ++ [t] := by
  obtain ⟨kind, text, span⟩ := t
  obtain rfl : kind = .endOfInput := ht
  simp [Cursor.start, Cursor.finish]

/-- The texts that are read of the tokens of a source can be written. -/
lemma writable_of_alike (halike : Alike ts e.unparse) (hts : ∀ t ∈ ts, t ∈ tokenize source file) :
    Writable e.unparse := by
  intro u hu htext
  obtain ⟨t, ht, hshape⟩ : ∃ t ∈ ts, t.shape = u.shape := by
    have hmem := List.mem_map_of_mem (f := Token.shape) hu
    rw [← halike] at hmem
    exact List.mem_map.1 hmem
  rw [← Token.text_eq_of_shape_eq hshape htext]
  rw [← Token.kind_eq_of_shape_eq hshape] at htext ⊢
  obtain ⟨f, -, -, hreads⟩ := exists_fragment_of_mem_tokenize (hts t ht) fun hend => by
    rw [hend] at htext
    cases htext
  refine hreads.exists_writes fun hmalformed => ?_
  rw [hmalformed] at htext
  cases htext

/-- An expression whose tokens are those of a text, and nothing behind them, is read from it. -/
lemma exists_expression_of_shapes (hcanonical : e.Canonical)
    (h : shapes source.toList = e.unparse.map Token.shape ++ [(Kind.endOfInput, "")]) :
    ∃ e' c', expression .standard .default (.start (tokenize source file) file) = .ok e' c' ∧
      e'.bare = e.bare ∧ c'.kind = .endOfInput := by
  rw [← map_shape_tokenize source file, List.map_eq_append_iff] at h
  obtain ⟨ts, us, htokens, halike, hus⟩ := h
  obtain ⟨t, _, rfl, ht, hnil⟩ := List.map_eq_cons_iff.1 hus
  obtain rfl := List.map_eq_nil_iff.1 hnil
  have hkind : t.kind = .endOfInput := congrArg Prod.fst ht
  have hextends : ¬ t.Extends .default := by
    rintro (⟨op, hop, -⟩ | h | h)
    · exact op.kind_ne (hop ▸ hkind)
    · rw [hkind] at h
      cases h
    · rw [hkind] at h
      cases h
  rw [htokens]
  obtain ⟨e', c', hrun, hbare, -, hcurrent⟩ :=
    exists_expression_of_alike (by decide) hcanonical (Or.inl (one_le_rank_power e)) halike
      (start_concat hkind ts file) hextends fun _ => by rw [hkind]; decide
  exact ⟨e', c', hrun, hbare, by rw [Cursor.kind, hcurrent, hkind]⟩

/-- Reading the text of an expression.  An expression that was read from a source is read again from its
own text, up to spans and with nothing behind it, exactly if no negation has a negation or a decrement as
its operand and no string literal has a character that is shown by its code point. -/
theorem expression_render_iff (file' : String)
    (h : expression .standard .default (.start (tokenize source file) file) = .ok e c') :
    (∃ e' c'', expression .standard .default (.start (tokenize e.render file') file') = .ok e' c'' ∧
      e'.bare = e.bare ∧ c''.kind = .endOfInput) ↔
    ∀ n ∈ e.nodes, n.doublesMinus = false ∧ ¬ n.ShowsCode := by
  obtain ⟨ts, hread⟩ := (expression_eq_ok_iff (by decide)).1 h
  have hsource : ∀ t ∈ ts, t ∈ tokenize source file := fun t ht =>
    (prefix_ahead_start _ file).mem (hread.passes.ahead_eq ▸ List.mem_append_left _ ht)
  have hrecovered : e.Recovered :=
    Expr.recovered e hread.canonical (writable_of_alike hread.spelled.alike hsource)
  constructor
  · rintro ⟨e', c'', hrun, hbare, -⟩
    obtain ⟨us, hread'⟩ := (expression_eq_ok_iff (by decide)).1 hrun
    have halike : Alike us e.unparse := by
      rw [← Expr.unparse_bare, ← hbare, Expr.unparse_bare]
      exact hread'.spelled.alike
    have hfront : us <+: tokenize e.render file' :=
      .trans ⟨_, hread'.passes.ahead_eq.symm⟩ (prefix_ahead_start _ file')
    have hshapes := hfront.map Token.shape
    rw [halike, map_shape_tokenize] at hshapes
    exact hrecovered.of_prefix [] follows_nil (by rwa [List.append_nil])
  · intro hsurvive
    have hshapes := hrecovered.shapes_eq hsurvive [] follows_nil
    rw [List.append_nil, shapes_nil] at hshapes
    exact exists_expression_of_shapes hread.canonical hshapes

/-- The text of `-(-x)` is read again as it was.  That of `- -x` has no blank character, and it is not. -/
theorem expression_render_negations :
    let line : Span := .onLine 1 "shell"
    let negated : Expr := .unary .negate (.symbol "x" line) line
    let apart : Expr := .unary .negate (.group negated line) line
    let doubled : Expr := .unary .negate negated line
    let c : String → Cursor := fun source => .start (tokenize source "shell") "shell"
    let end₁ : Cursor := ⟨line.stop, [], "EOF", line⟩
    (expression .standard .default (c "-(-x)") = .ok apart end₁ ∧
      ∃ e c', expression .standard .default (c apart.render) = .ok e c' ∧ e.bare = apart.bare ∧
        c'.kind = .endOfInput) ∧
    expression .standard .default (c "- -x") = .ok doubled end₁ ∧
      ¬ ∃ e c', expression .standard .default (c doubled.render) = .ok e c' ∧
        e.bare = doubled.bare ∧ c'.kind = .endOfInput := by
  intro line negated apart doubled c end₁
  have hapart : expression .standard .default (c "-(-x)") = .ok apart end₁ := by
    have htokens : tokenize "-(-x)" "shell" = [(.minus, "-"), (.openParen, "("), (.minus, "-"), (.name, "x"),
        (.closeParen, ")"), (.endOfInput, "EOF")].map fun t => ⟨t.1, t.2, line⟩ := by
      decide +kernel
    simp only [c, htokens]
    rfl
  have hdoubled : expression .standard .default (c "- -x") = .ok doubled end₁ := by
    have htokens : tokenize "- -x" "shell" = [(.minus, "-"), (.minus, "-"), (.name, "x"),
        (.endOfInput, "EOF")].map fun t => ⟨t.1, t.2, line⟩ := by
      decide +kernel
    simp only [c, htokens]
    rfl
  refine ⟨⟨hapart, (expression_render_iff "shell" hapart).2 ?_⟩, hdoubled, ?_⟩
  · simp [apart, negated, Expr.nodes, Expr.doublesMinus, Expr.leadsMinus, Expr.ShowsCode]
  · rw [expression_render_iff "shell" hdoubled]
    simp [doubled, negated, Expr.nodes, Expr.doublesMinus, Expr.leadsMinus]

end Grammar

end LangCheck
