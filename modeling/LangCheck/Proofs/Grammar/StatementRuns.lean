import LangCheck.Proofs.Grammar.ExpressionRuns

/-!
# The runs of the parsers of statements

The productions of statements and blocks are decided by the tokens that they pass and the one behind them,
whatever room they are given, as long as it suffices.  What a failed run passed is the beginning of a
statement.
-/

namespace LangCheck.Grammar

open Placement

variable {c : Cursor} {ts us : List Token} {k o : ℕ} {α : Type}

/-! ## Declarations -/

section Declarations

variable {L : List Token → Prop}

lemma type_bind {f : ℕ → Ty → Parser α} (hL : ∃ us, L us)
    (hf : ∀ {ty : Ty} {t c₁}, ty.kind? = some t.kind → c.Passes [t] c₁ →
      Reads (k + 1) (o + 1) (fun us => L (t :: us)) (fun room => f room ty) c₁) :
    Reads (k + 1) o L (fun room => type .standard >>= f room) c := by
  rcases hty : Ty.ofKind? c.kind with _ | ty
  · let e := if c.kind = .name then ⟨.unknownType c.current.text, c.position⟩
      else c.misplaced "expected a type"
    have he : e.Blames c.current := by
      by_cases hname : c.kind = .name
      · simp only [e, if_pos hname]
        exact ⟨rfl, rfl, by rw [Cursor.kind] at hname; simp [hname]⟩
      · simp only [e, if_neg hname]
        exact blames_misplaced c _
    refine .fail hL he fun _ d _ hd => bind_of_error ?_
    rw [type]
    simp only [Tables.standard, Cursor.kind_congr hd, hty, e]
    split
    · rw [hd, Cursor.position, hd, Cursor.position]
    · rw [misplaced, Cursor.misplaced, hd, Cursor.misplaced]
  · have hkind := ofKind?_eq_some_iff_kind?.1 hty
    have hend : c.kind ≠ .endOfInput := Ty.kind_ne_of_kind? hkind
    have hp : Decided (k + 1) o (fun _ => type .standard) c [c.current] c.next (.ok ty) := by
      refine .step hend (fun hbad => by rw [hbad] at hty; cases hty) fun _ d _ hd => ?_
      refine type_eq_ok.2 ⟨d.current, Cursor.passes_singleton_iff.2 ⟨rfl, ?_, rfl⟩, ?_⟩ <;> rw [hd]
      · exact hend
      · exact hkind
    exact hp.bind_reads (hf hkind hp.passes)

lemma constMark_bind {f : ℕ → Bool → Parser α}
    (hf : ∀ {isConst : Bool} {cs c₁}, ConstSpelled cs isConst → c.Passes cs c₁ →
      Reads (k + 1) (o + cs.length) (fun us => L (cs ++ us)) (fun room => f room isConst) c₁) :
    Reads (k + 1) o L (fun room => constMark >>= f room) c := by
  by_cases hc : c.kind = .constWord
  · have hp : Decided (k + 1) o (fun _ => constMark) c [c.current] c.next (.ok true) := by
      refine .step (by rw [hc]; decide) (by rw [hc]; decide) fun _ d _ hd => ?_
      rw [constMark, currentKind_bind, if_pos (by rw [Cursor.kind_congr hd, hc])]
      rfl
    exact hp.bind_reads (hf ⟨_, rfl, hc⟩ hp.passes)
  · refine (hf (show ConstSpelled [] false from rfl) .nil).congr fun _ d _ hd => ?_
    refine bind_of_ok ?_
    rw [constMark, currentKind_bind, if_neg (by rw [Cursor.kind_congr hd]; exact hc)]
    rfl

lemma varDecl_reads : Reads (k + 1) o VarDeclTokens (fun _ => varDecl .standard) c := by
  unfold varDecl
  refine .position_bind (constMark_bind fun {isConst cs c₁} hconst _ => ?_)
  refine type_bind ⟨[.word .intWord, .named ""],
    varDeclTokens hconst (show Ty.int.kind? = some _ from rfl) rfl (.inl rfl)⟩ fun {ty word c₂} hty _ => ?_
  refine .expectHinted_bind (by decide) (by decide) ⟨[.named ""], varDeclTokens hconst hty rfl (.inl rfl)⟩
    fun {name c₃} hname _ => .currentKind_bind (.ite (fun hassign => ?_) fun _ => ?_)
  · refine .advance_kind_bind hassign (by decide) (by decide) fun ht _ => ?_
    refine (expression_reads.map.mono fun us hus => ?_).bind_nil (.passed_bind (.pure rfl))
    exact varDeclTokens hconst hty hname (.inr ⟨_, us, rfl, ht, hus⟩)
  · exact .pure_bind (.passed_bind (.pure (varDeclTokens hconst hty hname (.inl rfl))))

end Declarations

/-! ## Assignments -/

/-- Reads an assignment behind its target. -/
def assignmentBehind (t : Tables) (target : Token) : Parser Assignment := do
  match assignOp? (← currentKind) with
  | some op =>
    let _ ← advance
    let value ← if op.takesValue then some <$> expression t .default else pure none
    return ⟨target.text, op, value, ⟨target.span.start, ← passed⟩⟩
  | none => misplaced "expected an assignment or a call"

lemma assignment_eq (t : Tables) : assignment t = expect .name >>= assignmentBehind t := rfl

lemma assignmentBehind_reads {name : Token} (hname : name.kind = .name) :
    Reads (k + 1) o (fun us => AssignmentTokens (name :: us))
      (fun _ => assignmentBehind .standard name) c := by
  unfold assignmentBehind
  refine .currentKind_bind ?_
  rcases hop : assignOp? c.kind with _ | op
  · exact .misplaced ⟨[_], assignmentTokens_increment hname⟩
  · have hkind := assignOp?_eq_some_iff.1 hop
    refine .advance_bind (by rw [hkind]; exact op.kind_ne) (by rw [hkind]; cases op <;> decide)
      (.ite (fun htakes => ?_) fun htakes => ?_)
    · refine (expression_reads.map.mono fun us hus => ?_).bind_nil (.passed_bind (.pure rfl))
      exact assignmentTokens_value hname hkind htakes hus
    · exact .pure_bind (.passed_bind (.pure (assignmentTokens_step hname hkind (by simpa using htakes))))

lemma assignment_reads : Reads (k + 1) o AssignmentTokens (fun _ => assignment .standard) c := by
  simp only [assignment_eq]
  exact .expect_bind (by decide) (by decide)
    ⟨[.named "", _], assignmentTokens_increment rfl⟩
    fun hname _ => assignmentBehind_reads hname

/-! ## Statements without statements in them -/

lemma declarationStmt_reads :
    Reads (k + 1) o StmtTokens (fun _ => declarationStmt .standard) c := by
  unfold declarationStmt
  refine varDecl_reads.bind (fun ts hts => ⟨[.word .semicolon], hts.stmt rfl⟩) fun _ hts _ => ?_
  exact .expect_bind (by decide) (by decide) ⟨[.word .semicolon], hts.stmt rfl⟩
    fun hs _ => .pure (hts.stmt hs)

/-- The token behind a name tells a call from an assignment. -/
lemma namedStmt_of_name {t : Tables} (hc : c.kind = .name) :
    namedStmt t c = (advance >>= fun name => currentKind >>= fun kind =>
      (if kind = .openParen then Stmt.call <$> callBehind (arguments t) name
        else Stmt.assignment <$> assignmentBehind t name) >>= fun stmt => do
      let _ ← expect .semicolon
      return stmt : Parser Stmt) c := by
  have hnext : (c.peek 1).kind = c.next.kind := by
    rw [Cursor.peek_one (by rw [hc]; decide), Cursor.kind]
  have hassignment : assignment t c = assignmentBehind t c.current c.next := by
    rw [assignment_eq]
    exact bind_of_ok (if_pos hc)
  rw [bind_of_ok (show advance c = .ok c.current c.next from rfl), namedStmt]
  simp only [currentKind_bind, peekKind_bind, hnext]
  by_cases hparen : c.next.kind = .openParen
  · simp only [if_pos hparen]
    exact bind_eq_bind (map_eq_map (callWith_of_name hc))
  · simp only [if_neg hparen]
    exact bind_eq_bind (map_eq_map hassignment)

lemma namedStmt_reads (hc : c.kind = .name) :
    Reads (k + 1) o StmtTokens (fun _ => namedStmt .standard) c := by
  refine .congr ?_ fun room d _ hd => namedStmt_of_name (by rw [Cursor.kind_congr hd, hc])
  refine .advance_kind_bind hc (by decide) (by decide) fun {name c₁} hname _ => .currentKind_bind ?_
  have hbefore : Reads (k + 1) (o + 1) (fun us => CallTokens (name :: us) ∨
      AssignmentTokens (name :: us)) (fun _ => if c₁.kind = .openParen then
        Stmt.call <$> callBehind (arguments .standard) name
      else Stmt.assignment <$> assignmentBehind .standard name) c₁ :=
    .ite (fun _ => ((callBehind_reads hname fun _ => arguments_reads).mono fun _ => Or.inl).map)
      fun _ => ((assignmentBehind_reads hname).mono fun _ => Or.inr).map
  have hstmt : ∀ {us} {semicolon : Token}, CallTokens (name :: us) ∨ AssignmentTokens (name :: us) →
      semicolon.kind = .semicolon → StmtTokens (name :: (us ++ [semicolon])) := fun hus hs =>
    hus.elim (·.stmt hs) (·.stmt hs)
  refine hbefore.bind (fun us hus => ⟨[.word .semicolon], hstmt hus rfl⟩) fun _ hus _ => ?_
  exact .expect_bind (by decide) (by decide) ⟨[.word .semicolon], hstmt hus rfl⟩
    fun hs _ => .pure (hstmt hus hs)

/-- An expression is read unless the token is there that stands behind it. -/
lemma ifAny_bind {L M : List Token → Prop} {p : Parser α} {β : Type} {a : α} {stop : Kind}
    {f : ℕ → α → Parser β} (hp : Reads (k + 1) o M (fun _ => p) c)
    (hL : ∀ ts, IfAny M ts → ∃ us, L (ts ++ us))
    (hf : ∀ {b : α} {c₁ ts}, IfAny M ts → c.Passes ts c₁ →
      Reads (k + 1) (o + ts.length) (fun us => L (ts ++ us)) (fun room => f room b) c₁) :
    Reads (k + 1) o L (fun room => if c.kind = stop then pure a >>= f room else p >>= f room) c :=
  .ite (fun _ => .pure_bind (hf (.inl rfl) .nil)) fun _ =>
    hp.bind (fun ts hts => hL ts (.inr hts)) fun h hts _ => hf (.inr hts) h

lemma returning_reads (hc : c.kind = .returnWord) :
    Reads (k + 1) o StmtTokens (fun _ => returning .standard) c := by
  unfold returning
  refine .advance_kind_bind hc (by decide) (by decide) fun hword _ => .currentKind_bind ?_
  refine ifAny_bind expression_reads.map
    (fun ts hts => ⟨[.word .semicolon], stmtTokens_returning hword hts rfl⟩) fun hts _ => ?_
  exact .expect_bind (by decide) (by decide) ⟨[.word .semicolon], stmtTokens_returning hword hts rfl⟩
    fun hs _ => .pure (stmtTokens_returning hword hts hs)

/-! ## Headers -/

lemma condition_reads : Reads (k + 1) o ConditionTokens (fun _ => condition .standard) c := by
  unfold condition
  refine .expect_bind (by decide) (by decide)
    ⟨.word .openParen :: ([.word .trueWord] ++ [.word .closeParen]), _, _, _, rfl, rfl,
      exprTokens_true, rfl⟩ fun {opened c₁} ho _ => ?_
  refine expression_reads.bind
    (fun ts hts => ⟨[.word .closeParen], opened, ts, _, rfl, ho, hts, rfl⟩) fun {_ _ ts} _ hts _ => ?_
  exact .expect_bind (by decide) (by decide)
    ⟨[.word .closeParen], opened, ts, _, rfl, ho, hts, rfl⟩
    fun {closed _} hcl _ => .pure ⟨opened, ts, closed, rfl, ho, hts, hcl⟩

lemma forInit_reads : Reads (k + 1) o InitTokens (fun _ => forInit .standard) c := by
  unfold forInit
  refine .currentKind_bind (.ite (fun _ => .pure initTokens_nil) fun _ => .ite (fun _ => ?_) fun _ => ?_)
  · exact (varDecl_reads.mono fun _ => VarDeclTokens.init).bind_nil (.pure rfl)
  · exact (assignment_reads.mono fun _ => AssignmentTokens.init).bind_nil (.pure rfl)

/-! ## Statements with blocks in them -/

lemma blockWith_reads {statements : ℕ → Parser (List Stmt)}
    (hstatements : ∀ {c₁ : Cursor}, c₁.ahead.length < c.ahead.length →
      Reads (k + 1) (o + 1) BodyTokens statements c₁) :
    Reads (k + 1) o BlockTokens (fun room => blockWith (statements room)) c := by
  unfold blockWith
  refine .expect_bind (by decide) (by decide) ⟨_, blockTokens_empty⟩ fun {opened c₁} ho h₁ => ?_
  refine (hstatements (h₁.length_lt (by simp))).bind
    (fun ts hts => ⟨[.word .closeBrace], blockTokens ho hts rfl⟩) fun _ hts _ => ?_
  exact .expect_bind (by decide) (by decide) ⟨[.word .closeBrace], blockTokens ho hts rfl⟩
    fun hcl _ => .pure (blockTokens ho hts hcl)

lemma kind_of_named {kind : Kind} (h : Tables.standard.statement kind = some .named) :
    kind = .name := by
  cases kind <;> cases h
  rfl

section Statements

variable {block : ℕ → Parser Block} {nested : ℕ → Parser Stmt}
  (hblock : ∀ {c₁ : Cursor} {o : ℕ}, c₁.ahead.length < c.ahead.length →
    Reads (k + 1) o BlockTokens block c₁)

include hblock

lemma whileWith_reads (hc : c.kind = .whileWord) :
    Reads (k + 1) o StmtTokens (fun room => whileWith .standard (block room)) c := by
  unfold whileWith
  refine .advance_kind_bind hc (by decide) (by decide) fun {word c₁} hword h₁ => ?_
  refine condition_reads.bind
    (fun ts hts => ⟨emptyBlock, stmtTokens_while hword hts blockTokens_empty⟩)
    fun {e c₂ ts} h₂ hts _ => ?_
  have hlen := (h₁.append h₂).length_lt (by simp)
  exact ((hblock hlen).mono fun us hus => stmtTokens_while hword hts hus).bind_nil (.pure rfl)

lemma forWith_reads (hc : c.kind = .forWord) :
    Reads (k + 1) o StmtTokens (fun room => forWith .standard (block room)) c := by
  -- the shortest ends of the statement behind the second and behind the first semicolon
  let update : List Token := [] ++ .word .closeParen :: emptyBlock
  let condition : List Token := [] ++ .word .semicolon :: update
  unfold forWith
  refine .advance_kind_bind hc (by decide) (by decide) fun {word c₁} hword h₁ => ?_
  refine .expect_bind (by decide) (by decide)
    ⟨.word .openParen :: ([] ++ .word .semicolon :: condition), stmtTokens_for hword rfl initTokens_nil
      rfl (.inl rfl) rfl (.inl rfl) rfl blockTokens_empty⟩ fun {opened c₂} ho h₂ => ?_
  refine forInit_reads.bind (fun is hinit => ⟨.word .semicolon :: condition, stmtTokens_for hword ho hinit
    rfl (.inl rfl) rfl (.inl rfl) rfl blockTokens_empty⟩) fun {init c₃ is} h₃ hinit _ => ?_
  refine .expect_bind (by decide) (by decide) ⟨.word .semicolon :: condition, stmtTokens_for hword ho hinit
    rfl (.inl rfl) rfl (.inl rfl) rfl blockTokens_empty⟩ fun {second c₄} hs₂ h₄ => .currentKind_bind ?_
  refine ifAny_bind expression_reads.map (fun ts hts => ⟨.word .semicolon :: update, stmtTokens_for hword ho
    hinit hs₂ hts rfl (.inl rfl) rfl blockTokens_empty⟩) fun {tested c₅ ts} hts h₅ => ?_
  refine .expect_bind (by decide) (by decide) ⟨.word .semicolon :: update, stmtTokens_for hword ho hinit hs₂
    hts rfl (.inl rfl) rfl blockTokens_empty⟩ fun {third c₆} hs₃ h₆ => .currentKind_bind ?_
  refine ifAny_bind assignment_reads.map (fun us hus => ⟨.word .closeParen :: emptyBlock, stmtTokens_for
    hword ho hinit hs₂ hts hs₃ hus rfl blockTokens_empty⟩) fun {last c₇ us} hus h₇ => ?_
  refine .expect_bind (by decide) (by decide) ⟨.word .closeParen :: emptyBlock, stmtTokens_for hword ho
    hinit hs₂ hts hs₃ hus rfl blockTokens_empty⟩ fun {closed c₈} hcl h₈ => ?_
  have hlen := (h₁.append (h₂.append (h₃.append (h₄.append (h₅.append (h₆.append
    (h₇.append h₈))))))).length_lt (by simp)
  exact ((hblock hlen).mono fun vs hvs =>
    stmtTokens_for hword ho hinit hs₂ hts hs₃ hus hcl hvs).bind_nil (.pure rfl)

section Nested

variable (hnested : ∀ {c₁ : Cursor} {o : ℕ}, c₁.ahead.length < c.ahead.length → c₁.kind = .ifWord →
    Reads (k + 1) (o + 1) ConditionalTokens nested c₁)

include hnested

lemma elseWith_reads :
    Reads (k + 1) o ElseTokens (fun room => elseWith (block room) (nested room)) c := by
  unfold elseWith
  refine .currentKind_bind (.ite (fun hc => ?_) fun _ => .pure elseTokens_nil)
  refine .advance_kind_bind hc (by decide) (by decide) fun hword h₁ => ?_
  have hlen := h₁.length_lt (by simp)
  refine .currentKind_bind (.ite (fun hif => ?_) fun _ => ?_)
  · exact ((hnested hlen hif).mono fun us hus => hus.elsePart hword).bind_nil (.pure rfl)
  · exact ((hblock hlen).mono fun us hus => hus.elsePart hword).map

lemma conditionalWith_reads (hc : c.kind = .ifWord) :
    Reads (k + 1) o ConditionalTokens
      (fun room => conditionalWith .standard (block room) (nested room)) c := by
  simp only [conditionalWith_eq]
  refine .advance_kind_bind hc (by decide) (by decide) fun {word c₁} hword h₁ => ?_
  refine condition_reads.bind
    (fun ts hts => ⟨emptyBlock ++ [], conditionalTokens hword hts blockTokens_empty elseTokens_nil⟩)
    fun {e c₂ hs} h₂ hhs _ => ?_
  have hlen₂ := (h₁.append h₂).length_lt (by simp)
  refine (hblock hlen₂).bind (fun ts hts => ⟨[], conditionalTokens hword hhs hts elseTokens_nil⟩)
    fun {b c₃ ts} h₃ hts _ => ?_
  have hlen₃ := h₃.length_eq
  have helse : ∀ {o : ℕ}, Reads (k + 1) o ElseTokens
      (fun room => elseWith (block room) (nested room)) c₃ :=
    elseWith_reads (fun h => hblock (by omega)) fun h => hnested (by omega)
  exact (helse.mono fun us hus => conditionalTokens hword hhs hts hus).bind_nil
    (.passed_bind (.pure rfl))

lemma statementWith_reads :
    Reads (k + 1) o StmtTokens
      (fun room => statementWith .standard (block room) (nested room)) c := by
  unfold statementWith
  refine .currentKind_bind ?_
  rcases hform : Tables.standard.statement c.kind with _ | form
  · exact .unexpected ⟨.word .returnWord :: ([] ++ [.word .semicolon]),
      stmtTokens_returning rfl (.inl rfl) rfl⟩
  obtain ⟨hif, hwhile, hfor, hreturn⟩ := kind_of_statement hform
  cases form with
  | declaration => exact declarationStmt_reads
  | named => exact namedStmt_reads (kind_of_named hform)
  | conditional =>
    exact (conditionalWith_reads hblock hnested (hif rfl)).mono fun _ => ConditionalTokens.stmt
  | whileLoop => exact whileWith_reads hblock (hwhile rfl)
  | forLoop => exact forWith_reads hblock (hfor rfl)
  | returning => exact returning_reads (hreturn rfl)

end Nested

end Statements

/-! ## The recursion -/

/-- The parsers of the recursion read what they should from a cursor on. -/
structure StatementsRead (k : ℕ) (c : Cursor) : Prop where
  statements : Reads (k + 1) 0 BodyTokens (statementsWithin .standard) c
  conditional : c.kind = .ifWord → Reads (k + 1) 0 ConditionalTokens (conditionalWithin .standard) c

section Recursion

variable (ih : ∀ c₁ : Cursor, c₁.ahead.length < c.ahead.length → StatementsRead k c₁)

include ih

lemma block_reads_of_lt {c₁ : Cursor} (h₁ : c₁.ahead.length < c.ahead.length) :
    Reads (k + 1) o BlockTokens (fun room => blockWith (statementsWithin .standard (room - 1))) c₁ :=
  have hstatements : ∀ {c₂ : Cursor}, c₂.ahead.length < c₁.ahead.length →
      Reads (k + 1) (o + 1) BodyTokens (fun room => statementsWithin .standard (room - 1)) c₂ := fun h₂ =>
    (ih _ (Nat.lt_trans h₂ h₁)).statements.within fun _ _ _ => by omega
  blockWith_reads hstatements

lemma conditional_reads_of_lt {c₁ : Cursor} (h₁ : c₁.ahead.length < c.ahead.length)
    (hc : c₁.kind = .ifWord) :
    Reads (k + 1) (o + 1) ConditionalTokens (fun room => conditionalWithin .standard (room - 1)) c₁ :=
  ((ih _ h₁).conditional hc).within fun _ _ _ => by omega

lemma conditionalWithin_reads (hc : c.kind = .ifWord) :
    Reads (k + 1) 0 ConditionalTokens (conditionalWithin .standard) c := by
  refine (conditionalWith_reads (block_reads_of_lt ih) (conditional_reads_of_lt ih) hc).congr
    fun room d hroom hd => ?_
  have hne : d.kind ≠ .endOfInput := by
    rw [Cursor.kind_congr hd, hc]
    decide
  obtain ⟨room, rfl⟩ := Cursor.exists_room hne hroom
  rw [conditionalWithin]
  rfl

lemma statementsWithin_reads : Reads (k + 1) 0 BodyTokens (statementsWithin .standard) c := by
  by_cases hclose : c.kind = .closeBrace
  · refine (Reads.pure (a := []) bodyTokens_nil).congr fun room d hroom hd => ?_
    have hkind : d.kind = .closeBrace := by rw [Cursor.kind_congr hd, hclose]
    obtain ⟨room, rfl⟩ := Cursor.exists_room (by rw [hkind]; decide) hroom
    exact statementsWithin_of_closeBrace hkind
  by_cases hend : c.kind = .endOfInput
  · refine .congr (q := fun _ => misplaced "expected `\x7d` to close the block")
      (.misplaced ⟨_, bodyTokens_nil⟩) fun room d hroom hd => ?_
    cases room with
    | zero => rw [statementsWithin]
    | succ room => exact statementsWithin_of_endOfInput (by rw [Cursor.kind_congr hd, hend])
  · refine Reads.congr (q := fun room =>
      statementWith .standard (blockWith (statementsWithin .standard (room - 1)))
        (conditionalWithin .standard (room - 1)) >>= fun first => do
      return first :: (← statementsWithin .standard (room - 1))) ?_ fun room d hroom hd => ?_
    · refine (statementWith_reads (block_reads_of_lt ih) (conditional_reads_of_lt ih)).bind
        (fun ts hts => ⟨[], hts.body bodyTokens_nil⟩) fun {first c₁ ts} h₁ hts _ => ?_
      have hpos := List.length_pos_iff.2 hts.ne_nil
      have hothers : Reads (k + 1) (0 + ts.length) BodyTokens
          (fun room => statementsWithin .standard (room - 1)) c₁ :=
        (ih c₁ (h₁.length_lt hts.ne_nil)).statements.within fun _ _ _ => by omega
      exact (hothers.mono fun us hus => hts.body hus).bind_nil (.pure rfl)
    · have hne : d.kind ≠ .endOfInput := by rwa [Cursor.kind_congr hd]
      obtain ⟨room, rfl⟩ := Cursor.exists_room hne hroom
      exact statementsWithin_succ (by rwa [Cursor.kind_congr hd]) hne

end Recursion

/-- A block and a nested `if` begin behind the first token, so that the parsers of the recursion read what
they should everywhere. -/
theorem statementsRead (k : ℕ) (c : Cursor) : StatementsRead k c :=
  have ih : ∀ c₁ : Cursor, c₁.ahead.length < c.ahead.length → StatementsRead k c₁ :=
    fun c₁ _ => statementsRead k c₁
  ⟨statementsWithin_reads ih, conditionalWithin_reads ih⟩
termination_by c.ahead.length

lemma block_reads : Reads (k + 1) o BlockTokens (fun _ => Grammar.block .standard) c :=
  Reads.withRoom (blockWith_reads fun _ =>
    (statementsRead k _).statements.within fun _ _ _ => by omega)

end LangCheck.Grammar
