import LangCheck.Proofs.Grammar.Steps
import LangCheck.Proofs.Grammar.SyntaxErrors

/-!
# Progress and the end of the input

Each item, statement and expression that is read passes a token, so that the recursions of the parser come
to an end before the bounds do that they are given (`Cursor.Settles`).  A run of the parser moves on through
the list of tokens up to the first end of input, and it looks at no token behind that.  The main result is
`Program.ofTokens_progress`.
-/

namespace LangCheck

open Grammar

namespace Grammar

variable {α : Type} {c c' : Cursor} {ts us : List Token} {p : ℕ → Parser α} {L : List Token → Prop}
  {a : α} {low : Power} {k o room : ℕ}

/-! ## What is read passes tokens -/

lemma Reads.exists_passes (h : Reads k o L p c) (hroom : c.ahead.length + o ≤ room)
    (hp : p room c = .ok a c') : ∃ ts, L ts ∧ c.Passes ts c' := by
  obtain ⟨ts, d, r, hd, hts⟩ := h
  have hrun := hd.run_self hroom
  rw [hp] at hrun
  cases r with
  | error _ => cases hrun
  | ok _ =>
    cases hrun
    exact ⟨ts, hts, hd.passes⟩

/-- Every room that suffices gives the same. -/
lemma Reads.run_eq (h : Reads k o L p c) {room' : ℕ} (hroom : c.ahead.length + o ≤ room)
    (hroom' : c.ahead.length + o ≤ room') : p room c = p room' c := by
  obtain ⟨ts, d, r, hd, -⟩ := h
  rw [hd.run_self hroom, hd.run_self hroom']

/-- What binds more tightly than any operator goes no further than its first part. -/
lemma expressionWithin_reads_of_lt (hlow : .unary < low) :
    Reads (k + 1) 0 (ExprTokens .unary) (fun room => expressionWithin .standard room low) c := by
  rcases hc : Tables.standard.opening c.kind with _ | form
  · exact expressionWithin_reads_of_none .unary hc
  · refine .congr (q := fun room => head .standard (room - 1) (some form) >>= pure)
      ((head_reads (fun c₁ _ => expressionsRead k c₁) hc).bind_nil (.pure rfl))
      fun room d hroom hd => ?_
    rw [expressionWithin_of_opening (by rwa [Cursor.kind_congr hd]) hroom]
    rcases hhead : head .standard (room - 1) (some form) d with ⟨left, d₁⟩ | ⟨e, d₁⟩
    · have hstop : d₁.nextPower ≤ low := Nat.le_trans (nextPower_le_suffix d₁) hlow
      rw [bind_of_ok hhead, continuationWithin_stops hstop]
      exact (bind_of_ok hhead).symm
    · rw [bind_of_error hhead]
      exact (bind_of_error hhead).symm

lemma expressionWithin_reads_any (low : Power) (c : Cursor) :
    Reads 1 0 (· ≠ []) (fun room => expressionWithin .standard room low) c := by
  by_cases hlow : low ≤ .unary
  · exact ((expressionsRead 0 c).expression hlow).mono fun _ => ExprTokens.ne_nil
  · exact (expressionWithin_reads_of_lt (Nat.lt_of_not_le hlow)).mono fun _ => ExprTokens.ne_nil

lemma statementWithin_reads (c : Cursor) :
    Reads 1 0 StmtTokens (fun room => statementWith .standard
      (blockWith (statementsWithin .standard room)) (conditionalWithin .standard room)) c := by
  have hblock : ∀ {c₁ : Cursor} {o : ℕ}, c₁.ahead.length < c.ahead.length →
      Reads 1 o BlockTokens (fun room => blockWith (statementsWithin .standard room)) c₁ :=
    fun {c₁ o} _ => blockWith_reads fun {c₂} _ =>
      (statementsRead 0 c₂).statements.within fun _ _ _ => by omega
  have hnested : ∀ {c₁ : Cursor} {o : ℕ}, c₁.ahead.length < c.ahead.length → c₁.kind = .ifWord →
      Reads 1 (o + 1) ConditionalTokens (conditionalWithin .standard) c₁ :=
    fun {c₁ o} _ hc => ((statementsRead 0 c₁).conditional hc).within fun _ _ _ => by omega
  exact statementWith_reads hblock hnested

/-- What is read from a cursor on passes a token. -/
structure Cursor.Progresses (c : Cursor) : Prop where
  item : ∀ {x c'}, item .standard c = .ok x c' → ∃ ts, ts ≠ [] ∧ c.Passes ts c'
  statement : ∀ {x c'}, statement .standard c = .ok x c' → ∃ ts, ts ≠ [] ∧ c.Passes ts c'
  expression : ∀ {power x c'}, expression .standard power c = .ok x c' →
    ∃ ts, ts ≠ [] ∧ c.Passes ts c'

theorem Cursor.progresses (c : Cursor) : c.Progresses where
  item h := by
    obtain ⟨ts, hts, hpasses⟩ :=
      (item_reads (k := 1) (o := 0) (Or.inl Nat.one_pos)).exists_passes (Nat.le_refl _) h
    exact ⟨ts, hts.ne_nil, hpasses⟩
  statement h := by
    obtain ⟨ts, hts, hpasses⟩ := (statementWithin_reads c).exists_passes (Nat.le_refl _) h
    exact ⟨ts, hts.ne_nil, hpasses⟩
  expression h := (expressionWithin_reads_any _ c).exists_passes (Nat.le_refl _) h

/-- The recursions from a cursor on come to an end by themselves: every bound that is not less than the
number of tokens left gives the same. -/
structure Cursor.Settles (c : Cursor) : Prop where
  expression : ∀ {power room}, c.ahead.length ≤ room →
    expressionWithin .standard room power c = expression .standard power c
  arguments : ∀ {room}, c.ahead.length < room →
    argumentsWithin .standard room c = arguments .standard c
  statement : ∀ {room}, c.ahead.length ≤ room →
    statementWith .standard (blockWith (statementsWithin .standard room))
      (conditionalWithin .standard room) c = Grammar.statement .standard c
  statements : ∀ {room}, c.ahead.length ≤ room →
    statementsWithin .standard room c = withRoom (statementsWithin .standard) c
  conditional : ∀ {room}, c.kind = .ifWord → c.ahead.length ≤ room →
    conditionalWithin .standard room c = conditional .standard c
  parameters : ∀ {room}, c.ahead.length < room →
    parametersWithin .standard room c = withRoom (fun n => parametersWithin .standard (n + 1)) c
  items : ∀ {room}, c.ahead.length ≤ room →
    itemsWithin .standard room c = withRoom (itemsWithin .standard) c

theorem Cursor.settles (c : Cursor) : c.Settles where
  expression h := (expressionWithin_reads_any _ c).run_eq h (Nat.le_refl _)
  arguments h := (expressionsRead 0 c).arguments.run_eq h (Nat.le_refl _)
  statement h := (statementWithin_reads c).run_eq h (Nat.le_refl _)
  statements h := (statementsRead 0 c).statements.run_eq h (Nat.le_refl _)
  conditional hc h := ((statementsRead 0 c).conditional hc).run_eq h (Nat.le_succ _)
  parameters h := (parametersWithin_reads (k := 0) c).run_eq h (Nat.le_refl _)
  items h := (itemsWithin_reads (k := 1) c (Or.inl Nat.one_pos)).run_eq h (Nat.le_refl _)

/-! ## The first end of input -/

variable {tokens others : List Token} {file : String}

/-- From a place in a list, what is not behind the first end of input is in the list. -/
lemma Cursor.Passes.look_terminated (h : (Cursor.start tokens file).Passes ts c)
    (hk : ∀ j < k, (c.peek j).kind ≠ .endOfInput) :
    ts.length + k ≤ (beforeEnd tokens).length ∧
      (terminated tokens file)[ts.length + k]? = some (c.peek k) := by
  obtain ⟨us, d, hus, hend⟩ := exists_passes_end c
  have hall := (h.append hus).eq_beforeEnd hend
  rw [beforeEnd_ahead_start] at hall
  have hle : k ≤ us.length := by
    by_contra hlt
    refine hk us.length (by omega) ?_
    have hpeek := hus.peek_add 0
    rw [Nat.add_zero, peek_zero] at hpeek
    rw [hpeek]
    exact hend
  have hlast := (List.getElem?_eq_some_iff.1 (h.append hus).take_terminated.2).1
  rw [List.length_append] at hlast
  refine ⟨by rw [← hall, List.length_append]; omega, ?_⟩
  have hget := List.getElem?_eq_getElem (l := terminated tokens file) (i := ts.length + k) (by omega)
  rw [hget, ← peek_start hget, h.peek_add]

lemma exists_eq_finished (r : EStateM.Result SyntaxError Cursor α) :
    ∃ s c, r = finished s c := by
  rcases r with ⟨a, c⟩ | ⟨e, c⟩
  · exact ⟨.ok a, c, rfl⟩
  · exact ⟨.error e, c, rfl⟩

end Grammar

namespace Program

variable {tokens others : List Token} {file : String} {c : Cursor} {i j : ℕ}

lemma ofTokens_of_run {r : Except SyntaxError Program}
    (h : program .standard (.start tokens file) = finished r c) : ofTokens tokens file = r := by
  rw [ofTokens, h]
  cases r <;> rfl

/-- The tokens in front of the first end of input are followed by one, and none of them is one. -/
lemma getElem?_terminated_end (tokens : List Token) (file : String) :
    (∃ t, (terminated tokens file)[(beforeEnd tokens).length]? = some t ∧ t.kind = .endOfInput) ∧
      ∀ t ∈ (terminated tokens file).take (beforeEnd tokens).length, t.kind ≠ .endOfInput := by
  obtain ⟨ts, d, hts, hend⟩ := exists_passes_end (Cursor.start tokens file)
  obtain ⟨htake, hget⟩ := hts.take_terminated
  have hall := hts.eq_beforeEnd hend
  rw [beforeEnd_ahead_start] at hall
  rw [← hall, htake]
  exact ⟨⟨_, hget, hend⟩, hts.kind_ne⟩

/-- What is read of a list depends on no other tokens than those that are looked at on the way. -/
theorem ofTokens_eq_of_trace {log : List Point}
    (hlog : Trace (program .standard) (.start tokens file) log)
    (hlength : (terminated others file).length = (terminated tokens file).length)
    (hlook : ∀ x ∈ log, (Cursor.start others file).peek
      ((Cursor.start tokens file).distance x.cursor + x.offset) = x.cursor.peek x.offset) :
    ofTokens others file = ofTokens tokens file := by
  have hahead : (Cursor.start others file).ahead.length = (Cursor.start tokens file).ahead.length := by
    rw [terminated_eq, terminated_eq, List.length_append, List.length_append] at hlength
    exact Nat.add_right_cancel hlength
  have hpassed : (Cursor.start others file).passed = (Cursor.start tokens file).passed := by
    rw [passed_start, passed_start]
  obtain ⟨r, d, hrun, hrun', -⟩ := hlog.run_eq hahead hpassed hlook
  rw [ofTokens_of_run hrun, ofTokens_of_run hrun']

/-- Lists that are the same up to the first end of input are read alike. -/
theorem ofTokens_congr
    (h : ∀ j ≤ (beforeEnd tokens).length,
      (terminated others file)[j]? = (terminated tokens file)[j]?) :
    ofTokens others file = ofTokens tokens file := by
  obtain ⟨r, c, hrun⟩ := exists_eq_finished (program .standard (.start tokens file))
  obtain ⟨ts, hd, -⟩ := exists_decided hrun (k := 1) (Or.inl Nat.one_pos)
  suffices hsuff : ∃ d, program .standard (.start others file) = finished r d by
    obtain ⟨d, hothers⟩ := hsuff
    rw [ofTokens_of_run hrun, ofTokens_of_run hothers]
  by_cases hend : c.kind = .endOfInput
  · -- nothing behind the end of input where the run ends was looked at
    have hdangles : ∀ d, ¬ (Cursor.start tokens file).Dangles d := by
      intro d hdangles
      rw [program_of_dangles hdangles] at hrun
      obtain ⟨-, -, -, -, -, hminus, -⟩ := hdangles
      cases r with
      | ok _ => cases hrun
      | error _ =>
        cases hrun
        rw [hminus] at hend
        cases hend
    obtain ⟨us, hd', -⟩ := exists_decided hrun (k := 0) (Or.inr hdangles)
    obtain rfl := hd.passes.unique hd'.passes
    obtain ⟨hle, hget⟩ := hd.passes.look_terminated (k := 0) (by simp)
    exact hd'.of_agree (List.getElem?_eq_some_iff.1 hget).1 fun j hj => h j (by omega)
  · obtain ⟨hle, hget⟩ := hd.passes.look_terminated (k := 1) (by
      intro j hj
      obtain rfl : j = 0 := by omega
      rwa [Cursor.peek_zero])
    exact hd.of_agree (List.getElem?_eq_some_iff.1 hget).1 fun j hj => h j (by omega)

/-- The tokens up to the first end of input, with this. -/
def cutAtEnd (tokens : List Token) : List Token := tokens.take ((beforeEnd tokens).length + 1)

lemma getElem?_terminated_cutAtEnd (hj : j ≤ (beforeEnd tokens).length) :
    (terminated (cutAtEnd tokens) file)[j]? = (terminated tokens file)[j]? := by
  by_cases hlast : (beforeEnd tokens).length < tokens.length
  · have hlength : (cutAtEnd tokens).length = (beforeEnd tokens).length + 1 := by
      rw [cutAtEnd, List.length_take, Nat.min_eq_left hlast]
    rw [getElem?_terminated (by omega), getElem?_terminated (by omega), cutAtEnd,
      List.getElem?_take, if_pos (by omega)]
  · -- there is no end of input in the list
    rw [cutAtEnd, List.take_of_length_le (by omega)]

/-- A run of the parser makes progress and stays in front of the first end of input.  It takes its steps at
places that never move back; each is at a token of the list up to the first end of input, which is the one
that is added if there is none, and so is the token that is looked at from there.  These are all the tokens
that matter: any other list of as many tokens with the same ones there is read alike.  Each item, statement and
expression that is read passes a token, wherever it is read, and the recursions come to an end before the
bounds that they are given.  What stands behind the first end of input does not matter. -/
theorem ofTokens_progress (tokens : List Token) (file : String) :
    let start := Cursor.start tokens file
    let all := terminated tokens file
    let last := (beforeEnd tokens).length
    (∃ t, all[last]? = some t ∧ t.kind = .endOfInput) ∧
    (∀ t ∈ all.take last, t.kind ≠ .endOfInput) ∧
    (∃ log, Trace (program .standard) start log ∧
      (log.map fun x => start.distance x.cursor).Pairwise (· ≤ ·) ∧
      (∀ x ∈ log, start.Passes (all.take (start.distance x.cursor)) x.cursor ∧
        start.distance x.cursor + x.offset ≤ last ∧
        all[start.distance x.cursor + x.offset]? = some (x.cursor.peek x.offset) ∧
        x.cursor.passed = (((all.take (start.distance x.cursor)).getLast?.map
          (·.span.stop)).getD ⟨1, file⟩)) ∧
      ∀ others, (terminated others file).length = all.length →
        (∀ x ∈ log, (terminated others file)[start.distance x.cursor + x.offset]? =
          all[start.distance x.cursor + x.offset]?) →
        ofTokens others file = ofTokens tokens file) ∧
    (∀ c : Cursor, c.Progresses ∧ c.Settles) ∧
    ofTokens (cutAtEnd tokens) file = ofTokens tokens file := by
  intro start all last
  obtain ⟨hend, hfront⟩ := getElem?_terminated_end tokens file
  obtain ⟨log, hlog⟩ : Traced (program .standard) start := program_traced
  obtain ⟨-, hpoints, hpairs⟩ := hlog.ordered
  have hlooks : ∀ x ∈ log, start.distance x.cursor + x.offset ≤ last ∧
      all[start.distance x.cursor + x.offset]? = some (x.cursor.peek x.offset) := by
    intro x hx
    obtain ⟨ts, hts⟩ := (hpoints x hx).1
    rw [hts.distance_eq]
    exact hts.look_terminated (hlog.kind_ne_of_lt x hx)
  refine ⟨hend, hfront, ⟨log, hlog, ?_, fun x hx => ?_, fun others hlength hothers => ?_⟩,
    fun c => ⟨c.progresses, c.settles⟩, ofTokens_congr fun j hj => getElem?_terminated_cutAtEnd hj⟩
  · -- a place is further from the start the fewer tokens are left there
    refine List.pairwise_map.2 (hpairs.imp fun {x y} h => ?_)
    obtain ⟨ts, hts⟩ := h
    have hlength := hts.length_eq
    rw [Cursor.distance, Cursor.distance]
    omega
  · obtain ⟨ts, hts⟩ := (hpoints x hx).1
    obtain ⟨hle, hget⟩ := hlooks x hx
    refine ⟨by rwa [hts.distance_eq, hts.take_terminated.1], hle, hget, ?_⟩
    rw [hts.distance_eq, hts.take_terminated.1]
    -- the last position is that of the last token passed, or the start of the file
    by_cases hne : ts = []
    · subst hne
      rw [Cursor.passes_nil_iff.1 hts, passed_start]
      rfl
    · rw [hts.passed_eq hne, List.getLast?_eq_some_getLast hne]
      rw [Span.covering, List.getLast?_eq_some_getLast hne]
      rfl
  · refine ofTokens_eq_of_trace hlog hlength fun x hx => peek_start ?_
    rw [hothers x hx, (hlooks x hx).2]

/-- A declaration, and a token behind the end of the input. -/
def halted : List Token :=
  [.word .intWord, .named "x", .word .semicolon, .word .endOfInput, .word .minus]

/-- The token behind the end is not looked at: without it and with any other one in its place the declaration
is read all the same. -/
theorem ofTokens_progress_halted :
    cutAtEnd halted = [.word .intWord, .named "x", .word .semicolon, .word .endOfInput] ∧
    ofTokens (cutAtEnd halted) "" = ofTokens halted "" ∧
    (∀ t : Token, t.kind ≠ .endOfInput → ofTokens (cutAtEnd halted ++ [t]) "" = ofTokens halted "") ∧
    ∃ log, Trace (program .standard) (.start halted "") log ∧
      ∀ x ∈ log, (Cursor.start halted "").distance x.cursor + x.offset ≤ 3 := by
  obtain ⟨-, -, ⟨log, hlog, -, hpoints, hothers⟩, -, hcut⟩ := ofTokens_progress halted ""
  refine ⟨by decide, hcut, fun t ht => ?_, log, hlog, fun x hx => (hpoints x hx).2.1⟩
  have hterminated : terminated (cutAtEnd halted ++ [t]) "" =
      cutAtEnd halted ++ ([t] ++ [.endOfInput t.span.stop.line ""]) := by
    rw [terminated, List.getLast?_concat, ← List.append_assoc]
    exact if_neg ht
  refine hothers _ (by rw [hterminated]; rfl) fun x hx => ?_
  have hle : (Cursor.start halted "").distance x.cursor + x.offset ≤ 3 := (hpoints x hx).2.1
  rw [hterminated, List.getElem?_append_left (Nat.lt_succ_of_le hle)]
  exact (List.getElem?_append_left (Nat.lt_succ_of_le hle)).symm

end Program

end LangCheck
