import LangCheck.Proofs.Grammar.ProgramRuns

/-!
# Where parsing stops

A list of tokens that is not a program is rejected at a token (`Program.RejectedAt`).  The first result
(`Program.ofTokens_blames`) says that the error is about this token, that no malformed token stands in
front of it, and that it depends on nothing behind the token that follows.  The second one
(`Program.ofTokens_correct_prefix`) says that the tokens in front of it can be continued to a program, and
that with it they cannot, unless it is a lone minus sign.
-/

namespace LangCheck

open Grammar

variable {tokens others ts us : List Token} {t : Token} {file : String} {c c' : Cursor}
  {e : SyntaxError} {i k : ℕ}

/-! ## Lists of tokens and cursors -/

/-- The tokens that are read of a list: if it does not end with an end of input, one is added on the line
on which the last token ends. -/
def terminated (tokens : List Token) (file : String) : List Token :=
  match tokens.getLast? with
  | none => [.endOfInput 1 file]
  | some last =>
    if last.kind = .endOfInput then tokens else tokens ++ [.endOfInput last.span.stop.line file]

lemma terminated_eq (tokens : List Token) (file : String) :
    terminated tokens file = (Cursor.start tokens file).ahead ++ [(Cursor.start tokens file).finish] := by
  unfold terminated Cursor.start
  rcases List.eq_nil_or_concat tokens with rfl | ⟨front, last, rfl⟩
  · rfl
  · rw [List.concat_eq_append, List.getLast?_append, List.getLast?_singleton, Option.some_or]
    by_cases hlast : last.kind = .endOfInput
    · obtain ⟨kind, text, span⟩ := last
      obtain rfl : kind = .endOfInput := hlast
      simp [Cursor.finish]
    · simp [hlast, Cursor.finish, Token.endOfInput]

/-- A list begins what is read of it. -/
lemma getElem?_terminated (hi : i < tokens.length) : (terminated tokens file)[i]? = tokens[i]? := by
  unfold terminated
  split
  · next h => simp [List.getLast?_eq_none_iff.1 h] at hi
  · split
    · rfl
    · rw [List.getElem?_append_left hi]

namespace Grammar

lemma peek_start {j : ℕ} (h : (terminated tokens file)[j]? = some t) :
    (Cursor.start tokens file).peek j = t := by
  rw [terminated_eq, List.getElem?_append] at h
  rw [Cursor.peek_eq]
  split at h
  · rw [h, Option.getD_some]
  · next hj =>
    rw [List.getElem?_eq_none (Nat.le_of_not_lt hj), Option.getD_none]
    rw [List.getElem?_singleton] at h
    split at h
    · exact Option.some.inj h
    · cases h

/-- Some tokens are passed at the start of a list exactly if they are the first ones of it. -/
lemma Cursor.Passes.take_terminated (h : (Cursor.start tokens file).Passes ts c) :
    (terminated tokens file).take ts.length = ts ∧
      (terminated tokens file)[ts.length]? = some c.current := by
  rw [terminated_eq, h.ahead_eq, List.append_assoc]
  refine ⟨List.take_left .., ?_⟩
  rw [List.getElem?_append_right (Nat.le_refl _), Nat.sub_self, ← h.finish_eq, Cursor.current]
  cases c.ahead <;> rfl

/-- The token behind the current one is the next one of the list. -/
lemma Cursor.Passes.getElem?_terminated_succ (h : (Cursor.start tokens file).Passes ts c)
    (hc : c.kind ≠ .endOfInput) : (terminated tokens file)[ts.length + 1]? = some (c.peek 1) := by
  rw [Cursor.peek_one hc]
  have hnext := (h.append (.cons hc .nil)).take_terminated.2
  rwa [List.length_append, List.length_singleton] at hnext

/-- The first tokens of a list are passed unless an end of input is among them. -/
lemma exists_passes_take (hi : i < (terminated tokens file).length)
    (hend : Endless ((terminated tokens file).take i)) :
    ∃ c, (Cursor.start tokens file).Passes ((terminated tokens file).take i) c := by
  rw [terminated_eq, List.length_append, List.length_singleton] at hi
  have htake : (terminated tokens file).take i = (Cursor.start tokens file).ahead.take i := by
    rw [terminated_eq, List.take_append_of_le_length (Nat.le_of_lt_succ hi)]
  rw [htake] at hend ⊢
  obtain ⟨c, hc, -⟩ := Cursor.exists_passes (List.take_append_drop i _).symm hend
  exact ⟨c, hc⟩

/-- Another cursor with the same tokens ahead passes them, too. -/
lemma Cursor.Passes.transfer (h : c.Passes ts c') :
    ∀ {d : Cursor}, (∀ j < ts.length, d.peek j = c.peek j) → ∃ d', d.Passes ts d' := by
  induction h with
  | nil => exact fun _ => ⟨_, .nil⟩
  | @cons c c' ts hkind h ih =>
    intro d hd
    have hcurrent : d.current = c.current := by
      rw [← Cursor.peek_zero, ← Cursor.peek_zero]
      exact hd 0 (Nat.succ_pos _)
    have hdkind : d.kind ≠ .endOfInput := by rwa [Cursor.kind_congr hcurrent]
    have hnext : ∀ {c : Cursor} (j : ℕ), c.kind ≠ .endOfInput → c.peek (1 + j) = c.next.peek j :=
      fun j hc => (Cursor.passes_singleton_iff.2 ⟨rfl, hc, rfl⟩).peek_add j
    obtain ⟨d', hd'⟩ := ih (d := d.next) fun j hj => by
      rw [← hnext j hdkind, ← hnext j hkind]
      exact hd _ (by simp; omega)
    exact ⟨d', hcurrent ▸ .cons hdkind hd'⟩

/-- A run that succeeds or fails at a place is decided there. -/
lemma exists_decided {r : Except SyntaxError Program} (h : program .standard c = finished r c')
    (hk : 0 < k ∨ ∀ c', ¬ c.Dangles c') :
    ∃ ts, Decided (k + 1) 0 (fun _ => program .standard) c ts c' r ∧ Keeps ItemsTokens r ts := by
  obtain ⟨ts, d, s, hd, hkeeps⟩ := program_reads hk
  have hrun := hd.run_self (Nat.le_refl _)
  rw [h] at hrun
  cases r <;> cases s <;> cases hrun <;> exact ⟨ts, hd, hkeeps⟩

lemma passed_start (tokens : List Token) (file : String) :
    (Cursor.start tokens file).passed = ⟨1, file⟩ := by
  unfold Cursor.start
  split
  · rfl
  · split <;> rfl

/-- Another list with the same tokens goes the same way. -/
lemma Decided.of_agree {r : Except SyntaxError Program}
    (h : Decided (k + 1) 0 (fun _ => program .standard) (.start tokens file) ts c' r)
    (hlast : ts.length + k < (terminated tokens file).length)
    (hagree : ∀ j ≤ ts.length + k, (terminated others file)[j]? = (terminated tokens file)[j]?) :
    ∃ d, program .standard (.start others file) = finished r d := by
  have hpeek : ∀ j ≤ ts.length + k,
      (Cursor.start others file).peek j = (Cursor.start tokens file).peek j := by
    intro j hj
    have ht := List.getElem?_eq_getElem (Nat.lt_of_le_of_lt hj hlast)
    rw [peek_start ht, peek_start ((hagree j hj).trans ht)]
  obtain ⟨d, hd⟩ := h.passes.transfer fun j hj => hpeek j (by omega)
  refine ⟨d, h.run (Nat.le_refl _) (by rw [passed_start, passed_start]) hd fun j hj => ?_⟩
  rw [← hd.peek_add, ← h.passes.peek_add]
  exact hpeek _ (by omega)

lemma beforeEnd_eq_self (h : Endless ts) : beforeEnd ts = ts := by
  rw [← List.append_nil ts, beforeEnd, List.takeWhile_append_of_pos (by simpa [Endless] using h),
    List.takeWhile_nil]

/-- Every cursor can come to the first end of input ahead. -/
lemma exists_passes_end (c : Cursor) : ∃ ts c', c.Passes ts c' ∧ c'.kind = .endOfInput := by
  by_cases hc : c.kind = .endOfInput
  · exact ⟨[], c, .nil, hc⟩
  · have := Cursor.length_next_lt hc
    obtain ⟨ts, c', h, hend⟩ := exists_passes_end c.next
    exact ⟨_, c', .cons hc h, hend⟩
termination_by c.ahead.length

/-- A program is read up to an end of input. -/
lemma kind_of_program {p : Program} (h : program .standard c = .ok p c') : c'.kind = .endOfInput := by
  simp only [program, position_bind, bind_eq_ok, pure_eq_ok] at h
  obtain ⟨items, c₁, hitems, rfl, ⟨⟩, rfl⟩ := h
  obtain ⟨-, -, -, hc'⟩ := itemsTaken_of_itemsWithin _ (Nat.le_refl _) hitems
  exact hc'

end Grammar

namespace Program

lemma ofTokens_eq_error :
    ofTokens tokens file = .error e ↔ ∃ c, program .standard (.start tokens file) = .error e c := by
  rw [ofTokens]
  constructor
  · intro h
    split at h
    · cases h
    · next d hrun =>
      cases h
      exact ⟨_, hrun⟩
  · rintro ⟨c, hrun⟩
    rw [hrun]

lemma ofTokens_eq_ok {p : Program} :
    ofTokens tokens file = .ok p ↔ ∃ c, program .standard (.start tokens file) = .ok p c := by
  rw [ofTokens]
  constructor
  · intro h
    split at h
    · next d hrun =>
      cases h
      exact ⟨_, hrun⟩
    · cases h
  · rintro ⟨c, hrun⟩
    rw [hrun]

/-- The parser fails with an error at the token with the given index. -/
def RejectedAt (tokens : List Token) (file : String) (i : ℕ) (e : SyntaxError) : Prop :=
  ∃ c, program .standard (.start tokens file) = .error e c ∧
    (Cursor.start tokens file).Passes ((terminated tokens file).take i) c

/-- If the error is not about a minus sign, no lone one was reached. -/
lemma not_dangles (h : program .standard c = .error e c') (hc' : c'.kind ≠ .minus) (d : Cursor) :
    ¬ c.Dangles d := by
  intro hd
  rw [program_of_dangles hd] at h
  cases h
  obtain ⟨-, -, -, -, -, hlone⟩ := hd
  exact hc' hlone.1

/-- Syntax errors name the token at fault and depend on nothing behind the one that follows.  If tokens are
read as a program, none of those in front of the first end of input is malformed.  If they are not, there
is a token at fault, not behind the first end of input and with no malformed one in front of it: the error
is about this token, and every other list that has the same tokens up to the one behind it, or up to the
token itself if that ends the input, is rejected with the same error. -/
theorem ofTokens_blames (tokens : List Token) (file : String) :
    (∀ p, ofTokens tokens file = .ok p → ∀ t ∈ beforeEnd tokens, t.kind ≠ .malformed) ∧
    ∀ e, ofTokens tokens file = .error e → ∃ i t, (terminated tokens file)[i]? = some t ∧
      RejectedAt tokens file i e ∧
      (∀ u ∈ (terminated tokens file).take i, u.kind ≠ .endOfInput ∧ u.kind ≠ .malformed) ∧
      e.Blames t ∧
      ∀ others, (∀ j ≤ if t.kind = .endOfInput then i else i + 1,
          (terminated others file)[j]? = (terminated tokens file)[j]?) →
        ofTokens others file = .error e := by
  constructor
  · intro p hp
    obtain ⟨c', hrun⟩ := ofTokens_eq_ok.1 hp
    obtain ⟨ts, hd, -⟩ := exists_decided (r := .ok p) hrun (k := 1) (Or.inl Nat.one_pos)
    rw [← beforeEnd_ahead_start tokens file, ← hd.passes.eq_beforeEnd (kind_of_program hrun)]
    exact hd.wellFormed
  · intro e he
    obtain ⟨c', hrun⟩ := ofTokens_eq_error.1 he
    obtain ⟨ts, hd, -⟩ := exists_decided (r := .error e) hrun (k := 1) (Or.inl Nat.one_pos)
    obtain ⟨htake, hcurrent⟩ := hd.passes.take_terminated
    have hi := (List.getElem?_eq_some_iff.1 hcurrent).1
    refine ⟨ts.length, c'.current, hcurrent, ⟨c', hrun, by rw [htake]; exact hd.passes⟩, ?_,
      hd.blames e rfl, fun others hagree => ?_⟩
    · rw [htake]
      exact fun u hu => ⟨hd.passes.kind_ne u hu, hd.wellFormed u hu⟩
    · by_cases hend : c'.current.kind = .endOfInput
      -- at the end of the input the token itself decides
      · rw [if_pos hend] at hagree
        have hminus : c'.kind ≠ .minus := by
          rw [Cursor.kind, hend]
          decide
        obtain ⟨us, hd', -⟩ := exists_decided (r := .error e) hrun (k := 0)
          (Or.inr (not_dangles hrun hminus))
        obtain rfl := hd.passes.unique hd'.passes
        exact ofTokens_eq_error.2 (hd'.of_agree hi hagree)
      · rw [if_neg hend] at hagree
        have hnext := (List.getElem?_eq_some_iff.1 (hd.passes.getElem?_terminated_succ hend)).1
        exact ofTokens_eq_error.2 (hd.of_agree hnext hagree)

/-- A declaration that is cut off by a malformed token. -/
def stray : List Token := [.word .intWord, .named "x", ⟨.malformed, "@", default⟩]

/-- The malformed token is at fault, and no list that begins in this way is read. -/
theorem ofTokens_blames_stray :
    ofTokens stray "" = .error ⟨.malformed "@", default⟩ ∧
    ∃ i t, (terminated stray "")[i]? = some t ∧
      RejectedAt stray "" i ⟨.malformed "@", default⟩ ∧
      (∀ u ∈ (terminated stray "").take i, u.kind ≠ .endOfInput ∧ u.kind ≠ .malformed) ∧
      SyntaxError.Blames ⟨.malformed "@", default⟩ t ∧
      ∀ others, (∀ j ≤ if t.kind = .endOfInput then i else i + 1,
          (terminated others "")[j]? = (terminated stray "")[j]?) →
        ofTokens others "" = .error ⟨.malformed "@", default⟩ := by
  have hrejected : ofTokens stray "" = .error ⟨.malformed "@", default⟩ := rfl
  exact ⟨hrejected, (ofTokens_blames stray "").2 _ hrejected⟩

/-! ## What can be continued -/

/-- The parser accepts tokens. -/
def Accepts (file : String) (tokens : List Token) : Prop := ∃ p, ofTokens tokens file = .ok p

/-- Tokens can be continued to some that the parser accepts. -/
def Viable (file : String) (tokens : List Token) : Prop := ∃ us, Accepts file (tokens ++ us)

/-- What is accepted are the items in front of the first end of input. -/
lemma accepts_iff : Accepts file tokens ↔ ItemsTokens (beforeEnd tokens) := by
  constructor
  · rintro ⟨p, hp⟩
    obtain ⟨c', hrun⟩ := ofTokens_eq_ok.1 hp
    have hend := kind_of_program hrun
    simp only [program, position_bind, bind_eq_ok, pure_eq_ok] at hrun
    obtain ⟨items, c₁, hitems, -, ⟨⟩, rfl⟩ := hrun
    obtain ⟨ts, hpasses, htaken, -⟩ := itemsTaken_of_itemsWithin _ (Nat.le_refl _) hitems
    rw [← beforeEnd_ahead_start tokens file, ← hpasses.eq_beforeEnd hend]
    exact ⟨items, htaken⟩
  · rintro ⟨items, htaken⟩
    obtain ⟨ts, c', hpasses, hend⟩ := exists_passes_end (Cursor.start tokens file)
    rw [← beforeEnd_ahead_start tokens file, ← hpasses.eq_beforeEnd hend] at htaken
    have hitems : withRoom (itemsWithin .standard) (.start tokens file) = .ok items c' :=
      itemsWithin_of_taken htaken (Nat.le_refl _) hpasses hend
    exact ⟨⟨items, _⟩, ofTokens_eq_ok.2 ⟨c', bind_of_ok hitems⟩⟩

lemma viable_of_itemsTokens (h : ItemsTokens (ts ++ us)) : Viable file ts :=
  ⟨us, accepts_iff.2 (by rwa [beforeEnd_eq_self h.endless])⟩

/-- The token with an index is a minus sign right behind the equals sign of a global variable, and no number
is behind it. -/
def LoneMinusAt (file : String) (tokens : List Token) (i : ℕ) : Prop :=
  ∃ ts us, (terminated tokens file).take i = ts ++ us ∧ Endless ts ∧ Accepts file ts ∧ GlobalHead us ∧
    (∃ t, (terminated tokens file)[i]? = some t ∧ t.kind = .minus) ∧
    ∀ t, (terminated tokens file)[i + 1]? = some t → t.kind ≠ .number

namespace RejectedAt

/-- The cursor is left at the token with the index. -/
lemma exists_cursor (h : RejectedAt tokens file i e) :
    ∃ c, program .standard (.start tokens file) = .error e c ∧
      (Cursor.start tokens file).Passes ((terminated tokens file).take i) c ∧
      ((terminated tokens file).take i).length = i ∧ (terminated tokens file)[i]? = some c.current := by
  obtain ⟨c, hrun, hpasses⟩ := h
  have hcurrent := hpasses.take_terminated.2
  have hi := (List.getElem?_eq_some_iff.1 hcurrent).1
  have hlen : ((terminated tokens file).take i).length = i := by
    rw [List.length_take] at hi ⊢
    omega
  rw [hlen] at hcurrent
  exact ⟨c, hrun, hpasses, hlen, hcurrent⟩

lemma viable (h : RejectedAt tokens file i e) : Viable file ((terminated tokens file).take i) := by
  obtain ⟨c, hrun, hpasses⟩ := h
  obtain ⟨ts, hd, us, hus⟩ := exists_decided (r := .error e) hrun (k := 1) (Or.inl Nat.one_pos)
  obtain rfl := hpasses.unique hd.passes
  exact viable_of_itemsTokens hus

lemma not_viable (h : RejectedAt tokens file i e)
    (hdangles : ∀ c, ¬ (Cursor.start tokens file).Dangles c) :
    ¬ Viable file ((terminated tokens file).take (i + 1)) := by
  rintro ⟨us, p, hp⟩
  obtain ⟨c, hrun, hpasses, hlen, hcurrent⟩ := h.exists_cursor
  obtain ⟨ts, hd, -⟩ := exists_decided (r := .error e) hrun (k := 0) (Or.inr hdangles)
  obtain rfl := hpasses.unique hd.passes
  have hi := (List.getElem?_eq_some_iff.1 hcurrent).1
  -- the other list has the same tokens up to the one at fault
  have hagree : ∀ j ≤ ((terminated tokens file).take i).length + 0,
      (terminated ((terminated tokens file).take (i + 1) ++ us) file)[j]? =
        (terminated tokens file)[j]? := by
    intro j hj
    have hlt : j < ((terminated tokens file).take (i + 1)).length := by
      rw [List.length_take]
      omega
    rw [getElem?_terminated (by rw [List.length_append]; omega), List.getElem?_append_left hlt,
      List.getElem?_take, if_pos (by omega)]
  have hfails := ofTokens_eq_error.2 (hd.of_agree (by omega) hagree)
  rw [hp] at hfails
  cases hfails

/-- If a lone minus sign is reached, it is the token with the index. -/
lemma loneMinusAt (h : RejectedAt tokens file i e) (hd : (Cursor.start tokens file).Dangles c') :
    LoneMinusAt file tokens i := by
  obtain ⟨c, hrun, hpasses, hlen, hcurrent⟩ := h.exists_cursor
  rw [program_of_dangles hd] at hrun
  cases hrun
  obtain ⟨ts, us, hpasses', hts, hus, hminus, hnumber⟩ := hd
  have hendless : Endless ts := (endless_append.1 hpasses'.kind_ne).1
  refine ⟨ts, us, hpasses.unique hpasses', hendless,
    accepts_iff.2 (by rwa [beforeEnd_eq_self hendless]), hus, ⟨_, hcurrent, hminus⟩, ?_⟩
  have hnext := hpasses.getElem?_terminated_succ (by rw [hminus]; decide)
  rw [hlen] at hnext
  rintro t ht
  rw [hnext] at ht
  cases ht
  exact hnumber

end RejectedAt

namespace LoneMinusAt

/-- A number behind the minus sign completes the declaration. -/
lemma viable (h : LoneMinusAt file tokens i) : Viable file ((terminated tokens file).take (i + 1)) := by
  obtain ⟨ts, us, htake, hendless, haccepts, ⟨hconst, hty, hname, hassign⟩, ⟨t, ht, hminus⟩, -⟩ := h
  rw [accepts_iff, beforeEnd_eq_self hendless] at haccepts
  have hvalue : LiteralTokens [t, .word .number] := ⟨_, .negated hminus rfl⟩
  have hsemicolon : (Token.word .semicolon).kind = .semicolon := rfl
  have hitem := itemTokens_global hconst hty hname (.inr ⟨_, _, rfl, hassign, hvalue⟩) hsemicolon
  have hitems : ItemsTokens ((terminated tokens file).take (i + 1) ++
      [.word .number, .word .semicolon]) := by
    rw [List.take_add_one, htake, ht]
    simpa using haccepts.append (hitem.items itemsTokens_nil)
  exact viable_of_itemsTokens hitems

/-- A lone minus sign is itself at fault. -/
lemma exists_rejectedAt (h : LoneMinusAt file tokens i) : ∃ e, RejectedAt tokens file i e := by
  obtain ⟨ts, us, htake, hendless, haccepts, hhead, ⟨t, ht, hminus⟩, hnumber⟩ := h
  rw [accepts_iff, beforeEnd_eq_self hendless] at haccepts
  have hi := (List.getElem?_eq_some_iff.1 ht).1
  obtain ⟨c, hpasses⟩ := exists_passes_take hi (by
    rw [htake]
    exact endless_append.2 ⟨hendless, hhead.endless⟩)
  have hlen : ((terminated tokens file).take i).length = i := by
    rw [List.length_take]
    omega
  have hcurrent := hpasses.take_terminated.2
  rw [hlen, ht] at hcurrent
  cases hcurrent
  have hnext := hpasses.getElem?_terminated_succ (by rw [Cursor.kind, hminus]; decide)
  rw [hlen] at hnext
  have hdangles : (Cursor.start tokens file).Dangles c :=
    ⟨ts, us, htake ▸ hpasses, haccepts, hhead, hminus, hnumber _ hnext⟩
  exact ⟨_, c, program_of_dangles hdangles, hpasses⟩

end LoneMinusAt

/-- The tokens in front of the one at which a list is rejected can be continued to a program, and together
with it they cannot.  The one exception is a minus sign right behind the equals sign of a global variable
without a number behind it, which is itself at fault. -/
theorem ofTokens_correct_prefix (tokens : List Token) (file : String) :
    (∀ e, ofTokens tokens file = .error e → ∃ i, RejectedAt tokens file i e) ∧
    (∀ i e, RejectedAt tokens file i e →
      Viable file ((terminated tokens file).take i) ∧
      (Viable file ((terminated tokens file).take (i + 1)) ↔ LoneMinusAt file tokens i)) ∧
    ∀ i, LoneMinusAt file tokens i → ∃ e, RejectedAt tokens file i e := by
  refine ⟨fun e he => ?_, fun i e h => ⟨h.viable, fun hviable => ?_, LoneMinusAt.viable⟩,
    fun i h => h.exists_rejectedAt⟩
  · obtain ⟨c, hrun⟩ := ofTokens_eq_error.1 he
    obtain ⟨ts, hd, -⟩ := exists_decided (r := .error e) hrun (k := 1) (Or.inl Nat.one_pos)
    exact ⟨ts.length, c, hrun, by rw [hd.passes.take_terminated.1]; exact hd.passes⟩
  · by_contra hlone
    exact h.not_viable (fun c hd => hlone (h.loneMinusAt hd)) hviable

/-- A declaration whose initialiser is a minus sign alone. -/
def bareMinus : List Token :=
  [.word .intWord, .named "x", .word .assign, .word .minus, .word .semicolon]

/-- The minus sign is at fault, although it can be continued. -/
theorem ofTokens_correct_prefix_bareMinus :
    ofTokens bareMinus "" = .error ⟨.misplaced "" "expected a literal value", default⟩ ∧
    LoneMinusAt "" bareMinus 3 ∧ (∃ e, RejectedAt bareMinus "" 3 e) ∧
    Viable "" ((terminated bareMinus "").take 3) ∧ Viable "" ((terminated bareMinus "").take 4) := by
  have hlone : LoneMinusAt "" bareMinus 3 := by
    have hhead : GlobalHead ([] ++ [.word .intWord, .named "x", .word .assign]) :=
      .intro (show ConstSpelled [] false from rfl) (show Ty.int.kind? = _ from rfl) rfl rfl
    refine ⟨[], _, rfl, endless_nil, ⟨_, rfl⟩, hhead, ⟨_, rfl, rfl⟩, ?_⟩
    rintro t ⟨⟩
    decide
  obtain ⟨-, hprefix, hminus⟩ := ofTokens_correct_prefix bareMinus ""
  obtain ⟨e, he⟩ := hminus 3 hlone
  obtain ⟨hviable, hcontinued⟩ := hprefix 3 e he
  exact ⟨rfl, hlone, ⟨e, he⟩, hviable, hcontinued.2 hlone⟩

end Program

end LangCheck
