import LangCheck.Proofs.Grammar.Programs

/-!
# What a run depends on

A run of a parser passes some tokens and then succeeds or fails, and on the way it looks at the tokens
that it passes and at a few behind them.  So it goes the same from every other cursor that has these
tokens ahead, whatever comes later (`Decided`).  If it fails, the error is about the token at which the
cursor is left (`SyntaxError.Blames`), and the tokens passed are the beginning of some that would have
been read (`Keeps`).

The rules below show this for parsers that are put together from others (`Reads`).  They are stated for
families of parsers, one for each room, because the parsers of nested productions take a bound on the
tokens ahead: a family is decided when it goes the same for every room that suffices.
-/

namespace LangCheck

/-- An error is about a token: it names the beginning and the text of the token, and it says that the token
is malformed exactly if it is. -/
structure SyntaxError.Blames (e : SyntaxError) (t : Token) : Prop where
  position : e.position = t.span.start
  text : e.fault.token = t.text
  malformed : (∃ text, e.fault = .malformed text) ↔ t.kind = .malformed

namespace Grammar

variable {α β : Type} {c c' d d' : Cursor} {ts us : List Token} {t : Token} {k o : ℕ}

/-! ## Cursors with the same tokens ahead -/

namespace Cursor

lemma kind_congr (h : d.current = c.current) : d.kind = c.kind := congrArg Token.kind h

lemma length_next_lt (h : c.kind ≠ .endOfInput) : c.next.ahead.length < c.ahead.length := by
  rw [ahead_of_kind_ne h]
  exact Nat.lt_succ_self _

/-- Where there is a token to be read, there is room. -/
lemma exists_room {room : ℕ} (h : c.kind ≠ .endOfInput) (hroom : c.ahead.length ≤ room) :
    ∃ n, room = n + 1 :=
  Nat.exists_eq_add_one.2 (Nat.zero_lt_of_lt (Nat.lt_of_lt_of_le (length_next_lt h) hroom))

lemma peek_eq (c : Cursor) (j : ℕ) : c.peek j = (c.ahead[j]?).getD c.finish := rfl

/-- The two cursors tell the tokens. -/
lemma Passes.unique (h : c.Passes ts c') (h' : c.Passes us c') : ts = us :=
  List.append_cancel_right (h.ahead_eq.symm.trans h'.ahead_eq)

/-- What is ahead behind some tokens is ahead of them, too. -/
lemma Passes.peek_add (h : c.Passes ts c') (j : ℕ) : c.peek (ts.length + j) = c'.peek j := by
  rw [peek_eq, peek_eq, h.ahead_eq, h.finish_eq, List.getElem?_append_right (Nat.le_add_right _ j),
    Nat.add_sub_cancel_left]

lemma Passes.peek_of_lt (h : c.Passes ts c') {j : ℕ} (hj : j < ts.length) : c.peek j = ts[j] := by
  rw [peek_eq, h.ahead_eq, List.getElem?_append_left hj, List.getElem?_eq_getElem hj, Option.getD_some]

/-- Two cursors with the same tokens ahead, and the same behind these, see the same. -/
lemma Passes.peek_congr (h : c.Passes ts c') (h' : d.Passes ts d')
    (hlook : ∀ j < k, d'.peek j = c'.peek j) : ∀ j < ts.length + k, d.peek j = c.peek j := by
  intro j hj
  by_cases hlt : j < ts.length
  · rw [h.peek_of_lt hlt, h'.peek_of_lt hlt]
  · obtain ⟨i, rfl⟩ := Nat.exists_eq_add_of_le (Nat.le_of_not_lt hlt)
    rw [h.peek_add, h'.peek_add]
    exact hlook i (by omega)

lemma Passes.current_congr (h : c.Passes ts c') (h' : d.Passes ts d')
    (hlook : ∀ j < k + 1, d'.peek j = c'.peek j) : d.current = c.current := by
  rw [← peek_zero, ← peek_zero]
  exact h.peek_congr h' hlook 0 (by omega)

lemma Passes.passed_congr (h : c.Passes ts c') (h' : d.Passes ts d') (hpassed : d.passed = c.passed) :
    d'.passed = c'.passed := by
  by_cases hts : ts = []
  · subst hts
    rw [passes_nil_iff.1 h, passes_nil_iff.1 h', hpassed]
  · rw [h.passed_eq hts, h'.passed_eq hts]

end Cursor

/-! ## Runs that are decided -/

/-- The end of a run. -/
def finished (r : Except SyntaxError α) (c : Cursor) : EStateM.Result SyntaxError Cursor α :=
  match r with
  | .ok a => .ok a c
  | .error e => .error e c

/-- The runs of a family of parsers from `c` on pass the tokens `ts` and come to an end at `c'`.  They look
at no more than `k` tokens from there on: every other cursor with the same tokens ahead will do.  The
room of a run is at least `o` more than the number of tokens ahead. -/
structure Decided (k o : ℕ) (p : ℕ → Parser α) (c : Cursor) (ts : List Token) (c' : Cursor)
    (r : Except SyntaxError α) : Prop where
  passes : c.Passes ts c'
  wellFormed : ∀ t ∈ ts, t.kind ≠ .malformed
  blames : ∀ e, r = .error e → e.Blames c'.current
  run : ∀ {room d d'}, d.ahead.length + o ≤ room → d.passed = c.passed → d.Passes ts d' →
    (∀ j < k, d'.peek j = c'.peek j) → p room d = finished r d'

lemma Decided.run_self {p : ℕ → Parser α} {r : Except SyntaxError α} {room : ℕ}
    (h : Decided k o p c ts c' r) (hroom : c.ahead.length + o ≤ room) : p room c = finished r c' :=
  h.run hroom rfl h.passes fun _ _ => rfl

/-- The tokens that a run passes are what was to be read, or if it fails, the beginning of that. -/
def Keeps (L : List Token → Prop) (r : Except SyntaxError α) (ts : List Token) : Prop :=
  match r with
  | .ok _ => L ts
  | .error _ => ∃ us, L (ts ++ us)

lemma Keeps.append {L : List Token → Prop} {r : Except SyntaxError α}
    (h : Keeps (fun us => L (ts ++ us)) r us) : Keeps L r (ts ++ us) := by
  cases r with
  | ok _ => exact h
  | error _ =>
    obtain ⟨vs, hvs⟩ := h
    exact ⟨vs, by rwa [List.append_assoc]⟩

/-- A family of parsers is decided from `c` on, and reads tokens for which `L` holds. -/
def Reads (k o : ℕ) (L : List Token → Prop) (p : ℕ → Parser α) (c : Cursor) : Prop :=
  ∃ ts c' r, Decided k o p c ts c' r ∧ Keeps L r ts

lemma bind_of_ok {p : Parser α} {f : α → Parser β} {a : α} (h : p c = .ok a c') :
    (p >>= f) c = f a c' := by
  change EStateM.bind p f c = _
  rw [EStateM.bind, h]

lemma bind_of_error {p : Parser α} {f : α → Parser β} {e : SyntaxError} (h : p c = .error e c') :
    (p >>= f) c = .error e c' := by
  change EStateM.bind p f c = _
  rw [EStateM.bind, h]

lemma bind_eq_bind {p q : Parser α} {f : α → Parser β} (h : p c = q d) :
    (p >>= f) c = (q >>= f) d := by
  change EStateM.bind p f c = EStateM.bind q f d
  rw [EStateM.bind, EStateM.bind, h]

lemma map_eq_map {p q : Parser α} {g : α → β} (h : p c = q d) : (g <$> p) c = (g <$> q) d := by
  rw [map_eq_pure_bind, map_eq_pure_bind]
  exact bind_eq_bind h

namespace Decided

variable {p : ℕ → Parser α} {f : ℕ → α → Parser β} {c₁ : Cursor} {a : α} {e : SyntaxError}

lemma bind_of_error (h : Decided k o p c ts c' (.error e)) :
    Decided k o (fun room => p room >>= f room) c ts c' (.error e) := by
  refine ⟨h.passes, h.wellFormed, fun e' he' => h.blames e' ?_, fun hroom hpassed hd hlook => ?_⟩
  · cases he'
    rfl
  · exact Grammar.bind_of_error (h.run hroom hpassed hd hlook)

/-- A run that goes on behind another one has the more room the more tokens that one passed. -/
lemma bind {r : Except SyntaxError β} (hp : Decided k o p c ts c₁ (.ok a))
    (hf : Decided k (o + ts.length) (fun room => f room a) c₁ us c' r) :
    Decided k o (fun room => p room >>= f room) c (ts ++ us) c' r := by
  refine ⟨hp.passes.append hf.passes, fun t ht => ?_, hf.blames, fun hroom hpassed hd hlook => ?_⟩
  · exact (List.mem_append.1 ht).elim (hp.wellFormed t) (hf.wellFormed t)
  · obtain ⟨d₁, h₁, h₂⟩ := Cursor.passes_append_iff.1 hd
    have hlen := h₁.length_eq
    have hlook₁ := hf.passes.peek_congr h₂ hlook
    rw [bind_of_ok (hp.run hroom hpassed h₁ fun j hj => hlook₁ j (by omega))]
    exact hf.run (by omega) (hp.passes.passed_congr h₁ hpassed) h₂ hlook

lemma bind_reads {L : List Token → Prop} (hp : Decided k o p c ts c₁ (.ok a))
    (hf : Reads k (o + ts.length) (fun us => L (ts ++ us)) (fun room => f room a) c₁) :
    Reads k o L (fun room => p room >>= f room) c := by
  obtain ⟨us, c', r, hf, hus⟩ := hf
  exact ⟨ts ++ us, c', r, hp.bind hf, hus.append⟩

/-- A parser that passes the current token. -/
lemma step (hend : c.kind ≠ .endOfInput) (hmalformed : c.kind ≠ .malformed)
    (hp : ∀ room d, d.ahead.length + o ≤ room → d.current = c.current → p room d = .ok a d.next) :
    Decided k o p c [c.current] c.next (.ok a) := by
  refine ⟨Cursor.passes_singleton_iff.2 ⟨rfl, hend, rfl⟩, ?_, nofun, fun hroom _ hd _ => ?_⟩
  · rintro t ht
    rwa [List.mem_singleton.1 ht]
  · rw [(Cursor.passes_singleton_iff.1 hd).2.2]
    exact hp _ _ hroom hd.current_eq

/-- A parser that fails at the current token. -/
lemma fail (he : e.Blames c.current)
    (hp : ∀ room d, d.ahead.length + o ≤ room → (∀ j < k + 1, d.peek j = c.peek j) →
      p room d = .error e d) : Decided (k + 1) o p c [] c (.error e) := by
  refine ⟨.nil, by simp, ?_, fun hroom _ hd hlook => ?_⟩
  · rintro _ ⟨⟩
    exact he
  · obtain rfl := Cursor.passes_nil_iff.1 hd
    exact hp _ _ hroom hlook

end Decided

/-! ## Rules -/

namespace Reads

variable {p q : ℕ → Parser α} {f : ℕ → α → Parser β} {L L₁ : List Token → Prop}

lemma mono (h : Reads k o L₁ p c) (hL : ∀ ts, L₁ ts → L ts) : Reads k o L p c := by
  obtain ⟨ts, c', r, hp, hts⟩ := h
  refine ⟨ts, c', r, hp, ?_⟩
  cases r with
  | ok _ => exact hL _ hts
  | error _ => exact hts.imp fun us => hL _

/-- Parsers that do the same wherever they may stand. -/
protected lemma congr (h : Reads (k + 1) o L q c)
    (hpq : ∀ room d, d.ahead.length + o ≤ room → d.current = c.current → p room d = q room d) :
    Reads (k + 1) o L p c := by
  obtain ⟨ts, c', r, hq, hts⟩ := h
  refine ⟨ts, c', r, ⟨hq.passes, hq.wellFormed, hq.blames, fun hroom hpassed hd hlook => ?_⟩, hts⟩
  rw [hpq _ _ hroom (hq.passes.current_congr hd hlook)]
  exact hq.run hroom hpassed hd hlook

/-- A parser that is given another room, as long as this one suffices. -/
lemma within {g : ℕ → ℕ} {o' : ℕ} (h : Reads k o L p c)
    (hg : ∀ n room, n + o' ≤ room → n + o ≤ g room) : Reads k o' L (fun room => p (g room)) c := by
  obtain ⟨ts, c', r, hp, hts⟩ := h
  exact ⟨ts, c', r, ⟨hp.passes, hp.wellFormed, hp.blames, fun hroom => hp.run (hg _ _ hroom)⟩, hts⟩

/-- A parser that takes as much room as there are tokens. -/
lemma withRoom (h : Reads k 0 L p c) : Reads k o L (fun _ => Grammar.withRoom p) c := by
  obtain ⟨ts, c', r, hp, hts⟩ := h
  exact ⟨ts, c', r, ⟨hp.passes, hp.wellFormed, hp.blames, fun _ => hp.run (Nat.le_refl _)⟩, hts⟩

protected lemma pure {a : α} (hL : L []) : Reads k o L (fun _ => pure a) c := by
  refine ⟨[], c, .ok a, ⟨.nil, by simp, nofun, fun _ _ hd _ => ?_⟩, hL⟩
  rw [Cursor.passes_nil_iff.1 hd]
  rfl

lemma pure_bind {a : α} (h : Reads k o L (fun room => f room a) c) :
    Reads k o L (fun room => pure a >>= f room) c := h

/-- What is read by one parser after another.  Whatever the first one reads must have a continuation. -/
lemma bind (hp : Reads k o L₁ p c) (hL : ∀ ts, L₁ ts → ∃ us, L (ts ++ us))
    (hf : ∀ {a c₁ ts}, c.Passes ts c₁ → L₁ ts → p (c.ahead.length + o) c = .ok a c₁ →
      Reads k (o + ts.length) (fun us => L (ts ++ us)) (fun room => f room a) c₁) :
    Reads k o L (fun room => p room >>= f room) c := by
  obtain ⟨ts, c₁, r, hp, hts⟩ := hp
  cases r with
  | error e =>
    obtain ⟨us, hus⟩ := hts
    obtain ⟨vs, hvs⟩ := hL _ hus
    exact ⟨ts, c₁, .error e, hp.bind_of_error, us ++ vs, by rwa [← List.append_assoc]⟩
  | ok a => exact hp.bind_reads (hf hp.passes hts (hp.run_self (Nat.le_refl _)))

/-- The second parser passes no token. -/
lemma bind_nil (hp : Reads k o L p c)
    (hf : ∀ {a c₁ o'}, Reads k o' (· = []) (fun room => f room a) c₁) :
    Reads k o L (fun room => p room >>= f room) c :=
  hp.bind (fun ts hts => ⟨[], by rwa [List.append_nil]⟩) fun _ hts _ => hf.mono fun us hus => by
    rwa [hus, List.append_nil]

lemma map {g : α → β} (h : Reads k o L p c) : Reads k o L (fun room => g <$> p room) c := by
  have hbind : (fun room => g <$> p room) = fun room => p room >>= fun a => pure (g a) :=
    funext fun room => map_eq_pure_bind g (p room)
  rw [hbind]
  exact h.bind_nil (.pure rfl)

lemma currentKind_bind {f : ℕ → Kind → Parser β} (h : Reads (k + 1) o L (fun room => f room c.kind) c) :
    Reads (k + 1) o L (fun room => currentKind >>= f room) c :=
  h.congr fun room d _ hd => by rw [Grammar.currentKind_bind, Cursor.kind_congr hd]

lemma position_bind {f : ℕ → Position → Parser β}
    (h : Reads (k + 1) o L (fun room => f room c.position) c) :
    Reads (k + 1) o L (fun room => position >>= f room) c :=
  h.congr fun room d _ hd => by rw [Grammar.position_bind, Cursor.position, hd, Cursor.position]

lemma passed_bind {f : ℕ → Position → Parser β} (h : Reads k o L (fun room => f room c.passed) c) :
    Reads k o L (fun room => passed >>= f room) c := by
  obtain ⟨ts, c', r, hp, hts⟩ := h
  refine ⟨ts, c', r, ⟨hp.passes, hp.wellFormed, hp.blames, fun hroom hpassed hd hlook => ?_⟩, hts⟩
  rw [Grammar.passed_bind, hpassed]
  exact hp.run hroom hpassed hd hlook

protected lemma ite {P : Prop} [Decidable P] (hp : P → Reads k o L p c)
    (hq : ¬ P → Reads k o L q c) : Reads k o L (fun room => if P then p room else q room) c := by
  by_cases h : P
  · simp only [if_pos h]
    exact hp h
  · simp only [if_neg h]
    exact hq h

end Reads

/-! ## Parsers that look at one token -/

lemma blames_unexpected (c : Cursor) : c.unexpected.Blames c.current := by
  by_cases h : c.current.kind = .malformed <;>
    refine ⟨rfl, ?_, ?_⟩ <;> simp [Cursor.unexpected, Token.isMalformed, SyntaxFault.token, h]

lemma blames_misplaced (c : Cursor) (hint : String) : (c.misplaced hint).Blames c.current := by
  by_cases h : c.current.kind = .malformed <;>
    refine ⟨rfl, ?_, ?_⟩ <;> simp [Cursor.misplaced, Token.isMalformed, SyntaxFault.token, h]

namespace Reads

variable {p : ℕ → Parser α} {kind : Kind} {e : SyntaxError} {L : List Token → Prop}

lemma fail (hL : ∃ us, L us) (he : e.Blames c.current)
    (hp : ∀ room d, d.ahead.length + o ≤ room → d.current = c.current → p room d = .error e d) :
    Reads (k + 1) o L p c := by
  refine ⟨[], c, .error e, .fail he fun room d hroom hlook => hp room d hroom ?_, hL⟩
  rw [← Cursor.peek_zero, ← Cursor.peek_zero]
  exact hlook 0 (Nat.succ_pos k)

lemma unexpected (hL : ∃ us, L us) :
    Reads (k + 1) o L (fun _ => (Grammar.unexpected : Parser α)) c :=
  fail hL (blames_unexpected c) fun _ d _ hd => by
    rw [Grammar.unexpected, Cursor.unexpected, Cursor.unexpected, hd]

lemma misplaced {hint : String} (hL : ∃ us, L us) :
    Reads (k + 1) o L (fun _ => (Grammar.misplaced hint : Parser α)) c :=
  fail hL (blames_misplaced c hint) fun _ d _ hd => by
    rw [Grammar.misplaced, Cursor.misplaced, Cursor.misplaced, hd]

section Tokens

variable {f : ℕ → Token → Parser α}

lemma advance_bind (hend : c.kind ≠ .endOfInput) (hmalformed : c.kind ≠ .malformed)
    (hf : Reads k (o + 1) (fun us => L (c.current :: us)) (fun room => f room c.current) c.next) :
    Reads k o L (fun room => advance >>= f room) c :=
  (Decided.step hend hmalformed fun _ d _ hd => by rw [advance, hd]).bind_reads hf

/-- A token of a kind that is known is passed. -/
lemma advance_kind_bind (hc : c.kind = kind) (hend : kind ≠ .endOfInput) (hmalformed : kind ≠ .malformed)
    (hf : ∀ {t c₁}, t.kind = kind → c.Passes [t] c₁ →
      Reads k (o + 1) (fun us => L (t :: us)) (fun room => f room t) c₁) :
    Reads k o L (fun room => advance >>= f room) c := by
  subst hc
  exact advance_bind hend hmalformed (hf rfl (Cursor.passes_singleton_iff.2 ⟨rfl, hend, rfl⟩))

/-- A token of the given kind is there, or the parser fails with an error about the token that is. -/
lemma expectOr_bind {error : Cursor → SyntaxError} (hend : kind ≠ .endOfInput)
    (hmalformed : kind ≠ .malformed) (hblames : (error c).Blames c.current)
    (herror : ∀ d, d.current = c.current → error d = error c) (hL : ∃ us, L us)
    (hf : ∀ {t c₁}, t.kind = kind → c.Passes [t] c₁ →
      Reads (k + 1) (o + 1) (fun us => L (t :: us)) (fun room => f room t) c₁) :
    Reads (k + 1) o L (fun room => (fun c => expectOr kind (error c) c : Parser Token) >>= f room)
      c := by
  by_cases hc : c.kind = kind
  · subst hc
    refine (Decided.step hend hmalformed fun _ d _ hd => ?_).bind_reads
      (hf rfl (Cursor.passes_singleton_iff.2 ⟨rfl, hend, rfl⟩))
    rw [expectOr, if_pos (Cursor.kind_congr hd), hd]
  · by_cases hbad : c.kind = .malformed
    · refine fail hL (blames_unexpected c) fun _ d _ hd => bind_of_error ?_
      rw [expectOr, Cursor.kind_congr hd, if_neg hc, if_pos hbad, Cursor.unexpected,
        Cursor.unexpected, hd]
    · refine fail hL hblames fun _ d _ hd => bind_of_error ?_
      rw [expectOr, Cursor.kind_congr hd, if_neg hc, if_neg hbad, herror d hd]

lemma expect_bind (hend : kind ≠ .endOfInput) (hmalformed : kind ≠ .malformed) (hL : ∃ us, L us)
    (hf : ∀ {t c₁}, t.kind = kind → c.Passes [t] c₁ →
      Reads (k + 1) (o + 1) (fun us => L (t :: us)) (fun room => f room t) c₁) :
    Reads (k + 1) o L (fun room => expect kind >>= f room) c :=
  expectOr_bind hend hmalformed (blames_unexpected c)
    (fun d hd => by rw [Cursor.unexpected, Cursor.unexpected, hd]) hL hf

lemma expectHinted_bind {hint : String} (hend : kind ≠ .endOfInput) (hmalformed : kind ≠ .malformed)
    (hL : ∃ us, L us)
    (hf : ∀ {t c₁}, t.kind = kind → c.Passes [t] c₁ →
      Reads (k + 1) (o + 1) (fun us => L (t :: us)) (fun room => f room t) c₁) :
    Reads (k + 1) o L (fun room => expectHinted kind hint >>= f room) c :=
  expectOr_bind hend hmalformed (blames_misplaced c hint)
    (fun d hd => by rw [Cursor.misplaced, Cursor.misplaced, hd]) hL hf

end Tokens

end Reads

end Grammar

end LangCheck
