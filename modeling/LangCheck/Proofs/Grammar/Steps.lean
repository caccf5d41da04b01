import LangCheck.Proofs.Grammar.Locality

/-!
# The steps of a run

A run of a parser is a sequence of steps: it looks at a token, passes the current one, or asks where the
last one ended.  `Trace` lists the places at which a run does so, each with the distance to the token that
is looked at.  Places only move on along a run (`Trace.ordered`), no token behind an end of input is looked
at (`Trace.kind_ne_of_lt`), and the outcome depends on no other tokens than those that are looked at
(`Trace.run_eq`).  The main result (`program_traced`) says that the parser of programs runs by such steps.
-/

namespace LangCheck.Grammar

variable {α β : Type} {c c' c₁ d : Cursor} {p : Parser α} {f : α → Parser β} {a : α} {e : SyntaxError}

/-! ## Steps -/

/-- Looks at the token some places ahead, and reads a value from it or fails because of it. -/
def look (k : ℕ) (f : Token → Except SyntaxError α) : Parser α := fun c => finished (f (c.peek k)) c

/-- A place of a run, and how far ahead of it the token is that the run looks at there. -/
structure Point where
  /-- Where the run is. -/
  cursor : Cursor
  /-- The distance from there to the token that is looked at. -/
  offset : ℕ

/-- The places at which a run takes its steps, in order. -/
inductive Trace : {α : Type} → Parser α → Cursor → List Point → Prop
  | pure {α : Type} {a : α} {c : Cursor} : Trace (pure a : Parser α) c []
  /-- A token behind others is looked at only if none of these is an end of input. -/
  | look {α : Type} {c : Cursor} {k : ℕ} {f : Token → Except SyntaxError α}
    (h : ∀ j < k, (c.peek j).kind ≠ .endOfInput) : Trace (look k f) c [⟨c, k⟩]
  | advance {c : Cursor} : Trace advance c [⟨c, 0⟩]
  | passed {c : Cursor} : Trace passed c [⟨c, 0⟩]
  | withRoom {α : Type} {p : ℕ → Parser α} {c : Cursor} {log : List Point}
    (h : Trace (p c.ahead.length) c log) : Trace (withRoom p) c log
  | bind {α β : Type} {p : Parser α} {f : α → Parser β} {c c₁ : Cursor} {a : α}
    {log log' : List Point} (h : Trace p c log) (hp : p c = .ok a c₁) (h' : Trace (f a) c₁ log') :
    Trace (p >>= f) c (log ++ log')
  /-- Behind a failure nothing is done any more. -/
  | bind_of_error {α β : Type} {p : Parser α} {f : α → Parser β} {c c₁ : Cursor} {e : SyntaxError}
    {log : List Point} (h : Trace p c log) (hp : p c = .error e c₁) : Trace (p >>= f) c log

/-- Where a run ends. -/
def endOf : EStateM.Result SyntaxError Cursor α → Cursor
  | .ok _ c => c
  | .error _ c => c

/-- Looking does not move the cursor. -/
lemma endOf_look {k : ℕ} {f : Token → Except SyntaxError α} : endOf (look k f c) = c := by
  rw [look]
  rcases f (c.peek k) with _ | _ <;> rfl

/-- A cursor comes from one place to another. -/
def Cursor.Leads (c d : Cursor) : Prop := ∃ ts, c.Passes ts d

lemma Cursor.Leads.refl (c : Cursor) : c.Leads c := ⟨[], .nil⟩

lemma Cursor.Leads.trans (h : c.Leads c₁) (h' : c₁.Leads d) : c.Leads d := by
  obtain ⟨ts, hts⟩ := h
  obtain ⟨us, hus⟩ := h'
  exact ⟨ts ++ us, hts.append hus⟩

lemma Cursor.next_of_end (h : c.kind = .endOfInput) : c.next = c := by
  rcases ha : c.ahead with _ | ⟨t, rest⟩
  · rw [next, ha]
  · rw [kind, current_of_ahead ha] at h
    rw [next, ha]
    exact if_pos h

/-- A step passes the current token, unless it is an end of input. -/
lemma Cursor.leads_next (c : Cursor) : c.Leads c.next := by
  by_cases hend : c.kind = .endOfInput
  · rw [next_of_end hend]
    exact .refl c
  · exact ⟨_, .cons hend .nil⟩

/-- The number of tokens that are passed from one cursor to another behind it. -/
def Cursor.distance (c d : Cursor) : ℕ := c.ahead.length - d.ahead.length

lemma Cursor.Passes.distance_eq {ts : List Token} (h : c.Passes ts d) : c.distance d = ts.length := by
  have hlength := h.length_eq
  rw [distance]
  omega

lemma Cursor.Leads.length_le (h : c.Leads d) : d.ahead.length ≤ c.ahead.length := by
  obtain ⟨ts, hts⟩ := h
  have hlength := hts.length_eq
  omega

/-- A run of one step comes from where it takes the step to its end. -/
lemma ordered_singleton (h : c.Leads d) (k : ℕ) :
    c.Leads d ∧ (∀ x ∈ [Point.mk c k], c.Leads x.cursor ∧ x.cursor.Leads d) ∧
      [Point.mk c k].Pairwise fun x y => x.cursor.Leads y.cursor :=
  ⟨h, List.forall_mem_singleton.2 ⟨.refl c, h⟩, List.pairwise_singleton _ _⟩

/-- A run comes over some tokens from each of its places to the later ones, and to its end. -/
theorem Trace.ordered {log : List Point} (h : Trace p c log) :
    c.Leads (endOf (p c)) ∧ (∀ x ∈ log, c.Leads x.cursor ∧ x.cursor.Leads (endOf (p c))) ∧
      log.Pairwise fun x y => x.cursor.Leads y.cursor := by
  induction h with
  | pure => exact ⟨.refl _, by simp, .nil⟩
  | @look α c k f _ =>
    rw [endOf_look]
    exact ordered_singleton (.refl c) k
  | @advance c => exact ordered_singleton c.leads_next 0
  | @passed c => exact ordered_singleton (.refl c) 0
  | withRoom _ ih => exact ih
  | @bind α β p f c c₁ a log log' _ hp _ ih ih' =>
    obtain ⟨hfirst, hpoints, hpairs⟩ := ih
    obtain ⟨hlast, hpoints', hpairs'⟩ := ih'
    rw [hp] at hfirst hpoints
    rw [bind_of_ok hp]
    refine ⟨hfirst.trans hlast, fun x hx => ?_, ?_⟩
    · rcases List.mem_append.1 hx with hx | hx
      · exact ⟨(hpoints x hx).1, (hpoints x hx).2.trans hlast⟩
      · exact ⟨hfirst.trans (hpoints' x hx).1, (hpoints' x hx).2⟩
    · refine List.pairwise_append.2 ⟨hpairs, hpairs', fun x hx y hy => ?_⟩
      exact (hpoints x hx).2.trans (hpoints' y hy).1
  | @bind_of_error α β p f c c₁ e log _ hp ih =>
    rw [hp] at ih
    rw [Grammar.bind_of_error hp]
    exact ih

/-- No token behind an end of input is looked at. -/
theorem Trace.kind_ne_of_lt {log : List Point} (h : Trace p c log) :
    ∀ x ∈ log, ∀ j < x.offset, (x.cursor.peek j).kind ≠ .endOfInput := by
  induction h with
  | pure => simp
  | look h =>
    intro x hx
    rw [List.mem_singleton.1 hx]
    exact h
  | advance =>
    intro x hx j hj
    rw [List.mem_singleton.1 hx] at hj
    exact absurd hj (Nat.not_lt_zero j)
  | passed =>
    intro x hx j hj
    rw [List.mem_singleton.1 hx] at hj
    exact absurd hj (Nat.not_lt_zero j)
  | withRoom _ ih => exact ih
  | bind _ _ _ ih ih' =>
    intro x hx
    exact (List.mem_append.1 hx).elim (ih x) (ih' x)
  | bind_of_error _ _ ih => exact ih

/-- Equal steps from cursors with as many tokens ahead lead to such cursors. -/
lemma Cursor.next_alike (hlength : d.ahead.length = c.ahead.length) (hpassed : d.passed = c.passed)
    (hcurrent : d.current = c.current) :
    d.next.ahead.length = c.next.ahead.length ∧ d.next.passed = c.next.passed := by
  by_cases hend : c.kind = .endOfInput
  · have hend' : d.kind = .endOfInput := by rw [kind_congr hcurrent, hend]
    rw [next_of_end hend, next_of_end hend']
    exact ⟨hlength, hpassed⟩
  · have hend' : d.kind ≠ .endOfInput := by rwa [kind_congr hcurrent]
    rw [ahead_of_kind_ne hend, ahead_of_kind_ne hend', List.length_cons, List.length_cons] at hlength
    rw [passed_next hend, passed_next hend', hcurrent]
    exact ⟨by omega, rfl⟩

/-- A token behind the end of a first part is found from there as well as from its start. -/
lemma Cursor.peek_behind {d₁ x : Cursor} {k : ℕ} (hc : c.Leads c₁) (hx : c₁.Leads x) (hd : d.Leads d₁)
    (hlength : d.ahead.length = c.ahead.length) (hlength₁ : d₁.ahead.length = c₁.ahead.length) :
    d₁.peek (c₁.distance x + k) = d.peek (c.distance x + k) := by
  obtain ⟨ts, hts⟩ := hc
  obtain ⟨us, hus⟩ := hd
  have hbehind := hx.length_le
  have hcount := hts.length_eq
  have hcount' := hus.length_eq
  rw [← hus.peek_add]
  congr 1
  rw [distance, distance]
  omega

/-- A run depends on no token that it does not look at: from a cursor with as many tokens ahead, and the same
ones at the places that are looked at, it takes as many steps to the same outcome. -/
theorem Trace.run_eq {log : List Point} (h : Trace p c log) :
    ∀ {d : Cursor}, d.ahead.length = c.ahead.length → d.passed = c.passed →
      (∀ x ∈ log, d.peek (c.distance x.cursor + x.offset) = x.cursor.peek x.offset) →
      ∃ r d', p c = finished r (endOf (p c)) ∧ p d = finished r d' ∧ d.Leads d' ∧
        d'.ahead.length = (endOf (p c)).ahead.length ∧ d'.passed = (endOf (p c)).passed := by
  have hself : ∀ c : Cursor, c.distance c = 0 := fun c => Nat.sub_self _
  induction h with
  | @pure α a c =>
    intro d hlength hpassed _
    exact ⟨.ok a, d, rfl, rfl, .refl d, hlength, hpassed⟩
  | @look α c k f _ =>
    intro d hlength hpassed hlook
    have hpeek := hlook _ List.mem_cons_self
    rw [hself, Nat.zero_add] at hpeek
    have hrun : Grammar.look k f d = finished (f (c.peek k)) d := by rw [Grammar.look, hpeek]
    rw [endOf_look]
    exact ⟨f (c.peek k), d, rfl, hrun, .refl d, hlength, hpassed⟩
  | @advance c =>
    intro d hlength hpassed hlook
    have hcurrent := hlook _ List.mem_cons_self
    rw [hself, Nat.zero_add, Cursor.peek_zero, Cursor.peek_zero] at hcurrent
    have hrun : Grammar.advance d = .ok c.current d.next := by rw [Grammar.advance, hcurrent]
    refine ⟨.ok c.current, d.next, rfl, hrun, d.leads_next, ?_⟩
    change d.next.ahead.length = c.next.ahead.length ∧ d.next.passed = c.next.passed
    exact Cursor.next_alike hlength hpassed hcurrent
  | @passed c =>
    intro d hlength hpassed _
    have hrun : Grammar.passed d = .ok c.passed d := by rw [Grammar.passed, hpassed]
    exact ⟨.ok c.passed, d, rfl, hrun, .refl d, hlength, hpassed⟩
  | @withRoom α p c log _ ih =>
    intro d hlength hpassed hlook
    have hroom : Grammar.withRoom p d = p c.ahead.length d := by rw [Grammar.withRoom, hlength]
    rw [hroom]
    exact ih hlength hpassed hlook
  | @bind α β p f c c₁ a log log' hfirst hp hrest ih ih' =>
    intro d hlength hpassed hlook
    obtain ⟨r, d₁, hr, hd, hleads, hlength₁, hpassed₁⟩ :=
      ih hlength hpassed fun x hx => hlook x (List.mem_append_left _ hx)
    obtain ⟨hto, -⟩ := hfirst.ordered
    rw [hp] at hr hlength₁ hpassed₁ hto
    cases r with
    | error e => cases hr
    | ok a' =>
      cases hr
      -- the places of the second part are as far behind the end of the first one
      have hlook' : ∀ x ∈ log', d₁.peek (c₁.distance x.cursor + x.offset) = x.cursor.peek x.offset := by
        intro x hx
        rw [← hlook x (List.mem_append_right _ hx)]
        exact Cursor.peek_behind hto (hrest.ordered.2.1 x hx).1 hleads hlength hlength₁
      rw [bind_of_ok hp, bind_of_ok hd]
      obtain ⟨r, d', hr', hd', hleads', hend⟩ := ih' hlength₁ hpassed₁ hlook'
      exact ⟨r, d', hr', hd', hleads.trans hleads', hend⟩
  | @bind_of_error α β p f c c₁ e log _ hp ih =>
    intro d hlength hpassed hlook
    obtain ⟨r, d₁, hr, hd, hleads, hlength₁, hpassed₁⟩ := ih hlength hpassed hlook
    rw [hp] at hr hlength₁ hpassed₁
    cases r with
    | ok a' => cases hr
    | error e' =>
      cases hr
      rw [Grammar.bind_of_error hp, Grammar.bind_of_error hd]
      exact ⟨.error e, d₁, rfl, rfl, hleads, hlength₁, hpassed₁⟩

/-! ## Parsers that run by steps -/

/-- A run of the parser is a sequence of steps. -/
def Traced (p : Parser α) (c : Cursor) : Prop := ∃ log, Trace p c log

namespace Traced

lemma pure : Traced (pure a : Parser α) c := ⟨_, .pure⟩

lemma bind (h : Traced p c) (hf : ∀ {a c₁}, p c = .ok a c₁ → Traced (f a) c₁) :
    Traced (p >>= f) c := by
  obtain ⟨log, h⟩ := h
  rcases hp : p c with ⟨a, c₁⟩ | ⟨e, c₁⟩
  · obtain ⟨log', h'⟩ := hf hp
    exact ⟨_, h.bind hp h'⟩
  · exact ⟨_, h.bind_of_error hp⟩

lemma map {g : α → β} (h : Traced p c) : Traced (g <$> p) c := by
  rw [map_eq_pure_bind]
  exact h.bind fun _ => pure

protected lemma ite {P : Prop} [Decidable P] {q : Parser α} (hp : P → Traced p c)
    (hq : ¬ P → Traced q c) : Traced (if P then p else q) c := by
  split
  · exact hp ‹_›
  · exact hq ‹_›

/-- Two ways to come to the same continuation. -/
lemma ite_bind {P : Prop} [Decidable P] {q : Parser α} (hp : Traced p c) (hq : Traced q c)
    (hf : ∀ {a c₁}, Traced (f a) c₁) : Traced (if P then p >>= f else q >>= f) c :=
  .ite (fun _ => hp.bind fun _ => hf) fun _ => hq.bind fun _ => hf

lemma withRoom {p : ℕ → Parser α} (h : ∀ room, Traced (p room) c) :
    Traced (Grammar.withRoom p) c := by
  obtain ⟨log, h⟩ := h c.ahead.length
  exact ⟨log, h.withRoom⟩

lemma look {f : Token → Except SyntaxError α} : Traced (look 0 f) c :=
  ⟨_, .look fun _ hj => absurd hj (Nat.not_lt_zero _)⟩

/-- A parser looks at the current token, fails because of it, or goes on as the token tells. -/
lemma look_then {f : Token → Except SyntaxError α} {q : α → Parser β} {p : Parser β}
    (hp : ∀ c, p c = match f c.current with
      | .ok a => q a c
      | .error e => .error e c)
    (hq : ∀ {a}, f c.current = .ok a → Traced (q a) c) : Traced p c := by
  have hlook : ∀ c, Grammar.look 0 f c = finished (f c.current) c := fun c => by
    rw [Grammar.look, Cursor.peek_zero]
  have heq : p = Grammar.look 0 f >>= q := by
    funext c
    rw [hp]
    rcases hf : f c.current with e | a
    · exact (bind_of_error (by rw [hlook, hf]; rfl)).symm
    · exact (bind_of_ok (by rw [hlook, hf]; rfl)).symm
  rw [heq]
  refine look.bind fun {a c₁} h => ?_
  rw [hlook] at h
  rcases hf : f c.current with e | a'
  · rw [hf] at h
    cases h
  · rw [hf] at h
    cases h
    exact hq hf

end Traced

/-! ## Parsers that look at one token -/

/-- The error for a token that does not fit. -/
def unexpectedAt (t : Token) : SyntaxError :=
  ⟨if t.isMalformed then .malformed t.text else .unexpected t.text, t.span.start⟩

/-- The error for a token that does not fit, with a hint at what would. -/
def misplacedAt (hint : String) (t : Token) : SyntaxError :=
  ⟨if t.isMalformed then .malformed t.text else .misplaced t.text hint, t.span.start⟩

namespace Traced

variable {kind : Kind} {hint : String}

lemma currentKind_bind {f : Kind → Parser β} (h : Traced (f c.kind) c) :
    Traced (currentKind >>= f) c :=
  look_then (f := fun t => .ok t.kind) (q := f) (fun _ => rfl) fun {_} => by
    rintro ⟨⟩
    exact h

/-- The token behind the current one is looked at only if that is not an end of input. -/
lemma peekKind_bind {f : Kind → Parser β} (hc : c.kind ≠ .endOfInput) (h : Traced (f (c.peek 1).kind) c) :
    Traced (peekKind 1 >>= f) c := by
  have hlook : Traced (peekKind 1) c := by
    refine ⟨_, .look (f := fun t => .ok t.kind) fun j hj => ?_⟩
    obtain rfl : j = 0 := by omega
    rwa [Cursor.peek_zero]
  exact hlook.bind fun {_ _} => by
    rintro ⟨⟩
    exact h

lemma position_bind {f : Position → Parser β} (h : Traced (f c.position) c) :
    Traced (position >>= f) c :=
  look_then (f := fun t => .ok t.span.start) (q := f) (fun _ => rfl) fun {_} => by
    rintro ⟨⟩
    exact h

lemma passed_bind {f : Position → Parser β} (h : Traced (f c.passed) c) :
    Traced (passed >>= f) c :=
  bind ⟨_, .passed⟩ fun {_ _} => by
    rintro ⟨⟩
    exact h

lemma advance : Traced advance c := ⟨_, .advance⟩

lemma fail {f : Token → SyntaxError} (hp : ∀ c, p c = .error (f c.current) c) : Traced p c :=
  look_then (f := fun t => .error (f t)) (q := fun a : α => Pure.pure a) hp nofun

lemma unexpected : Traced (unexpected : Parser α) c := fail (f := unexpectedAt) fun _ => rfl

lemma misplaced : Traced (misplaced hint : Parser α) c := fail (f := misplacedAt hint) fun _ => rfl

lemma expectOr (error : Token → SyntaxError) {p : Parser Token}
    (hp : ∀ c, p c = expectOr kind (error c.current) c) : Traced p c := by
  refine look_then (f := fun t => if t.kind = kind then .ok () else
    .error (if t.kind = .malformed then unexpectedAt t else error t)) (q := fun _ => Grammar.advance)
    (fun c => ?_) fun _ => advance
  have hkind : c.current.kind = c.kind := rfl
  rw [hp, Grammar.expectOr, hkind]
  by_cases hc : c.kind = kind
  · rw [if_pos hc, if_pos hc]
    rfl
  · rw [if_neg hc, if_neg hc]
    split <;> rfl

lemma expect : Traced (expect kind) c := expectOr unexpectedAt fun _ => rfl

lemma expectHinted : Traced (expectHinted kind hint) c :=
  expectOr (misplacedAt hint) fun _ => rfl

end Traced

/-! ## Expressions -/

section Expressions

variable {t : Tables} {left : Expr} {room : ℕ} {power : Power} {arguments : Parser (List Expr)}
  {inner : Parser Expr}

lemma primitiveType_traced : Traced primitiveType c := by
  refine .currentKind_bind ?_
  split
  · exact Traced.advance.bind fun _ => .pure
  · exact .misplaced

lemma type_traced : Traced (type t) c := by
  refine .look_then (f := fun token => (t.ty token.kind).elim
      (.error (if token.kind = .name then ⟨.unknownType token.text, token.span.start⟩
        else misplacedAt "expected a type" token)) fun _ => .ok ())
    (q := fun _ => primitiveType) (fun c => ?_) fun _ => primitiveType_traced
  have hkind : c.current.kind = c.kind := rfl
  rw [type, hkind]
  rcases t.ty c.kind with _ | ty
  · dsimp only
    split <;> rfl
  · rfl

lemma literal_traced : Traced literal c := by
  refine .look_then (f := fun token => (literalOf? token).elim
      (.error (misplacedAt "expected a literal value" token)) .ok)
    (q := fun value => advance >>= fun _ => pure value) (fun c => ?_)
    fun _ => Traced.advance.bind fun _ => .pure
  rw [literal]
  rcases literalOf? c.current with _ | value <;> rfl

lemma callWith_traced (h : ∀ c, Traced arguments c) : Traced (callWith arguments) c := by
  refine Traced.expect.bind fun _ => Traced.expect.bind fun _ => .currentKind_bind ?_
  exact .ite_bind .pure (h _) (Traced.expect.bind fun _ => .pure)

/-- Reads a literal with its span. -/
lemma literalExpr_traced : Traced (do
    let span := (← get).current.span
    return Expr.literal (← literal) span : Parser Expr) c := by
  refine .look_then (f := fun token => .ok token.span)
    (q := fun span => literal >>= fun value => pure (.literal value span)) (fun _ => rfl) fun _ => ?_
  exact literal_traced.bind fun _ => .pure

lemma operandWith_traced (h : ∀ c, Traced arguments c) : Traced (operandWith arguments) c := by
  refine .currentKind_bind ?_
  split
  · next hname =>
    refine .peekKind_bind (by rw [hname]; decide) (.ite (fun _ => ?_) fun _ => ?_)
    · exact (callWith_traced h).bind fun _ => .pure
    · exact Traced.advance.bind fun _ => .pure
  · exact literalExpr_traced
  · exact literalExpr_traced
  · exact literalExpr_traced
  · exact literalExpr_traced
  · exact .unexpected

lemma groupWith_traced (h : ∀ c, Traced inner c) : Traced (groupWith inner) c :=
  Traced.expect.bind fun _ => (h _).bind fun _ => Traced.expect.bind fun _ => .pure

lemma signWith_traced (h : ∀ c, Traced inner c) : Traced (signWith inner) c :=
  Traced.advance.bind fun _ => (h _).bind fun _ => .pure

lemma binaryWith_traced (h : ∀ c, Traced inner c) : Traced (binaryWith left inner) c := by
  refine .currentKind_bind ?_
  split
  · exact Traced.advance.bind fun _ => (h _).bind fun _ => .pure
  · exact .unexpected

lemma step_traced : Traced (step left) c := Traced.advance.bind fun _ => .pure

/-- A list with commas between its members. -/
lemma commaList_traced {p : Parser α} {others : Parser (List α)} (hp : Traced p c)
    (hothers : ∀ c, Traced others c) : Traced (do
      let first ← p
      if (← currentKind) = .comma then
        let _ ← advance
        return first :: (← others)
      else
        return [first]) c := by
  refine hp.bind fun _ => .currentKind_bind (.ite (fun _ => ?_) fun _ => .pure)
  exact Traced.advance.bind fun _ => (hothers _).bind fun _ => .pure

/-- The parsers of the recursion run by steps, whatever room they are given. -/
lemma expressionsWithin_traced (t : Tables) (room : ℕ) :
    (∀ power c, Traced (expressionWithin t room power) c) ∧
    (∀ power left c, Traced (continuationWithin t room power left) c) ∧
    ∀ c, Traced (argumentsWithin t room) c := by
  induction room with
  | zero =>
    refine ⟨fun power c => ?_, fun power left c => ?_, fun c => ?_⟩
    · rw [expressionWithin]
      exact .unexpected
    · rw [continuationWithin]
      exact .pure
    · rw [argumentsWithin]
      exact .unexpected
  | succ room ih =>
    obtain ⟨hexpression, hcontinuation, harguments⟩ := ih
    refine ⟨fun power c => ?_, fun power left c => ?_, fun c => ?_⟩
    · rw [expressionWithin]
      refine .currentKind_bind ?_
      split
      · exact (operandWith_traced harguments).bind fun _ => hcontinuation _ _ _
      · exact (groupWith_traced (hexpression _)).bind fun _ => hcontinuation _ _ _
      · exact (signWith_traced (hexpression _)).bind fun _ => hcontinuation _ _ _
      · exact Traced.unexpected.bind fun _ => hcontinuation _ _ _
    · rw [continuationWithin]
      refine .currentKind_bind ?_
      split
      · next next form _ =>
        refine .ite (fun _ => .pure) fun _ => ?_
        cases form with
        | binary => exact (binaryWith_traced (hexpression _)).bind fun _ => hcontinuation _ _ _
        | step => exact step_traced.bind fun _ => hcontinuation _ _ _
      · exact .pure
    · rw [argumentsWithin]
      exact commaList_traced (hexpression _ c) harguments

lemma expression_traced : Traced (expression t power) c :=
  .withRoom fun room => (expressionsWithin_traced t room).1 power c

lemma call_traced : Traced (call t) c :=
  callWith_traced fun c => .withRoom fun room => (expressionsWithin_traced t (room + 1)).2.2 c

end Expressions

/-! ## Statements -/

section Statements

variable {t : Tables} {statements : Parser (List Stmt)} {block : Parser Block} {nested : Parser Stmt}

lemma constMark_traced : Traced constMark c :=
  .currentKind_bind (.ite (fun _ => Traced.advance.bind fun _ => .pure) fun _ => .pure)

lemma varDecl_traced : Traced (varDecl t) c := by
  refine .position_bind (constMark_traced.bind fun _ => type_traced.bind fun _ =>
    Traced.expectHinted.bind fun _ => .currentKind_bind (.ite (fun _ => ?_) fun _ => ?_))
  · exact Traced.advance.bind fun _ => expression_traced.map.bind fun _ => .passed_bind .pure
  · exact Traced.pure.bind fun _ => .passed_bind .pure

lemma assignment_traced : Traced (assignment t) c := by
  refine Traced.expect.bind fun _ => .currentKind_bind ?_
  split
  · refine Traced.advance.bind fun _ => ?_
    exact .ite_bind expression_traced.map .pure (.passed_bind .pure)
  · exact .misplaced

lemma declarationStmt_traced : Traced (declarationStmt t) c :=
  varDecl_traced.bind fun _ => Traced.expect.bind fun _ => .pure

lemma namedStmt_traced (hc : c.kind ≠ .endOfInput) : Traced (namedStmt t) c := by
  refine .peekKind_bind hc ?_
  exact .ite_bind call_traced.map assignment_traced.map (Traced.expect.bind fun _ => .pure)

lemma returning_traced : Traced (returning t) c := by
  refine Traced.advance.bind fun _ => .currentKind_bind ?_
  exact .ite_bind .pure expression_traced.map (Traced.expect.bind fun _ => .pure)

lemma condition_traced : Traced (condition t) c :=
  Traced.expect.bind fun _ => expression_traced.bind fun _ => Traced.expect.bind fun _ => .pure

lemma forInit_traced : Traced (forInit t) c := by
  refine .currentKind_bind (.ite (fun _ => .pure) fun _ => .ite (fun _ => ?_) fun _ => ?_)
  · exact varDecl_traced.bind fun _ => .pure
  · exact assignment_traced.bind fun _ => .pure

lemma blockWith_traced (h : ∀ c, Traced statements c) : Traced (blockWith statements) c :=
  Traced.expect.bind fun _ => (h _).bind fun _ => Traced.expect.bind fun _ => .pure

lemma conditionalWith_traced (hblock : ∀ c, Traced block c) (hnested : ∀ c, Traced nested c) :
    Traced (conditionalWith t block nested) c := by
  refine Traced.advance.bind fun _ => condition_traced.bind fun _ => (hblock _).bind fun _ =>
    .currentKind_bind (.ite (fun _ => ?_) fun _ => Traced.pure.bind fun _ => .passed_bind .pure)
  refine Traced.advance.bind fun _ => .currentKind_bind (.ite (fun _ => ?_) fun _ => ?_)
  · exact (hnested _).bind fun _ => Traced.pure.bind fun _ => .passed_bind .pure
  · exact (hblock _).map.bind fun _ => .passed_bind .pure

lemma whileWith_traced (hblock : ∀ c, Traced block c) : Traced (whileWith t block) c :=
  Traced.advance.bind fun _ => condition_traced.bind fun _ => (hblock _).bind fun _ => .pure

lemma forWith_traced (hblock : ∀ c, Traced block c) : Traced (forWith t block) c := by
  refine Traced.advance.bind fun _ => Traced.expect.bind fun _ => forInit_traced.bind fun _ =>
    Traced.expect.bind fun _ => .currentKind_bind (.ite_bind .pure expression_traced.map ?_)
  refine Traced.expect.bind fun _ => .currentKind_bind (.ite_bind .pure assignment_traced.map ?_)
  exact Traced.expect.bind fun _ => (hblock _).bind fun _ => .pure

lemma statementWith_traced (hc : c.kind ≠ .endOfInput) (hblock : ∀ c, Traced block c)
    (hnested : ∀ c, Traced nested c) : Traced (statementWith t block nested) c := by
  refine .currentKind_bind ?_
  split
  · exact declarationStmt_traced
  · exact namedStmt_traced hc
  · exact conditionalWith_traced hblock hnested
  · exact whileWith_traced hblock
  · exact forWith_traced hblock
  · exact returning_traced
  · exact .unexpected

lemma statementsWithin_traced (t : Tables) (room : ℕ) :
    (∀ c, Traced (statementsWithin t room) c) ∧ ∀ c, Traced (conditionalWithin t room) c := by
  induction room with
  | zero =>
    refine ⟨fun c => ?_, fun c => ?_⟩
    · rw [statementsWithin]
      exact .misplaced
    · rw [conditionalWithin]
      exact .unexpected
  | succ room ih =>
    obtain ⟨hstatements, hconditional⟩ := ih
    have hblock : ∀ c, Traced (blockWith (statementsWithin t room)) c :=
      fun _ => blockWith_traced hstatements
    refine ⟨fun c => ?_, fun c => ?_⟩
    · rw [statementsWithin]
      refine .currentKind_bind ?_
      split
      · exact .pure
      · exact .misplaced
      · next hend =>
        -- a statement may look at a second token, but the first one is no end of input here
        exact (statementWith_traced hend hblock hconditional).bind fun _ =>
          (hstatements _).bind fun _ => .pure
    · rw [conditionalWithin]
      exact conditionalWith_traced hblock hconditional

lemma block_traced : Traced (Grammar.block t) c :=
  .withRoom fun room => blockWith_traced (statementsWithin_traced t room).1

end Statements

/-! ## Programs -/

section Programs

variable {t : Tables}

lemma parameter_traced : Traced (parameter t) c :=
  .position_bind (type_traced.bind fun _ => Traced.expectHinted.bind fun _ => .pure)

lemma parametersWithin_traced (t : Tables) (room : ℕ) (c : Cursor) :
    Traced (parametersWithin t room) c := by
  induction room generalizing c with
  | zero =>
    rw [parametersWithin]
    exact .unexpected
  | succ room ih =>
    rw [parametersWithin]
    exact commaList_traced parameter_traced ih

lemma parameters_traced : Traced (parameters t) c := by
  refine Traced.expect.bind fun _ => .currentKind_bind ?_
  exact .ite_bind .pure (.withRoom fun room => parametersWithin_traced t (room + 1) _)
    (Traced.expect.bind fun _ => .pure)

/-- The token behind the current one counts only if that is a minus sign. -/
lemma globalValue_eq : globalValue = (do
    if (← currentKind) = .minus then
      if (← peekKind 1) = .number then
        let _ ← advance
        let number ← advance
        return .number ("-" ++ number.text)
      else literal
    else literal) := by
  funext c
  simp only [globalValue, currentKind_bind, peekKind_bind]
  by_cases hminus : c.kind = .minus
  · simp only [hminus, true_and, if_true, peekKind_bind]
  · simp only [hminus, false_and, if_false]

lemma globalValue_traced : Traced globalValue c := by
  rw [globalValue_eq]
  refine .currentKind_bind (.ite (fun hminus => ?_) fun _ => literal_traced)
  refine .peekKind_bind (by rw [hminus]; decide) (.ite (fun _ => ?_) fun _ => literal_traced)
  exact Traced.advance.bind fun _ => Traced.advance.bind fun _ => .pure

lemma item_traced : Traced (item t) c := by
  refine .position_bind (constMark_traced.bind fun _ => type_traced.bind fun _ =>
    Traced.expectHinted.bind fun _ => .currentKind_bind (.ite (fun _ => .ite (fun _ => ?_) fun _ => ?_)
      fun _ => .currentKind_bind (.ite (fun _ => ?_) fun _ => ?_)))
  · exact .misplaced
  · exact parameters_traced.bind fun _ => block_traced.bind fun _ => .pure
  · exact Traced.advance.bind fun _ => globalValue_traced.map.bind fun _ =>
      Traced.expect.bind fun _ => .pure
  · exact Traced.pure.bind fun _ => Traced.expect.bind fun _ => .pure

lemma itemsWithin_traced (t : Tables) (room : ℕ) (c : Cursor) : Traced (itemsWithin t room) c := by
  induction room generalizing c with
  | zero =>
    rw [itemsWithin]
    exact .pure
  | succ room ih =>
    rw [itemsWithin]
    refine .currentKind_bind (.ite (fun _ => .pure) fun _ => ?_)
    exact item_traced.bind fun _ => (ih _).bind fun _ => .pure

/-- The parser of programs runs by steps. -/
theorem program_traced : Traced (program t) c :=
  .position_bind ((Traced.withRoom fun room => itemsWithin_traced t room c).bind fun _ =>
    .position_bind .pure)

end Programs

end LangCheck.Grammar
