import LangCheck.Proofs.Grammar.StatementRuns

/-!
# The runs of the parsers of programs

Items and programs are decided by the tokens that are passed and the one behind them, with one exception.
Whether the initialiser of a global variable begins with a minus sign depends on the token behind that:
a lone minus sign, without a number behind it, is at fault itself (`Cursor.LoneMinus`).  So there are two
statements: runs look at two tokens, or at one if no lone minus sign is reached.
-/

namespace LangCheck.Grammar

open Placement

variable {c c' : Cursor} {ts us : List Token} {k o : ℕ}

/-! ## Parameters -/

lemma parameter_reads : Reads (k + 1) o ParameterTokens (fun _ => parameter .standard) c := by
  unfold parameter
  refine .position_bind (type_bind ⟨[.word .intWord, .named ""],
    parameterTokens_intro (show Ty.int.kind? = some _ from rfl) rfl⟩ fun hty _ => ?_)
  exact .expectHinted_bind (by decide) (by decide) ⟨[.named ""], parameterTokens_intro hty rfl⟩
    fun hname _ => .pure (parameterTokens_intro hty hname)

lemma parametersWithin_reads (c : Cursor) :
    Reads (k + 1) 1 ParametersTokens (parametersWithin .standard) c := by
  refine .congr (commaList_reads parameter_reads (fun _ => ParameterTokens.last) ParameterTokens.more
    fun {c₁ _} h₁ ho => (parametersWithin_reads c₁).within (g := fun room => room - 1)
      fun _ _ _ => by omega) fun room d hroom _ => ?_
  obtain ⟨room, rfl⟩ := Nat.exists_eq_add_one.2 (show 0 < room by omega)
  rw [parametersWithin]
  rfl
termination_by c.ahead.length

lemma parameters_reads :
    Reads (k + 1) o ParameterListTokens (fun _ => parameters .standard) c := by
  unfold parameters
  refine .expect_bind (by decide) (by decide) ⟨.word .openParen :: ([] ++ [.word .closeParen]), _, _, _,
    rfl, rfl, .inl rfl, rfl⟩ fun {opened c₁} ho _ => .currentKind_bind ?_
  have hgiven : Reads (k + 1) (o + 1) ParametersTokens
      (fun _ => withRoom fun room => parametersWithin .standard (room + 1)) c₁ :=
    Reads.withRoom (p := fun room => parametersWithin .standard (room + 1))
      ((parametersWithin_reads c₁).within fun _ _ _ => by omega)
  refine ifAny_bind hgiven (fun ts hts => ⟨[.word .closeParen], opened, ts, _, rfl, ho, hts, rfl⟩)
    fun {_ _ ts} hts _ => ?_
  exact .expect_bind (by decide) (by decide)
    ⟨[.word .closeParen], opened, ts, _, rfl, ho, hts, rfl⟩
    fun {closed _} hcl _ => .pure ⟨opened, ts, closed, rfl, ho, hts, hcl⟩

/-! ## Global variables -/

/-- The cursor is at a minus sign without a number behind it. -/
def Cursor.LoneMinus (c : Cursor) : Prop := c.kind = .minus ∧ (c.peek 1).kind ≠ .number

lemma globalValue_of_loneMinus (hc : c.LoneMinus) :
    globalValue c = .error (c.misplaced "expected a literal value") c := by
  rw [globalValue, currentKind_bind, peekKind_bind, if_neg fun h => hc.2 h.2, literal]
  rcases hlit : literalOf? c.current with _ | value
  · rfl
  · have hspelled := literalOf?_eq_some_iff.1 hlit
    have hkind : c.current.kind = .minus := hc.1
    rcases value with text | text | _ | _ <;> simp [Literal.Spelled, hkind] at hspelled

lemma literal_reads : Reads (k + 1) o LiteralTokens (fun _ => literal) c := by
  rcases hlit : literalOf? c.current with _ | value
  · refine .congr (q := fun _ => misplaced "expected a literal value") (.misplaced ⟨_, literalTokens_true⟩)
      fun _ d _ hd => ?_
    rw [literal, hd, hlit]
  · have hspelled := literalOf?_eq_some_iff.1 hlit
    refine ⟨_, _, .ok value, .step hspelled.kind_ne (kind_ne_malformed_of_literal hspelled)
      fun _ d _ hd => ?_, value, .literal hspelled⟩
    rw [literal, hd, hlit]

lemma globalValue_reads (h : 0 < k ∨ ¬ c.LoneMinus) :
    Reads (k + 1) o LiteralTokens (fun _ => globalValue) c := by
  by_cases hminus : c.kind = .minus
  · by_cases hnumber : (c.peek 1).kind = .number
    -- the minus sign and the number
    · have hend : c.kind ≠ .endOfInput := by
        rw [hminus]
        decide
      have hnext : c.next.kind = .number := by
        rw [Cursor.kind, ← Cursor.peek_one hend, hnumber]
      have htaken := LiteralTaken.negated hminus hnext
      have hpasses : c.Passes [c.current, c.next.current] c.next.next :=
        .cons hend (.cons (by rw [hnext]; decide) .nil)
      refine ⟨_, _, .ok (.number ("-" ++ c.next.current.text)),
        ⟨hpasses, ?_, nofun, fun _ _ hd _ => globalValue_eq_ok.2 ⟨_, hd, htaken⟩⟩, _, htaken⟩
      have hkind : c.current.kind = .minus := hminus
      have hkind' : c.next.current.kind = .number := hnext
      simp [hkind, hkind']
    · have hk : 0 < k := h.resolve_right fun hc => hc ⟨hminus, hnumber⟩
      refine ⟨[], c, .error (c.misplaced "expected a literal value"),
        .fail (blames_misplaced c _) fun _ d _ hlook => ?_, _, literalTokens_true⟩
      have hcurrent : d.current = c.current := by
        rw [← Cursor.peek_zero, ← Cursor.peek_zero]
        exact hlook 0 (Nat.succ_pos k)
      rw [globalValue_of_loneMinus ⟨by rw [Cursor.kind_congr hcurrent, hminus],
        by rwa [hlook 1 (Nat.succ_lt_succ hk)]⟩, Cursor.misplaced, Cursor.misplaced, hcurrent]
  · refine literal_reads.congr fun _ d _ hd => ?_
    rw [globalValue, currentKind_bind, peekKind_bind, if_neg]
    rw [Cursor.kind_congr hd]
    exact fun h => hminus h.1

/-! ## Items -/

/-- Tokens are the beginning of the declaration of a global variable, up to its equals sign. -/
inductive GlobalHead : List Token → Prop
  | intro {cs : List Token} {word name assign : Token} {isConst : Bool} {ty : Ty} :
      ConstSpelled cs isConst → ty.kind? = some word.kind → name.kind = .name → assign.kind = .assign →
        GlobalHead (cs ++ [word, name, assign])

lemma GlobalHead.ne_nil (h : GlobalHead ts) : ts ≠ [] := by
  cases h
  simp

lemma GlobalHead.endless (h : GlobalHead ts) : Endless ts := by
  obtain ⟨hconst, hty, hname, hassign⟩ := h
  simp [hconst.endless, Ty.kind_ne_of_kind? hty, hname, hassign]

lemma item_reads
    (h : 0 < k ∨ ∀ {ts c'}, c.Passes ts c' → GlobalHead ts → ¬ c'.LoneMinus) :
    Reads (k + 1) o ItemTokens (fun _ => item .standard) c := by
  unfold item
  refine .position_bind (constMark_bind fun {isConst cs c₁} hconst h₁ => ?_)
  refine type_bind ⟨.word .intWord :: .named "" :: ([] ++ [.word .semicolon]),
    itemTokens_global hconst (show Ty.int.kind? = some _ from rfl) rfl (.inl rfl) rfl⟩
    fun {ty word c₂} hty h₂ => ?_
  refine .expectHinted_bind (by decide) (by decide) ⟨.named "" :: ([] ++ [.word .semicolon]),
    itemTokens_global hconst hty rfl (.inl rfl) rfl⟩ fun {name c₃} hname h₃ => .currentKind_bind ?_
  refine .ite (fun _ => .ite (fun _ => ?_) fun hfunction => ?_) fun _ => .currentKind_bind ?_
  · exact .misplaced ⟨[] ++ [.word .semicolon], itemTokens_global hconst hty hname (.inl rfl) rfl⟩
  · obtain rfl : isConst = false := by simpa using hfunction
    obtain rfl : cs = [] := hconst
    refine parameters_reads.bind
      (fun ts hts => ⟨emptyBlock, itemTokens_function hty hname hts blockTokens_empty⟩)
      fun {given c₄ ts} h₄ hts _ => ?_
    exact (block_reads.mono fun us hus => itemTokens_function hty hname hts hus).bind_nil (.pure rfl)
  · refine .ite (fun hassign => ?_) fun _ => .pure_bind ?_
    · refine .advance_kind_bind hassign (by decide) (by decide) fun {assign c₄} ht h₄ => ?_
      have hlone : 0 < k ∨ ¬ c₄.LoneMinus := h.imp_right fun h =>
        h (h₁.append (h₂.append (h₃.append h₄))) (.intro hconst hty hname ht)
      refine (globalValue_reads hlone).map.bind
        (fun us hus => ⟨[.word .semicolon], itemTokens_global hconst hty hname
          (.inr ⟨_, us, rfl, ht, hus⟩) rfl⟩) fun {_ _ us} _ hus _ => ?_
      have hvalue : IfAny GlobalInitializerTokens (assign :: us) := .inr ⟨_, us, rfl, ht, hus⟩
      exact .expect_bind (by decide) (by decide)
        ⟨[.word .semicolon], itemTokens_global hconst hty hname hvalue rfl⟩
        fun hs _ => .pure (itemTokens_global hconst hty hname hvalue hs)
    · exact .expect_bind (by decide) (by decide)
        ⟨[] ++ [.word .semicolon], itemTokens_global hconst hty hname (.inl rfl) rfl⟩
        fun hs _ => .pure (itemTokens_global hconst hty hname (.inl rfl) hs)

/-- A minus sign without a number behind it ends the run of the item. -/
lemma item_of_loneMinus (h : c.Passes ts c') (hts : GlobalHead ts) (hc' : c'.LoneMinus) :
    item .standard c = .error (c'.misplaced "expected a literal value") c' := by
  obtain ⟨hconst, hty, hname, hassign⟩ := hts
  obtain ⟨c₁, h₁, hrest⟩ := Cursor.passes_append_iff.1 h
  obtain ⟨c₂, h₂, hrest⟩ := Cursor.passes_cons_iff_singleton.1 hrest
  obtain ⟨c₃, h₃, h₄⟩ := Cursor.passes_cons_iff_singleton.1 hrest
  have hkind : c₃.kind = .assign := by rw [h₄.kind_eq, hassign]
  have hend : c₃.kind ≠ .endOfInput := by
    rw [hkind]
    decide
  rw [item, position_bind, bind_of_ok (constMark_complete h₁ hconst (kind_ne_const hty h₂)),
    bind_of_ok (type_eq_ok.2 ⟨_, h₂, hty⟩),
    bind_of_ok ((expectHinted_eq_ok (by decide)).2 ⟨hname, h₃⟩), currentKind_bind,
    if_neg (by rw [hkind]; decide), currentKind_bind, if_pos hkind,
    bind_of_ok ((advance_eq_ok hend).2 h₄)]
  rw [map_eq_pure_bind]
  exact bind_of_error (bind_of_error (globalValue_of_loneMinus hc'))

/-! ## Programs -/

/-- A cursor comes over items and the beginning of a global variable to a lone minus sign. -/
def Cursor.Dangles (c c' : Cursor) : Prop :=
  ∃ ts us, c.Passes (ts ++ us) c' ∧ ItemsTokens ts ∧ GlobalHead us ∧ c'.LoneMinus

lemma Cursor.Dangles.of_item {c₁ : Cursor} (h : c₁.Dangles c') (hc : c.Passes ts c₁)
    (hts : ItemTokens ts) : c.Dangles c' := by
  obtain ⟨us, vs, hpasses, hus, hvs, hc'⟩ := h
  exact ⟨ts ++ us, vs, by simpa using hc.append hpasses, hts.items hus, hvs, hc'⟩

lemma itemsWithin_reads (c : Cursor) (h : 0 < k ∨ ∀ c', ¬ c.Dangles c') :
    Reads (k + 1) 0 ItemsTokens (itemsWithin .standard) c := by
  by_cases hend : c.kind = .endOfInput
  · refine (Reads.pure (a := []) itemsTokens_nil).congr fun room d _ hd => ?_
    cases room with
    | zero => rw [itemsWithin]
    | succ room => rw [itemsWithin, currentKind_bind, if_pos (by rw [Cursor.kind_congr hd, hend])]
  · refine .congr (q := fun room => item .standard >>= fun first => do
      return first :: (← itemsWithin .standard (room - 1))) ?_ fun room d hroom hd => ?_
    · have hitem : 0 < k ∨ ∀ {ts c'}, c.Passes ts c' → GlobalHead ts → ¬ c'.LoneMinus :=
        h.imp_right fun h ts c' hts hhead hc' => h c' ⟨[], ts, hts, itemsTokens_nil, hhead, hc'⟩
      refine (item_reads hitem).bind (fun ts hts => ⟨[], hts.items itemsTokens_nil⟩)
        fun {first c₁ ts} h₁ hts _ => ?_
      have hlen := h₁.length_lt hts.ne_nil
      have hpos := List.length_pos_iff.2 hts.ne_nil
      have hothers : Reads (k + 1) (0 + ts.length) ItemsTokens
          (fun room => itemsWithin .standard (room - 1)) c₁ :=
        (itemsWithin_reads c₁ (h.imp_right fun h c' hc' => h c' (hc'.of_item h₁ hts))).within
          fun _ _ _ => by omega
      exact (hothers.mono fun us hus => hts.items hus).bind_nil (.pure rfl)
    · have hne : d.kind ≠ .endOfInput := by rwa [Cursor.kind_congr hd]
      obtain ⟨room, rfl⟩ := Cursor.exists_room hne hroom
      rw [itemsWithin, currentKind_bind, if_neg hne]
      rfl
termination_by c.ahead.length

/-- The runs of the parser of programs look at two tokens where they end, and at one if no lone minus sign
is reached. -/
theorem program_reads (h : 0 < k ∨ ∀ c', ¬ c.Dangles c') :
    Reads (k + 1) 0 ItemsTokens (fun _ => program .standard) c := by
  unfold program
  refine .position_bind ?_
  exact (itemsWithin_reads c h).withRoom.bind_nil (.position_bind (.pure rfl))

lemma itemsWithin_of_error {items : List Item} {e : SyntaxError} (hitems : ItemsTaken ts items) :
    ∀ {c c₁ : Cursor} {room : ℕ}, c.ahead.length ≤ room → c.Passes ts c₁ → c₁.kind ≠ .endOfInput →
      item .standard c₁ = .error e c' → itemsWithin .standard room c = .error e c' := by
  induction hitems with
  | nil =>
    intro c c₁ room hroom h hend hitem
    obtain rfl := Cursor.passes_nil_iff.1 h
    obtain ⟨room, rfl⟩ := Cursor.exists_room hend hroom
    rw [itemsWithin, currentKind_bind, if_neg hend]
    exact bind_of_error hitem
  | @cons ts us first others hfirst _ ih =>
    intro c c₁ room hroom h hend hitem
    obtain ⟨c₀, h₀, h₁⟩ := Cursor.passes_append_iff.1 h
    have hlen := h₀.length_lt hfirst.ne_nil
    have hne := h₀.kind_ne_end_of_ne_nil hfirst.ne_nil
    obtain ⟨room, rfl⟩ := Cursor.exists_room hne hroom
    rw [itemsWithin, currentKind_bind, if_neg hne, bind_of_ok (item_eq_ok.2 ⟨ts, h₀, hfirst⟩)]
    exact bind_of_error (ih (by omega) h₁ hend hitem)

/-- A lone minus sign is at fault, whatever stands behind it. -/
theorem program_of_dangles (h : c.Dangles c') :
    program .standard c = .error (c'.misplaced "expected a literal value") c' := by
  obtain ⟨ts, us, hpasses, ⟨items, hitems⟩, hus, hc'⟩ := h
  obtain ⟨c₁, h₁, h₂⟩ := Cursor.passes_append_iff.1 hpasses
  have hend := h₂.kind_ne_end_of_ne_nil hus.ne_nil
  rw [program, position_bind]
  exact bind_of_error (itemsWithin_of_error hitems (Nat.le_refl _) h₁ hend
    (item_of_loneMinus h₂ hus hc'))

end LangCheck.Grammar
