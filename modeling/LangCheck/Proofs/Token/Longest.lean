import LangCheck.Proofs.Token.Rules
import Mathlib.Data.List.MinMax

/-!
# The longest match

The pattern of a rule accepts the texts of its class, and the rule cuts off the longest front of a text that
its pattern accepts (`findsLongest_word` and its like).  In front of a string literal or a block comment the
order of the rules counts.  Everywhere else the first rule that applies is the one with the longest match of
all, and no other rule matches as much (`LexRule.first?_longest`), so that the same fragment would be cut off
with the rules in any other order (`LexRule.longest?_perm`).
-/

namespace LangCheck

namespace Lexeme

variable {s t u rest : List Char} {n : ℕ} {reach : Option ℕ} {P : List Char → Prop}

/-! ## The longest front with a property -/

/-- A text is the longest front of another one that has a property. -/
structure LongestFront (P : List Char → Prop) (s t : List Char) : Prop where
  front : t <+: s
  holds : P t
  longest : ∀ u, u <+: s → P u → u <+: t

lemma LongestFront.unique (ht : LongestFront P s t) (hu : LongestFront P s u) : t = u :=
  (hu.longest t ht.front ht.holds).eq_of_length_le (ht.longest u hu.front hu.holds).length_le

/-- A length is that of the longest front with a property, and there is none if no front has it. -/
def FindsLongest (P : List Char → Prop) (s : List Char) : Option ℕ → Prop
  | none => ∀ t, t <+: s → ¬ P t
  | some n => n ≤ s.length ∧ LongestFront P s (s.take n)

/-- What is found has the property, and whatever has the property is not longer. -/
lemma findsLongest_of (hsound : ∀ n, reach = some n → n ≤ s.length ∧ P (s.take n))
    (hcomplete : ∀ t rest, s = t ++ rest → P t → ∃ n, reach = some n ∧ t.length ≤ n) :
    FindsLongest P s reach := by
  rcases reach with _ | n
  · rintro t ⟨rest, rfl⟩ ht
    obtain ⟨n, hn, -⟩ := hcomplete t rest rfl ht
    cases hn
  · obtain ⟨hle, hholds⟩ := hsound n rfl
    refine ⟨hle, List.take_prefix n s, hholds, ?_⟩
    rintro u ⟨rest, hrest⟩ hP
    obtain ⟨m, hm, hlength⟩ := hcomplete u rest hrest.symm hP
    cases hm
    refine List.prefix_of_prefix_length_le ⟨rest, hrest⟩ (List.take_prefix n s) ?_
    rwa [List.length_take_of_le hle]

/-! ## The classes -/

lemma findsLongest_word (s : List Char) : FindsLongest IsWord s (word? s) := by
  refine findsLongest_of (fun n h => ⟨?_, isWord_of_word? h⟩) ?_
  · rcases s with _ | ⟨c, cs⟩
    · cases h
    · rw [word?] at h
      split at h
      · cases h
        exact Nat.succ_le_succ (run_le_length isWordChar cs)
      · cases h
  · rintro _ rest rfl ⟨c, cs, rfl, hc, hcs⟩
    have hrun : run isWordChar (cs ++ rest) = cs.length + run isWordChar rest :=
      run_append_of_forall hcs
    refine ⟨_, if_pos hc, ?_⟩
    rw [List.append_eq, hrun, List.length_cons]
    omega

lemma fraction_le_length (s : List Char) : fraction s ≤ s.length := by
  unfold fraction
  split
  · next cs =>
    have hrun := run_le_length Char.isDigit cs
    split <;> simp only [List.length_cons] <;> omega
  · exact Nat.zero_le _

lemma exponent_le_length (s : List Char) : exponent s ≤ s.length := by
  unfold exponent
  split
  · next e sign cs =>
    have hrun := run_le_length Char.isDigit cs
    have hrun' := run_le_length Char.isDigit (sign :: cs)
    simp only [List.length_cons] at hrun' ⊢
    split_ifs <;> omega
  · exact Nat.zero_le _

lemma le_length_of_number? (h : number? s = some n) : n ≤ s.length := by
  simp only [number?] at h
  split at h
  · cases h
  · cases h
    have hwhole := run_le_length Char.isDigit s
    have hfraction := fraction_le_length (s.drop (run Char.isDigit s))
    have hexponent := exponent_le_length (s.drop (run Char.isDigit s +
      fraction (s.drop (run Char.isDigit s))))
    rw [List.length_drop] at hfraction hexponent
    omega

/-- A number may go on behind a part of it that is a number. -/
lemma exists_number?_append (h : IsNumber t) (rest : List Char) :
    ∃ n, number? (t ++ rest) = some n ∧ t.length ≤ n := by
  obtain ⟨whole, frac, exp, rfl, hwhole, hfrac, hexp⟩ := h
  by_cases hne : exp = []
  · -- without an exponent the digits in front may go on
    subst hne
    have hpos := List.length_pos_iff.2 hwhole.1
    have hrun : run Char.isDigit (whole ++ (frac ++ rest)) =
        whole.length + run Char.isDigit (frac ++ rest) := run_append_of_forall hwhole.2
    simp only [List.append_nil, List.append_assoc, number?, hrun]
    refine ⟨_, if_neg (by omega), ?_⟩
    by_cases hf : frac = []
    · rw [hf, List.append_nil]
      omega
    · have hnodigit : run Char.isDigit (frac ++ rest) = 0 := by
        obtain ⟨ds, rfl, -⟩ := hfrac.resolve_left hf
        exact (stops_cons.2 rfl).run_eq
      rw [hnodigit, Nat.add_zero, List.drop_left, fraction_append_of_ne_nil hfrac hf,
        List.length_append]
      omega
  · have hstart : Stops Char.isDigit (exp ++ rest) ∧ (exp ++ rest).head? ≠ some '.' :=
      stops_exponent hexp hne
    obtain ⟨hdigit, hpoint⟩ := hstart
    rw [List.append_assoc, List.append_assoc, number?_of_parts hwhole hfrac hdigit hpoint,
      exponent_append_of_ne_nil hexp hne]
    refine ⟨_, rfl, ?_⟩
    simp only [List.length_append]
    omega

lemma findsLongest_number (s : List Char) : FindsLongest IsNumber s (number? s) := by
  refine findsLongest_of (fun n h => ⟨le_length_of_number? h, isNumber_of_number? h⟩) ?_
  rintro t rest rfl ht
  exact exists_number?_append ht rest

lemma findsLongest_blank (s : List Char) : FindsLongest IsBlankRun s (blank? s) := by
  refine findsLongest_of (fun n h => ⟨?_, isBlankRun_of_blank? h⟩) ?_
  · rw [blank?] at h
    split at h
    · cases h
    · cases h
      exact run_le_length _ s
  · rintro t rest rfl ⟨hne, ht⟩
    have hpos := List.length_pos_iff.2 hne
    have hrun : run Text.isBlank (t ++ rest) = t.length + run Text.isBlank rest :=
      run_append_of_forall ht
    exact ⟨_, if_neg (by omega), by omega⟩

lemma quotedRun_le_length (s : List Char) : quotedRun s ≤ s.length := by
  fun_induction quotedRun s with
  | case1 => exact Nat.zero_le _
  | case2 c s _ ih =>
    simp only [List.length_cons]
    omega
  | case3 => exact Nat.zero_le _
  | case4 c s _ _ ih =>
    rw [List.length_cons]
    omega
  | case5 => exact Nat.zero_le _

lemma findsLongest_closedQuote (s : List Char) : FindsLongest IsQuoted s (closedQuote? s) := by
  refine findsLongest_of (fun n h => ⟨?_, isQuoted_of_closedQuote? h⟩) ?_
  · unfold closedQuote? at h
    split at h
    · next cs =>
      split at h
      · next hquote =>
        cases h
        have hlt := (List.getElem?_eq_some_iff.1 hquote).1
        rw [List.length_cons]
        omega
      · cases h
    · cases h
  · rintro t rest rfl ht
    exact ⟨_, closedQuote?_append ht, Nat.le_refl _⟩

lemma findsLongest_openQuote (s : List Char) : FindsLongest IsOpenQuote s (openQuote? s) := by
  refine findsLongest_of (fun n h => ⟨?_, isOpenQuote_of_openQuote? h⟩) ?_
  · unfold openQuote? at h
    split at h
    · next cs =>
      cases h
      exact Nat.succ_le_succ (quotedRun_le_length cs)
    · cases h
  · rintro _ rest rfl ⟨inner, rfl, hinner⟩
    have hrun : quotedRun (inner ++ rest) = inner.length + quotedRun rest :=
      quotedRun_append_of_isInner hinner
    refine ⟨_, rfl, ?_⟩
    rw [List.append_eq, hrun, List.length_cons]
    omega

lemma findsLongest_lineComment (s : List Char) :
    FindsLongest IsLineComment s (lineComment? s) := by
  refine findsLongest_of (fun n h => ⟨?_, isLineComment_of_lineComment? h⟩) ?_
  · unfold lineComment? at h
    split at h
    · next cs =>
      cases h
      have hrun := run_le_length (· != '\n') cs
      simp only [List.length_cons]
      omega
    · cases h
  · rintro _ rest rfl ⟨body, rfl, hbody⟩
    have hall : ∀ c ∈ body, (c != '\n') = true := fun c hc => by
      simpa using fun heq : c = '\n' => hbody (heq ▸ hc)
    have hrun : run (· != '\n') (body ++ rest) = body.length + run (· != '\n') rest :=
      run_append_of_forall hall
    refine ⟨_, rfl, ?_⟩
    rw [List.append_eq, hrun]
    simp only [List.length_cons]
    omega

/-- A comment that is opened by `/*`, up to the end of the text. -/
def IsOpenComment (s : List Char) : Prop := ∃ body, s = '/' :: '*' :: body

lemma findsLongest_openComment (s : List Char) :
    FindsLongest IsOpenComment s (openComment? s) := by
  refine findsLongest_of (fun n h => ?_) ?_
  · unfold openComment? at h
    split at h
    · next cs =>
      cases h
      exact ⟨Nat.le_refl _, cs, List.take_of_length_le (Nat.le_refl (cs.length + 2))⟩
    · cases h
  · rintro _ rest rfl ⟨body, rfl⟩
    refine ⟨_, rfl, ?_⟩
    simp

/-- The first `*/` of a text is where it is found. -/
lemma commentEnd?_eq_some_iff : commentEnd? s = some n ↔
    ∃ body rest, s = body ++ (closing ++ rest) ∧ ¬ closing <:+: body ∧ n = body.length + 2 := by
  constructor
  · intro h
    have hspec := commentEnd?_spec s
    rw [h] at hspec
    obtain ⟨body, hbody, hclear⟩ := hspec
    have hs : s = body ++ (closing ++ s.drop n) := by
      rw [← List.append_assoc, ← hbody, List.take_append_drop]
    rw [hs, commentEnd?_append hclear] at h
    exact ⟨body, _, hs, hclear, (Option.some.inj h).symm⟩
  · rintro ⟨body, rest, rfl, hclear, rfl⟩
    exact commentEnd?_append hclear

lemma commentEnd?_eq_none_iff : commentEnd? s = none ↔ ¬ closing <:+: s := by
  constructor
  · intro h
    have hspec := commentEnd?_spec s
    rwa [h] at hspec
  · intro h
    rcases hend : commentEnd? s with _ | n
    · rfl
    · obtain ⟨body, rest, rfl, -⟩ := commentEnd?_eq_some_iff.1 hend
      exact absurd ⟨body, rest, by simp⟩ h

lemma le_length_of_blockComment? (h : blockComment? s = some n) : n ≤ s.length := by
  unfold blockComment? at h
  split at h
  · obtain ⟨m, hm, rfl⟩ := Option.map_eq_some_iff.1 h
    obtain ⟨body, rest, rfl, -, rfl⟩ := commentEnd?_eq_some_iff.1 hm
    simp [closing]
  · cases h

end Lexeme

namespace LexRule

open Lexeme

variable {s t u : List Char} {c : Char} {form : Form} {n : ℕ} {rule : LexRule} {rules : List LexRule}

/-! ## What the patterns accept -/

/-- What the patterns of the rules accept, and what a fragment of the rule is then. -/
inductive Accepts : Form → List Char → Prop
  | word {s : List Char} (h : IsWord s) : Accepts .word s
  | number {s : List Char} (h : IsNumber s) : Accepts .number s
  | blank {s : List Char} (h : IsBlankRun s) : Accepts .gap s
  | quoted {s : List Char} (h : IsQuoted s) : Accepts .quoted s
  | openQuote {s : List Char} (h : IsOpenQuote s) : Accepts .malformed s
  | lineComment {s : List Char} (h : IsLineComment s) : Accepts .gap s
  | blockComment {s : List Char} (h : IsBlockComment s) : Accepts .gap s
  | openComment {s : List Char} (h : IsOpenComment s) : Accepts .malformed s
  | symbol {entry : String × Kind} (h : entry ∈ Kind.symbols) :
    Accepts (.symbol entry.2) entry.1.toList

/-- A rule cuts off what its pattern accepts. -/
lemma accepts_of_reach (h : rule ∈ all) (hn : rule.reach s = some n) :
    n ≤ s.length ∧ Accepts rule.form (s.take n) := by
  have hfinds : ∀ {P : List Char → Prop} {reach : Option ℕ}, FindsLongest P s reach →
      reach = some n → n ≤ s.length ∧ P (s.take n) := by
    rintro P _ hfinds rfl
    exact ⟨hfinds.1, hfinds.2.holds⟩
  simp only [all, List.mem_append, List.mem_cons, List.not_mem_nil, or_false, List.mem_map] at h
  rcases h with (rfl | rfl | rfl | rfl | rfl | rfl | rfl | rfl) | ⟨entry, hentry, rfl⟩
  · exact (hfinds (findsLongest_word s) hn).imp_right .word
  · exact (hfinds (findsLongest_number s) hn).imp_right .number
  · exact (hfinds (findsLongest_blank s) hn).imp_right .blank
  · exact (hfinds (findsLongest_closedQuote s) hn).imp_right .quoted
  · exact (hfinds (findsLongest_openQuote s) hn).imp_right .openQuote
  · exact (hfinds (findsLongest_lineComment s) hn).imp_right .lineComment
  · exact ⟨le_length_of_blockComment? hn, .blockComment (isBlockComment_of_blockComment? hn)⟩
  · exact (hfinds (findsLongest_openComment s) hn).imp_right .openComment
  · obtain ⟨hfront, rfl⟩ := spelled?_eq_some_iff.1 hn
    refine ⟨hfront.length_le, ?_⟩
    rw [← List.prefix_iff_eq_take.1 hfront]
    exact .symbol hentry

/-- What a fragment can be that begins with a character. -/
inductive Lead where
  | word
  | number
  | blank
  | quote
  /-- A comment or a symbol. -/
  | mark

/-- What a fragment can be that begins with the character. -/
def lead (c : Char) : Lead :=
  if isWordStart c then .word
  else if c.isDigit then .number
  else if Text.isBlank c then .blank
  else if c = '"' then .quote
  else .mark

lemma lead_of_isDigit (h : c.isDigit = true) : lead c = .number := by
  simp [lead, isWordStart_of_isDigit h, h]

lemma lead_of_isBlank (h : Text.isBlank c = true) : lead c = .blank := by
  have hword := isWordChar_of_isBlank h
  simp [lead, isWordStart_of_isWordChar hword, isDigit_of_isWordChar hword, h]

/-- The first character of a text tells which patterns may accept a front of it. -/
lemma Accepts.of_lead (h : Accepts form t) (ht : t <+: c :: s) :
    match lead c with
    | .word => form = .word ∧ IsWord t
    | .number => form = .number ∧ IsNumber t
    | .blank => form = .gap ∧ IsBlankRun t
    | .quote => True
    | .mark => form = .gap ∧ IsLineComment t ∨ ['/', '*'] <+: t ∨
        ∃ entry ∈ Kind.symbols, form = .symbol entry.2 ∧ t = entry.1.toList := by
  cases h with
  | word h =>
    obtain ⟨d, ds, rfl, hd, hds⟩ := h
    obtain ⟨rfl, -⟩ := List.cons_prefix_cons.1 ht
    rw [lead, if_pos hd]
    exact ⟨rfl, _, _, rfl, hd, hds⟩
  | number h =>
    obtain ⟨whole, fraction, exponent, rfl, ⟨hne, hdigits⟩, h⟩ := h
    obtain ⟨d, ds, rfl⟩ := List.exists_cons_of_ne_nil hne
    obtain ⟨rfl, -⟩ := List.cons_prefix_cons.1 ht
    rw [lead_of_isDigit (hdigits _ List.mem_cons_self)]
    exact ⟨rfl, _, fraction, exponent, rfl, ⟨hne, hdigits⟩, h⟩
  | blank h =>
    obtain ⟨d, ds, rfl⟩ := List.exists_cons_of_ne_nil h.1
    obtain ⟨rfl, -⟩ := List.cons_prefix_cons.1 ht
    rw [lead_of_isBlank (h.2 _ List.mem_cons_self)]
    exact ⟨rfl, h⟩
  | quoted h =>
    obtain ⟨inner, rfl, -⟩ := h
    obtain ⟨rfl, -⟩ := List.cons_prefix_cons.1 ht
    exact trivial
  | openQuote h =>
    obtain ⟨inner, rfl, -⟩ := h
    obtain ⟨rfl, -⟩ := List.cons_prefix_cons.1 ht
    exact trivial
  | lineComment h =>
    obtain ⟨body, rfl, hbody⟩ := h
    obtain ⟨rfl, -⟩ := List.cons_prefix_cons.1 ht
    exact Or.inl ⟨rfl, body, rfl, hbody⟩
  | blockComment h =>
    obtain ⟨body, rfl, -⟩ := h
    obtain ⟨rfl, -⟩ := List.cons_prefix_cons.1 ht
    exact Or.inr (Or.inl ⟨_, rfl⟩)
  | openComment h =>
    obtain ⟨body, rfl⟩ := h
    obtain ⟨rfl, -⟩ := List.cons_prefix_cons.1 ht
    exact Or.inr (Or.inl ⟨_, rfl⟩)
  | @symbol entry h =>
    obtain ⟨d, ds, hd, hword, hdigit, hblank, hquote⟩ := exists_cons_of_symbol h
    obtain rfl : d = c := by
      rw [hd] at ht
      exact (List.cons_prefix_cons.1 ht).1
    have hlead : lead d = .mark := by simp [lead, hword, hdigit, hblank, hquote]
    rw [hlead]
    exact Or.inr (Or.inr ⟨entry, h, rfl, rfl⟩)

/-! ## The longest match of all -/

/-- A front of a text is accepted by a pattern, and whatever else the patterns accept at the front of the
text is shorter. -/
structure LongestMatch (s : List Char) (form : Form) (t : List Char) : Prop where
  front : t <+: s
  accepts : Accepts form t
  longest : ∀ form' u, u <+: s → Accepts form' u → u <+: t ∧ (u = t → form' = form)

/-- What is found is the longest match, and nothing is found if no pattern accepts a front. -/
def FindsMatch (s : List Char) : Option (Form × ℕ) → Prop
  | none => ∀ form t, t <+: s → ¬ Accepts form t
  | some (form, n) => n ≤ s.length ∧ LongestMatch s form (s.take n)

/-- Where the patterns of one rule only accept anything, its match is the longest. -/
lemma findsMatch_of {P : List Char → Prop} {reach : Option ℕ} (hfinds : FindsLongest P s reach)
    (hreach : reach = some n) (haccepts : ∀ u, P u → Accepts form u)
    (honly : ∀ form' u, u <+: s → Accepts form' u → form' = form ∧ P u) :
    FindsMatch s (some (form, n)) := by
  subst hreach
  obtain ⟨hle, hfront, hholds, hlongest⟩ := hfinds
  refine ⟨hle, hfront, haccepts _ hholds, ?_⟩
  intro form' u hu hform'
  obtain ⟨rfl, hP⟩ := honly form' u hu hform'
  exact ⟨hlongest u hu hP, fun _ => rfl⟩

/-- Each symbol stands in the table behind those that it begins with, so that the first one at the front of
a text is the longest. -/
lemma symbol?_longest (h : symbol? s = some (form, n)) :
    ∃ entry ∈ Kind.symbols, form = .symbol entry.2 ∧ n ≤ s.length ∧ s.take n = entry.1.toList ∧
      ∀ other ∈ Kind.symbols, other.1.toList <+: s →
        other.1.toList <+: entry.1.toList ∧ (other.1.toList = entry.1.toList → other = entry) := by
  have hordered : Kind.symbols.Pairwise fun a b => ¬ a.1.toList <+: b.1.toList := by decide
  obtain ⟨before, entry, behind, hsplit, hentry, hnone⟩ := List.findSome?_eq_some_iff.1 h
  obtain ⟨m, hm, heq⟩ := Option.map_eq_some_iff.1 hentry
  cases heq
  obtain ⟨hfront, rfl⟩ := spelled?_eq_some_iff.1 hm
  refine ⟨entry, ?_, rfl, hfront.length_le, (List.prefix_iff_eq_take.1 hfront).symm, ?_⟩
  · rw [hsplit]
    exact List.mem_append_right _ List.mem_cons_self
  intro other hother hfirst
  rw [hsplit] at hother hordered
  rcases List.mem_append.1 hother with hbefore | hother
  · have hother := hnone other hbefore
    rw [spelled?_eq_some_iff.2 ⟨hfirst, rfl⟩] at hother
    cases hother
  · rcases List.mem_cons.1 hother with rfl | hbehind
    · exact ⟨List.prefix_refl _, fun _ => rfl⟩
    · have hnot : ¬ entry.1.toList <+: other.1.toList :=
        (List.pairwise_cons.1 (List.pairwise_append.1 hordered).2.1).1 other hbehind
      refine ⟨?_, fun heq => absurd (heq ▸ List.prefix_refl _) hnot⟩
      exact (List.prefix_or_prefix_of_prefix hfirst hfront).resolve_right hnot

/-- A text begins neither with a quote nor with `/*`. -/
def Plain (s : List Char) : Prop := s.head? ≠ some '"' ∧ ¬ ['/', '*'] <+: s

/-- Neither a comment nor a symbol of two characters is taken for a slash. -/
lemma findsMatch_lineComment (hs : ¬ ['/', '*'] <+: c :: s) (hlead : lead c = .mark)
    (h : lineComment? (c :: s) = some n) : FindsMatch (c :: s) (some (.gap, n)) := by
  have hshort : ∀ entry ∈ Kind.symbols,
      entry.1.toList.length ≤ 2 ∧ entry.1.toList ≠ ['/', '/'] := by decide
  have hfinds := findsLongest_lineComment (c :: s)
  rw [h] at hfinds
  obtain ⟨hle, hfront, hholds, hlongest⟩ := hfinds
  refine ⟨hle, hfront, .lineComment hholds, ?_⟩
  intro form' u hu hform'
  have hcases := hform'.of_lead hu
  rw [hlead] at hcases
  rcases hcases with ⟨rfl, hcomment⟩ | hblock | ⟨entry, hentry, rfl, rfl⟩
  · exact ⟨hlongest u hu hcomment, fun _ => rfl⟩
  · exact absurd (hblock.trans hu) hs
  · obtain ⟨body, hbody, -⟩ := hholds
    obtain ⟨hlength, hne⟩ := hshort entry hentry
    have hslashes : ['/', '/'] <+: c :: s := by
      refine List.IsPrefix.trans ⟨body, ?_⟩ hfront
      rw [hbody]
      rfl
    have hin : entry.1.toList <+: ['/', '/'] :=
      List.prefix_of_prefix_length_le hu hslashes hlength
    have hlt : entry.1.toList.length < 2 :=
      Nat.lt_of_le_of_ne hlength fun heq => hne (hin.eq_of_length heq)
    rw [hbody] at hfront ⊢
    refine ⟨List.prefix_of_prefix_length_le hu hfront (by simp; omega), fun heq => ?_⟩
    rw [heq] at hlt
    simp only [List.length_cons] at hlt
    omega

/-- Where no comment begins, the longest match is a symbol. -/
lemma findsMatch_symbol (hs : ¬ ['/', '*'] <+: c :: s) (hlead : lead c = .mark)
    (hline : lineComment? (c :: s) = none) : FindsMatch (c :: s) (symbol? (c :: s)) := by
  have hnoline : ∀ u, u <+: c :: s → ¬ IsLineComment u := by
    have hfinds := findsLongest_lineComment (c :: s)
    rwa [hline] at hfinds
  have hsymbols : ∀ form u, u <+: c :: s → Accepts form u →
      ∃ entry ∈ Kind.symbols, form = .symbol entry.2 ∧ u = entry.1.toList := by
    intro form u hu h
    have hcases := h.of_lead hu
    rw [hlead] at hcases
    rcases hcases with ⟨-, hcomment⟩ | hblock | hsymbol
    · exact absurd hcomment (hnoline u hu)
    · exact absurd (hblock.trans hu) hs
    · exact hsymbol
  rcases hsymbol : symbol? (c :: s) with _ | ⟨form, n⟩
  · intro form u hu h
    obtain ⟨entry, hentry, -, rfl⟩ := hsymbols form u hu h
    exact not_prefix_of_symbol?_eq_none hsymbol entry hentry hu
  · obtain ⟨entry, hentry, rfl, hle, htake, hlongest⟩ := symbol?_longest hsymbol
    refine ⟨hle, List.take_prefix n _, htake ▸ .symbol hentry, ?_⟩
    intro form u hu h
    obtain ⟨other, hother, rfl, rfl⟩ := hsymbols form u hu h
    rw [htake]
    obtain ⟨hfirst, hsame⟩ := hlongest other hother hu
    exact ⟨hfirst, fun heq => by rw [hsame heq]⟩

/-- In front of anything but a string literal and a block comment the first rule that applies is the one
with the longest match. -/
theorem first?_longest (hs : Plain (c :: s)) : FindsMatch (c :: s) (first? (c :: s)) := by
  -- words, numbers and blank runs begin with characters that begin nothing else
  have honly := fun form' u (hu : u <+: c :: s) (h : Accepts form' u) => h.of_lead hu
  by_cases hword : isWordStart c = true
  · simp only [lead, if_pos hword] at honly
    rcases hreach : word? (c :: s) with _ | n
    · rw [word?_eq_none_iff.1 hreach] at hword
      cases hword
    · rw [first?_of_word hreach]
      exact findsMatch_of (findsLongest_word (c :: s)) hreach (fun _ => .word) honly
  by_cases hdigit : c.isDigit = true
  · simp only [lead_of_isDigit hdigit] at honly
    rcases hreach : number? (c :: s) with _ | n
    · rw [number?_eq_none_iff.1 hreach] at hdigit
      cases hdigit
    · rw [first?_of_number hdigit hreach]
      exact findsMatch_of (findsLongest_number (c :: s)) hreach (fun _ => .number) honly
  by_cases hblank : Text.isBlank c = true
  · simp only [lead_of_isBlank hblank] at honly
    rcases hreach : blank? (c :: s) with _ | n
    · rw [blank?_eq_none_iff.1 hreach] at hblank
      cases hblank
    · rw [first?_of_blank hblank hreach]
      exact findsMatch_of (findsLongest_blank (c :: s)) hreach (fun _ => .blank) honly
  -- what is left are comments to the end of the line and symbols
  have hquote : c ≠ '"' := fun heq => hs.1 (by rw [heq]; rfl)
  have hlead : lead c = .mark := by simp [lead, hword, hdigit, hblank, hquote]
  rw [Bool.not_eq_true] at hword hdigit hblank
  rw [first?_of_other hword hdigit hblank hquote, blockComment?_eq_none hs.2,
    openComment?_eq_none hs.2]
  rcases hline : lineComment? (c :: s) with _ | n
  · exact findsMatch_symbol hs.2 hlead hline
  · exact findsMatch_lineComment hs.2 hlead hline

/-! ## The rules in any order -/

/-- The rule with the longest match of some rules, the first of them if there are several. -/
def longest? (rules : List LexRule) (s : List Char) : Option (Form × ℕ) :=
  (rules.filterMap (·.attempt? s)).argmax (·.2)

lemma exists_of_mem_attempts {attempt : Form × ℕ}
    (h : attempt ∈ rules.filterMap (·.attempt? s)) :
    ∃ rule ∈ rules, rule.form = attempt.1 ∧ rule.reach s = some attempt.2 := by
  obtain ⟨rule, hrule, hattempt⟩ := List.mem_filterMap.1 h
  obtain ⟨n, hn, rfl⟩ := Option.map_eq_some_iff.1 hattempt
  exact ⟨rule, hrule, rfl, hn⟩

/-- The longest match is the same in whatever order the rules are, and it is that of the first rule that
applies in the order of the table. -/
theorem longest?_perm (hs : Plain (c :: s)) (hrules : rules.Perm all) :
    longest? rules (c :: s) = first? (c :: s) := by
  have hmatch := first?_longest hs
  have haccepts : ∀ attempt ∈ rules.filterMap (·.attempt? (c :: s)),
      attempt.2 ≤ (c :: s).length ∧ Accepts attempt.1 ((c :: s).take attempt.2) := by
    intro attempt hattempt
    obtain ⟨rule, hrule, hform, hreach⟩ := exists_of_mem_attempts hattempt
    rw [← hform]
    exact accepts_of_reach (hrules.mem_iff.1 hrule) hreach
  rcases hfirst : first? (c :: s) with _ | ⟨form, n⟩
  · rw [hfirst] at hmatch
    have hnone : rules.filterMap (·.attempt? (c :: s)) = [] := by
      refine List.eq_nil_iff_forall_not_mem.2 fun attempt hattempt => ?_
      exact hmatch _ _ (List.take_prefix _ _) (haccepts attempt hattempt).2
    rw [longest?, hnone, List.argmax_nil]
  · rw [hfirst] at hmatch
    obtain ⟨hle, hlongest⟩ := hmatch
    -- the other matches are shorter
    have hmem : (form, n) ∈ rules.filterMap (·.attempt? (c :: s)) := by
      obtain ⟨rule, hrule, hattempt⟩ := List.exists_of_findSome?_eq_some hfirst
      exact List.mem_filterMap.2 ⟨rule, hrules.mem_iff.2 hrule, hattempt⟩
    have hother : ∀ attempt ∈ rules.filterMap (·.attempt? (c :: s)), attempt.2 ≤ n ∧
        (n ≤ attempt.2 → attempt = (form, n)) := by
      rintro ⟨form', m⟩ hattempt
      obtain ⟨hle', hform'⟩ := haccepts _ hattempt
      obtain ⟨hfirst, hsame⟩ := hlongest.longest _ _ (List.take_prefix m _) hform'
      have hmn : m ≤ n := by
        have hlength := hfirst.length_le
        rwa [List.length_take_of_le hle', List.length_take_of_le hle] at hlength
      refine ⟨hmn, fun hnm => ?_⟩
      obtain rfl : m = n := Nat.le_antisymm hmn hnm
      rw [show form' = form from hsame rfl]
    rw [longest?, List.argmax_eq_some_iff]
    refine ⟨hmem, fun attempt hattempt => (hother attempt hattempt).1, ?_⟩
    intro attempt hattempt hle'
    rw [(hother attempt hattempt).2 hle']

end LexRule

end LangCheck
