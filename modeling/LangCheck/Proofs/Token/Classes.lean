import LangCheck.Token.Lexeme
import Mathlib.Data.List.Infix
import Mathlib.Data.List.TakeWhile
import Mathlib.Tactic.Lemma

/-!
# Lexical classes as sets of texts

Each class of fragments is described here by what its texts look like, and the functions that look for a
fragment at the front of a text are measured against it.  What such a function finds is a text of its class
(`isWord_of_word?` and its like).  The other way round, a text of the class is found in full if what stands
behind it does not continue it (`word?_append` and its like).
-/

namespace LangCheck.Lexeme

variable {s rest : List Char} {n : ℕ} {p : Char → Bool}

/-! ## Runs -/

/-- A text does not go on with characters that satisfy a condition: it is empty, or its first character
does not satisfy it. -/
def Stops (p : Char → Bool) (rest : List Char) : Prop := ∀ c ∈ rest.head?, p c = false

lemma stops_cons {c : Char} : Stops p (c :: rest) ↔ p c = false := by simp [Stops]

lemma Stops.mono {q : Char → Bool} (h : Stops p rest) (hqp : ∀ c, q c → p c) : Stops q rest := by
  intro c hc
  by_contra hq
  have hp := hqp c (by simpa using hq)
  rw [h c hc] at hp
  cases hp

lemma Stops.run_eq (h : Stops p rest) : run p rest = 0 := by
  rcases rest with _ | ⟨c, cs⟩
  · rfl
  · rw [run, List.takeWhile_cons_of_neg (by simpa using stops_cons.1 h), List.length_nil]

/-- A run goes on behind characters that belong to it. -/
lemma run_append_of_forall (hs : ∀ c ∈ s, p c) : run p (s ++ rest) = s.length + run p rest := by
  rw [run, List.takeWhile_append_of_pos hs, List.length_append, run]

/-- A run is as long as the characters that make it, if what follows does not go on with it. -/
lemma run_append (hs : ∀ c ∈ s, p c) (hrest : Stops p rest) : run p (s ++ rest) = s.length := by
  rw [run_append_of_forall hs, hrest.run_eq, Nat.add_zero]

lemma run_le_length (p : Char → Bool) (s : List Char) : run p s ≤ s.length :=
  (List.takeWhile_prefix p).length_le

lemma take_run (s : List Char) : s.take (run p s) = s.takeWhile p :=
  (List.prefix_iff_eq_take.1 (List.takeWhile_prefix p)).symm

lemma forall_mem_take_run (s : List Char) : ∀ c ∈ s.take (run p s), p c := by
  rw [take_run]
  exact fun c hc => List.mem_takeWhile_imp hc

/-- A run of some length is not empty. -/
lemma take_run_ne_nil (h : run p s ≠ 0) : s.take (run p s) ≠ [] := by
  rw [take_run]
  exact List.ne_nil_of_length_pos (Nat.pos_of_ne_zero h)

/-! ## Words -/

/-- A word: a letter or underscore, followed by letters, underscores and digits. -/
def IsWord (s : List Char) : Prop :=
  ∃ c cs, s = c :: cs ∧ isWordStart c ∧ ∀ d ∈ cs, isWordChar d

lemma isWord_of_word? (h : word? s = some n) : IsWord (s.take n) := by
  rcases s with _ | ⟨c, cs⟩
  · cases h
  · rw [word?] at h
    split at h
    · next hc =>
      cases h
      exact ⟨c, _, rfl, hc, forall_mem_take_run cs⟩
    · cases h

lemma word?_append (h : IsWord s) (hrest : Stops isWordChar rest) :
    word? (s ++ rest) = some s.length := by
  obtain ⟨c, cs, rfl, hc, hcs⟩ := h
  rw [List.cons_append, word?, if_pos hc, run_append hcs hrest, List.length_cons]

/-! ## Numbers -/

/-- Some digits, at least one. -/
def IsDigits (s : List Char) : Prop := s ≠ [] ∧ ∀ c ∈ s, c.isDigit

/-- The fraction of a number: nothing, or a point and some digits. -/
def IsFraction (s : List Char) : Prop := s = [] ∨ ∃ ds, s = '.' :: ds ∧ IsDigits ds

/-- The exponent of a number: nothing, or `e` or `E`, perhaps a sign, and some digits. -/
def IsExponent (s : List Char) : Prop :=
  s = [] ∨ ∃ e sign ds, s = e :: (sign ++ ds) ∧ (e = 'e' ∨ e = 'E') ∧
    (sign = [] ∨ sign = ['+'] ∨ sign = ['-']) ∧ IsDigits ds

/-- A number: some digits, a fraction and an exponent. -/
def IsNumber (s : List Char) : Prop :=
  ∃ whole fraction exponent, s = whole ++ fraction ++ exponent ∧
    IsDigits whole ∧ IsFraction fraction ∧ IsExponent exponent

lemma isDigits_take_run (h : run Char.isDigit s ≠ 0) : IsDigits (s.take (run Char.isDigit s)) :=
  ⟨take_run_ne_nil h, forall_mem_take_run s⟩

lemma isFraction_take_fraction (s : List Char) : IsFraction (s.take (fraction s)) := by
  unfold fraction
  split
  · next cs =>
    split
    · exact Or.inl rfl
    · next hdigits => exact Or.inr ⟨_, rfl, isDigits_take_run hdigits⟩
  · exact Or.inl rfl

lemma isExponent_take_exponent (s : List Char) : IsExponent (s.take (exponent s)) := by
  unfold exponent
  split
  · next e sign cs =>
    split_ifs with he hsign hdigits hdigits
    · exact Or.inl rfl
    · refine Or.inr ⟨e, [sign], _, rfl, he, Or.inr ?_, isDigits_take_run hdigits⟩
      exact hsign.imp (fun h => by rw [h]) (fun h => by rw [h])
    · exact Or.inl rfl
    · exact Or.inr ⟨e, [], _, rfl, he, Or.inl rfl, isDigits_take_run hdigits⟩
    · exact Or.inl rfl
  · exact Or.inl rfl

lemma isNumber_of_number? (h : number? s = some n) : IsNumber (s.take n) := by
  simp only [number?] at h
  split at h
  · cases h
  · next hwhole =>
    cases h
    rw [List.take_add, List.take_add]
    exact ⟨_, _, _, rfl, isDigits_take_run hwhole, isFraction_take_fraction _,
      isExponent_take_exponent _⟩

/-- A text does not continue a number: it begins neither with a point nor like a word goes on. -/
structure EndsNumber (rest : List Char) : Prop where
  point : rest.head? ≠ some '.'
  word : Stops isWordChar rest

lemma EndsNumber.stops (h : EndsNumber rest) : Stops Char.isDigit rest := by
  refine h.word.mono fun c hc => ?_
  simp [isWordChar, Char.isAlphanum, hc]

lemma fraction_eq_zero (h : s.head? ≠ some '.') : fraction s = 0 := by
  unfold fraction
  split
  · exact absurd rfl h
  · rfl

/-- A fraction goes on with all digits behind it. -/
lemma fraction_append_of_ne_nil (h : IsFraction s) (hs : s ≠ []) :
    fraction (s ++ rest) = s.length + run Char.isDigit rest := by
  obtain ⟨ds, rfl, hne, hds⟩ := h.resolve_left hs
  have hpos := List.length_pos_iff.2 hne
  rw [List.cons_append, fraction, run_append_of_forall hds, if_neg (by omega), List.length_cons]
  omega

lemma fraction_append (h : IsFraction s) (hpoint : rest.head? ≠ some '.')
    (hrest : Stops Char.isDigit rest) : fraction (s ++ rest) = s.length := by
  by_cases hs : s = []
  · rw [hs, List.nil_append, fraction_eq_zero hpoint, List.length_nil]
  · rw [fraction_append_of_ne_nil h hs, hrest.run_eq, Nat.add_zero]

lemma exponent_of_stops (h : Stops isWordChar rest) : exponent rest = 0 := by
  unfold exponent
  split
  · next e sign cs =>
    refine if_neg fun he => ?_
    have hword := stops_cons.1 h
    rcases he with rfl | rfl <;> cases hword
  · rfl

/-- An exponent goes on with all digits behind it. -/
lemma exponent_append_of_ne_nil (h : IsExponent s) (hs : s ≠ []) :
    exponent (s ++ rest) = s.length + run Char.isDigit rest := by
  obtain ⟨e, sign, ds, rfl, he, hsign, hne, hds⟩ := h.resolve_left hs
  have hpos := List.length_pos_iff.2 hne
  have hrun : run Char.isDigit (ds ++ rest) = ds.length + run Char.isDigit rest :=
    run_append_of_forall hds
  obtain ⟨d, ds, rfl⟩ := List.exists_cons_of_ne_nil hne
  have hd : d.isDigit := hds d List.mem_cons_self
  -- a digit is not taken for a sign
  have hdsign : ¬ (d = '+' ∨ d = '-') := by
    rintro (rfl | rfl) <;> cases hd
  rcases hsign with rfl | hsign
  · simp only [List.nil_append, List.cons_append] at hrun ⊢
    rw [exponent, if_pos he, if_neg hdsign, hrun, if_neg (by omega)]
    simp only [List.length_cons]
    omega
  · obtain ⟨mark, rfl, hmark⟩ : ∃ mark, sign = [mark] ∧ (mark = '+' ∨ mark = '-') := by
      rcases hsign with rfl | rfl
      · exact ⟨'+', rfl, Or.inl rfl⟩
      · exact ⟨'-', rfl, Or.inr rfl⟩
    simp only [List.cons_append, List.nil_append] at hrun ⊢
    rw [exponent, if_pos he, if_pos hmark, hrun, if_neg (by omega)]
    simp only [List.length_cons]
    omega

lemma exponent_append (h : IsExponent s) (hrest : EndsNumber rest) :
    exponent (s ++ rest) = s.length := by
  by_cases hs : s = []
  · rw [hs, List.nil_append, exponent_of_stops hrest.word, List.length_nil]
  · rw [exponent_append_of_ne_nil h hs, hrest.stops.run_eq, Nat.add_zero]

/-- Where an exponent begins, there are neither digits nor a point. -/
lemma stops_exponent (h : IsExponent s) (hs : s ≠ []) :
    Stops Char.isDigit (s ++ rest) ∧ (s ++ rest).head? ≠ some '.' := by
  obtain ⟨e, sign, ds, rfl, rfl | rfl, -, -⟩ := h.resolve_left hs
  · exact ⟨stops_cons.2 rfl, by simp⟩
  · exact ⟨stops_cons.2 rfl, by simp⟩

/-- Behind the digits of a number and of its fraction there is no digit. -/
lemma stops_exponent_append (h : IsExponent s) (hrest : EndsNumber rest) :
    Stops Char.isDigit (s ++ rest) ∧ (s ++ rest).head? ≠ some '.' := by
  by_cases hs : s = []
  · rw [hs]
    exact ⟨hrest.stops, hrest.point⟩
  · exact stops_exponent h hs

/-- Where a fraction begins, there are no digits. -/
lemma stops_fraction_append (h : IsFraction s) (hrest : Stops Char.isDigit rest) :
    Stops Char.isDigit (s ++ rest) := by
  rcases h with rfl | ⟨ds, rfl, -⟩
  · exact hrest
  · exact stops_cons.2 rfl

/-- Behind the digits of a number and its fraction comes its exponent. -/
lemma number?_of_parts {whole frac : List Char} (hwhole : IsDigits whole) (hfrac : IsFraction frac)
    (hdigit : Stops Char.isDigit rest) (hpoint : rest.head? ≠ some '.') :
    number? (whole ++ (frac ++ rest)) = some (whole.length + frac.length + exponent rest) := by
  have hpos := List.length_pos_iff.2 hwhole.1
  have hrun := run_append hwhole.2 (stops_fraction_append hfrac hdigit)
  have hdrop : (whole ++ (frac ++ rest)).drop (whole.length + frac.length) = rest := by
    rw [← List.append_assoc, ← List.length_append, List.drop_left]
  simp only [number?, hrun, List.drop_left, fraction_append hfrac hpoint hdigit, hdrop]
  exact if_neg (by omega)

lemma number?_append (h : IsNumber s) (hrest : EndsNumber rest) :
    number? (s ++ rest) = some s.length := by
  obtain ⟨whole, frac, exp, rfl, hwhole, hfrac, hexp⟩ := h
  obtain ⟨hdigit, hpoint⟩ := stops_exponent_append hexp hrest
  rw [List.append_assoc, List.append_assoc, number?_of_parts hwhole hfrac hdigit hpoint,
    exponent_append hexp hrest]
  simp only [List.length_append, Nat.add_assoc]

/-! ## Gaps -/

/-- A run of blank characters. -/
def IsBlankRun (s : List Char) : Prop := s ≠ [] ∧ ∀ c ∈ s, Text.isBlank c

lemma isBlankRun_of_blank? (h : blank? s = some n) : IsBlankRun (s.take n) := by
  rw [blank?] at h
  split at h
  · cases h
  · next hrun =>
    cases h
    exact ⟨take_run_ne_nil hrun, forall_mem_take_run s⟩

/-- A comment that runs to the end of its line. -/
def IsLineComment (s : List Char) : Prop := ∃ body, s = '/' :: '/' :: body ∧ '\n' ∉ body

lemma isLineComment_of_lineComment? (h : lineComment? s = some n) : IsLineComment (s.take n) := by
  unfold lineComment? at h
  split at h
  · next cs =>
    cases h
    refine ⟨_, rfl, fun hmem => ?_⟩
    have hne := forall_mem_take_run cs _ hmem
    simp at hne
  · cases h

lemma lineComment?_append (h : '\n' ∉ s) (hrest : Stops (· != '\n') rest) :
    lineComment? ('/' :: '/' :: (s ++ rest)) = some (s.length + 2) := by
  have hs : ∀ c ∈ s, (c != '\n') = true := fun c hc => by
    simpa using fun heq : c = '\n' => h (heq ▸ hc)
  rw [lineComment?, run_append hs hrest]

/-- The two characters that close a block comment. -/
def closing : List Char := ['*', '/']

/-- A comment between `/*` and the next `*/`. -/
def IsBlockComment (s : List Char) : Prop :=
  ∃ body, s = '/' :: '*' :: (body ++ closing) ∧ ¬ closing <:+: body

lemma closing_infix_cons {c : Char} :
    closing <:+: c :: s ↔ (c = '*' ∧ s.head? = some '/') ∨ closing <:+: s := by
  rw [List.infix_cons_iff]
  refine or_congr_left ?_
  rcases s with _ | ⟨d, s⟩
  · simp [closing, List.cons_prefix_cons]
  · simp [closing, List.cons_prefix_cons, eq_comm]

/-- The first `*/` of a text ends a part in which there is none. -/
lemma commentEnd?_spec (s : List Char) :
    match commentEnd? s with
    | none => ¬ closing <:+: s
    | some n => ∃ body, s.take n = body ++ closing ∧ ¬ closing <:+: body := by
  fun_induction commentEnd? s with
  | case1 s => exact ⟨[], rfl, by simp [closing]⟩
  | case2 c s hnot ih =>
    have hhead : ¬ (c = '*' ∧ s.head? = some '/') := by
      rintro ⟨rfl, hs⟩
      obtain ⟨t, rfl⟩ := List.head?_eq_some_iff.1 hs
      exact hnot t rfl rfl
    rcases hend : commentEnd? s with _ | n
    · rw [hend] at ih
      exact fun h => (closing_infix_cons.1 h).elim hhead ih
    · rw [hend] at ih
      obtain ⟨body, hbody, hclear⟩ := ih
      refine ⟨c :: body, by simp [hbody], fun h => (closing_infix_cons.1 h).elim ?_ hclear⟩
      rintro ⟨rfl, hd⟩
      obtain ⟨d, rfl⟩ := List.head?_eq_some_iff.1 hd
      refine hhead ⟨rfl, ?_⟩
      have htake : (s.take n).head? = some '/' := by rw [hbody]; rfl
      rcases s with _ | ⟨e, s⟩
      · simp at htake
      · rcases n with _ | n
        · simp at htake
        · simpa using htake
  | case3 => simp [closing]

lemma isBlockComment_of_blockComment? (h : blockComment? s = some n) :
    IsBlockComment (s.take n) := by
  unfold blockComment? at h
  split at h
  · next cs =>
    obtain ⟨m, hm, rfl⟩ := Option.map_eq_some_iff.1 h
    have hspec := commentEnd?_spec cs
    rw [hm] at hspec
    obtain ⟨body, hbody, hclear⟩ := hspec
    exact ⟨body, by simp [hbody], hclear⟩
  · cases h

lemma commentEnd?_append (h : ¬ closing <:+: s) :
    commentEnd? (s ++ (closing ++ rest)) = some (s.length + 2) := by
  induction s with
  | nil => rfl
  | cons c s ih =>
    have hs := ih fun hinfix => h (closing_infix_cons.2 (Or.inr hinfix))
    have hhead : ∀ t, c = '*' → s ++ (closing ++ rest) ≠ '/' :: t := by
      rintro t rfl heq
      refine h (closing_infix_cons.2 (Or.inl ⟨rfl, ?_⟩))
      rcases s with _ | ⟨d, s⟩
      · simp [closing] at heq
      · simpa using (List.cons.inj heq).1
    rw [List.cons_append, commentEnd?, hs, Option.map_some, List.length_cons]
    · exact hhead

lemma blockComment?_append (h : ¬ closing <:+: s) :
    blockComment? ('/' :: '*' :: (s ++ (closing ++ rest))) = some (s.length + 4) := by
  rw [blockComment?, commentEnd?_append h, Option.map_some]

/-! ## String literals -/

/-- What can stand between the quotes of a string literal: characters other than quotes, backslashes and
newlines, and pairs of a backslash and a character other than a newline. -/
inductive IsInner : List Char → Prop
  | nil : IsInner []
  | plain {c : Char} {s : List Char} (hc : ¬ (c = '"' ∨ c = '\\' ∨ c = '\n')) (hs : IsInner s) :
    IsInner (c :: s)
  | pair {c : Char} {s : List Char} (hc : c ≠ '\n') (hs : IsInner s) : IsInner ('\\' :: c :: s)

lemma isInner_take_quotedRun (s : List Char) : IsInner (s.take (quotedRun s)) := by
  fun_induction quotedRun s with
  | case1 => exact .nil
  | case2 c s hc ih => exact .pair hc ih
  | case3 => exact .nil
  | case4 c s _ hc ih => exact .plain hc ih
  | case5 => exact .nil

/-- What can stand between quotes goes on behind a part of it. -/
lemma quotedRun_append_of_isInner (h : IsInner s) :
    quotedRun (s ++ rest) = s.length + quotedRun rest := by
  induction h with
  | nil => rw [List.nil_append, List.length_nil, Nat.zero_add]
  | @plain c s hc _ ih =>
    have hne : c ≠ '\\' := fun heq => hc (Or.inr (Or.inl heq))
    rw [List.cons_append, quotedRun, if_neg hc, ih, List.length_cons, Nat.add_right_comm]
    intro d t heq
    exact absurd heq hne
  | pair hc _ ih =>
    rw [List.cons_append, List.cons_append, quotedRun, if_neg hc, ih, List.length_cons,
      List.length_cons]
    omega

lemma quotedRun_append (h : IsInner s) (hrest : quotedRun rest = 0) :
    quotedRun (s ++ rest) = s.length := by
  rw [quotedRun_append_of_isInner h, hrest, Nat.add_zero]

/-- A string literal with its closing quote. -/
def IsQuoted (s : List Char) : Prop := ∃ inner, s = '"' :: (inner ++ ['"']) ∧ IsInner inner

lemma isQuoted_of_closedQuote? (h : closedQuote? s = some n) : IsQuoted (s.take n) := by
  unfold closedQuote? at h
  split at h
  · next cs =>
    split at h
    · next hquote =>
      cases h
      refine ⟨cs.take (quotedRun cs), ?_, isInner_take_quotedRun cs⟩
      rw [List.take_succ_cons, List.take_add_one, hquote]
      rfl
    · cases h
  · cases h

lemma closedQuote?_append (h : IsQuoted s) : closedQuote? (s ++ rest) = some s.length := by
  obtain ⟨inner, rfl, hinner⟩ := h
  have hrun : quotedRun (inner ++ '"' :: rest) = inner.length := quotedRun_append hinner rfl
  simp [closedQuote?, hrun]

/-- A string literal without its closing quote. -/
def IsOpenQuote (s : List Char) : Prop := ∃ inner, s = '"' :: inner ∧ IsInner inner

lemma isOpenQuote_of_openQuote? (h : openQuote? s = some n) : IsOpenQuote (s.take n) := by
  unfold openQuote? at h
  split at h
  · next cs =>
    cases h
    exact ⟨_, rfl, isInner_take_quotedRun cs⟩
  · cases h

end LangCheck.Lexeme
