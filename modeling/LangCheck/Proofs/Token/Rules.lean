import LangCheck.Proofs.Token.Classes
import LangCheck.Token.Lexer

/-!
# Which rule cuts the next fragment

The rules of the lexer are tried in order, and the first that applies decides what the next fragment is.
The lemmas here lay the order out (`LexRule.first?_eq`), say which rules a text can reach by its first
character (`LexRule.first?_of_other`), and give the next fragment from the rule that applies to it
(`nextFragment_of_ne_number` and its like).
-/

namespace LangCheck

open Lexeme

variable {s rest : List Char} {c : Char} {form : Form} {n : ℕ}

namespace LexRule

/-! ## Symbols -/

/-- The first symbol at the front of a text. -/
def symbol? (s : List Char) : Option (Form × ℕ) :=
  Kind.symbols.findSome? fun entry => (spelled? entry.1.toList s).map fun n => (.symbol entry.2, n)

lemma spelled?_eq_some_iff {spelling : List Char} :
    spelled? spelling s = some n ↔ spelling <+: s ∧ n = spelling.length := by
  rw [spelled?]
  split
  · next h => simp [List.isPrefixOf_iff_prefix.1 h, eq_comm]
  · next h =>
    have hnot : ¬ spelling <+: s := fun hp => h (List.isPrefixOf_iff_prefix.2 hp)
    simp [hnot]

lemma exists_of_symbol? (h : symbol? s = some (form, n)) :
    ∃ entry ∈ Kind.symbols, form = .symbol entry.2 ∧ s.take n = entry.1.toList := by
  obtain ⟨entry, hmem, hentry⟩ := List.exists_of_findSome?_eq_some h
  obtain ⟨m, hm, heq⟩ := Option.map_eq_some_iff.1 hentry
  obtain ⟨hfront, rfl⟩ := spelled?_eq_some_iff.1 hm
  cases heq
  exact ⟨entry, hmem, rfl, (List.prefix_iff_eq_take.1 hfront).symm⟩

lemma not_prefix_of_symbol?_eq_none (h : symbol? s = none) :
    ∀ entry ∈ Kind.symbols, ¬ entry.1.toList <+: s := by
  intro entry hmem hfront
  have hnone := List.findSome?_eq_none_iff.1 h entry hmem
  rw [spelled?_eq_some_iff.2 ⟨hfront, rfl⟩] at hnone
  cases hnone

lemma symbol?_eq_none (h : ∀ entry ∈ Kind.symbols, ¬ entry.1.toList <+: s) : symbol? s = none := by
  refine List.findSome?_eq_none_iff.2 fun entry hmem => Option.map_eq_none_iff.2 ?_
  rcases hspelled : spelled? entry.1.toList s with _ | n
  · rfl
  · exact absurd (spelled?_eq_some_iff.1 hspelled).1 (h entry hmem)

/-- Texts that begin with the same symbols are read alike. -/
lemma symbol?_congr {t : List Char}
    (h : ∀ entry ∈ Kind.symbols, entry.1.toList <+: s ↔ entry.1.toList <+: t) :
    symbol? s = symbol? t := by
  rw [symbol?, symbol?]
  generalize Kind.symbols = entries at h ⊢
  induction entries with
  | nil => rfl
  | cons entry entries ih =>
    have hspelled : spelled? entry.1.toList s = spelled? entry.1.toList t := by
      refine Option.ext fun n => ?_
      rw [spelled?_eq_some_iff, spelled?_eq_some_iff, h entry List.mem_cons_self]
    rw [List.findSome?_cons, List.findSome?_cons, hspelled,
      ih fun other hmem => h other (List.mem_cons_of_mem _ hmem)]

/-! ## The order of the rules -/

/-- The rules are tried one after the other, and the symbols after all other rules. -/
lemma first?_eq (s : List Char) :
    first? s =
      (((word? s).map (Form.word, ·)).or <| ((number? s).map (Form.number, ·)).or <|
        ((blank? s).map (Form.gap, ·)).or <| ((closedQuote? s).map (Form.quoted, ·)).or <|
        ((openQuote? s).map (Form.malformed, ·)).or <| ((lineComment? s).map (Form.gap, ·)).or <|
        ((blockComment? s).map (Form.gap, ·)).or <| ((openComment? s).map (Form.malformed, ·)).or <|
        symbol? s) := by
  have hcons : ∀ (rule : LexRule) rules, (rule :: rules).findSome? (·.attempt? s) =
      ((rule.reach s).map (rule.form, ·)).or (rules.findSome? (·.attempt? s)) := by
    intro rule rules
    rw [List.findSome?_cons, attempt?]
    cases rule.reach s <;> rfl
  rw [first?, all, List.findSome?_append, List.findSome?_map]
  simp only [hcons, List.findSome?_nil, Option.or_none, Option.or_assoc]
  rfl

lemma word?_eq_none_iff : word? (c :: s) = none ↔ isWordStart c = false := by
  rw [word?]
  split <;> simp_all

lemma number?_eq_none_iff : number? (c :: s) = none ↔ c.isDigit = false := by
  rcases hc : c.isDigit with _ | _ <;> simp [number?, run, hc]

lemma blank?_eq_none_iff : blank? (c :: s) = none ↔ Text.isBlank c = false := by
  rcases hc : Text.isBlank c with _ | _ <;> simp [blank?, run, hc]

lemma openQuote?_eq_none_iff : openQuote? (c :: s) = none ↔ c ≠ '"' := by
  unfold openQuote?
  split <;> simp_all

lemma lineComment?_eq_none (h : ¬ ['/', '/'] <+: s) : lineComment? s = none := by
  unfold lineComment?
  split
  · next cs => exact absurd ⟨cs, rfl⟩ h
  · rfl

lemma blockComment?_eq_none (h : ¬ ['/', '*'] <+: s) : blockComment? s = none := by
  unfold blockComment?
  split
  · next cs => exact absurd ⟨cs, rfl⟩ h
  · rfl

lemma openComment?_eq_none (h : ¬ ['/', '*'] <+: s) : openComment? s = none := by
  unfold openComment?
  split
  · next cs => exact absurd ⟨cs, rfl⟩ h
  · rfl

/-! ## The first character -/

lemma isWordChar_of_isWordStart (h : isWordStart c = true) : isWordChar c = true := by
  simp only [isWordStart, isWordChar, Char.isAlphanum, Bool.or_eq_true] at h ⊢
  exact h.imp_left Or.inl

lemma toNat_of_isAlpha (h : c.isAlpha = true) : 0x41 ≤ c.toNat ∧ c.toNat ≤ 0x7A := by
  have hcases : (decide ('A'.val ≤ c.val ∧ c.val ≤ 'Z'.val) ||
      (decide ('a'.val ≤ c.val) && decide (c.val ≤ 'z'.val))) = true := h
  simp only [Bool.or_eq_true, Bool.and_eq_true, decide_eq_true_eq, UInt32.le_iff_toNat_le] at hcases
  rcases hcases with ⟨hlow, hhigh⟩ | ⟨hlow, hhigh⟩
  · exact ⟨hlow, Nat.le_trans hhigh (by decide)⟩
  · exact ⟨Nat.le_trans (by decide) hlow, hhigh⟩

lemma toNat_of_isWordChar (h : isWordChar c = true) : 0x30 ≤ c.toNat ∧ c.toNat ≤ 0x7A := by
  simp only [isWordChar, Char.isAlphanum, Bool.or_eq_true, beq_iff_eq] at h
  rcases h with (halpha | hdigit) | rfl
  · obtain ⟨hlow, hhigh⟩ := toNat_of_isAlpha halpha
    exact ⟨Nat.le_trans (by decide) hlow, hhigh⟩
  · obtain ⟨hlow, hhigh⟩ := Char.isDigit_iff_toNat.1 hdigit
    exact ⟨hlow, Nat.le_trans hhigh (by decide)⟩
  · decide

lemma toNat_of_isBlank (h : Text.isBlank c = true) : c.toNat ≤ 0x20 ∨ 0x85 ≤ c.toNat := by
  obtain ⟨range, hmem, hlow, hhigh⟩ := Text.Ranges.covers_iff.1 h
  have hranges : ∀ range ∈ Text.blankRanges, range.2 ≤ 0x20 ∨ 0x85 ≤ range.1 := by decide
  exact (hranges range hmem).imp (Nat.le_trans hhigh) fun h => Nat.le_trans h hlow

lemma isWordChar_of_isBlank (h : Text.isBlank c = true) : isWordChar c = false := by
  by_contra hword
  have hrange := toNat_of_isWordChar (by simpa using hword)
  have hblank := toNat_of_isBlank h
  omega

lemma isWordStart_of_isWordChar (h : isWordChar c = false) : isWordStart c = false := by
  by_contra hstart
  rw [isWordChar_of_isWordStart (by simpa using hstart)] at h
  cases h

lemma isDigit_of_isWordChar (h : isWordChar c = false) : c.isDigit = false := by
  by_contra hdigit
  simp [isWordChar, Char.isAlphanum, hdigit] at h

lemma isWordStart_of_isDigit (h : c.isDigit = true) : isWordStart c = false := by
  have hhigh : c.toNat ≤ 0x39 := (Char.isDigit_iff_toNat.1 h).2
  by_contra hstart
  simp only [isWordStart, Bool.not_eq_false, Bool.or_eq_true, beq_iff_eq] at hstart
  rcases hstart with halpha | rfl
  · have hlow := (toNat_of_isAlpha halpha).1
    omega
  · exact absurd hhigh (by decide)

/-! ## The rule that applies -/

lemma first?_of_word (h : word? s = some n) : first? s = some (.word, n) := by
  rw [first?_eq, h]
  rfl

lemma first?_of_number (hc : c.isDigit = true) (h : number? (c :: s) = some n) :
    first? (c :: s) = some (.number, n) := by
  rw [first?_eq, word?_eq_none_iff.2 (isWordStart_of_isDigit hc), h]
  rfl

lemma number?_of_first? (h : first? s = some (.number, n)) : number? s = some n := by
  rw [first?_eq] at h
  simp only [Option.or_eq_some_iff, Option.map_eq_some_iff, Prod.mk.injEq, reduceCtorEq, false_and,
    and_false, exists_false, false_or] at h
  rcases h with ⟨-, ⟨m, h, -, rfl⟩ | ⟨-, -, -, -, -, -, -, h⟩⟩
  · exact h
  · obtain ⟨_, -, hform, -⟩ := exists_of_symbol? h
    cases hform

lemma first?_of_blank (hc : Text.isBlank c = true) (h : blank? (c :: s) = some n) :
    first? (c :: s) = some (.gap, n) := by
  have hword := isWordChar_of_isBlank hc
  rw [first?_eq, word?_eq_none_iff.2 (isWordStart_of_isWordChar hword),
    number?_eq_none_iff.2 (isDigit_of_isWordChar hword), h]
  rfl

lemma first?_of_quote (h : closedQuote? ('"' :: s) = some n) :
    first? ('"' :: s) = some (.quoted, n) := by
  rw [first?_eq, word?_eq_none_iff.2 rfl, number?_eq_none_iff.2 rfl, blank?_eq_none_iff.2 rfl, h]
  rfl

lemma first?_of_openQuote (hclosed : closedQuote? ('"' :: s) = none)
    (h : openQuote? ('"' :: s) = some n) : first? ('"' :: s) = some (.malformed, n) := by
  rw [first?_eq, word?_eq_none_iff.2 rfl, number?_eq_none_iff.2 rfl, blank?_eq_none_iff.2 rfl,
    hclosed, h]
  rfl

/-- A text that begins neither a word nor a number nor a blank run nor a string literal begins a comment or
a symbol. -/
lemma first?_of_other (hword : isWordStart c = false) (hdigit : c.isDigit = false)
    (hblank : Text.isBlank c = false) (hquote : c ≠ '"') :
    first? (c :: s) =
      (((lineComment? (c :: s)).map (Form.gap, ·)).or <|
        ((blockComment? (c :: s)).map (Form.gap, ·)).or <|
        ((openComment? (c :: s)).map (Form.malformed, ·)).or <| symbol? (c :: s)) := by
  have hclosed : closedQuote? (c :: s) = none := by
    unfold closedQuote?
    split
    · next heq => exact absurd (List.cons.inj heq).1 hquote
    · rfl
  rw [first?_eq, word?_eq_none_iff.2 hword, number?_eq_none_iff.2 hdigit,
    blank?_eq_none_iff.2 hblank, hclosed, openQuote?_eq_none_iff.2 hquote]
  rfl

lemma first?_of_lineComment (h : lineComment? ('/' :: s) = some n) :
    first? ('/' :: s) = some (.gap, n) := by
  rw [first?_of_other rfl rfl rfl (by decide), h]
  rfl

lemma first?_of_blockComment (h : blockComment? ('/' :: '*' :: s) = some n) :
    first? ('/' :: '*' :: s) = some (.gap, n) := by
  have hline : lineComment? ('/' :: '*' :: s) = none := lineComment?_eq_none (by simp)
  rw [first?_of_other rfl rfl rfl (by decide), hline, h]
  rfl

/-- A symbol begins none of what comes before comments and symbols. -/
lemma exists_cons_of_symbol {entry : String × Kind} (h : entry ∈ Kind.symbols) :
    ∃ c cs, entry.1.toList = c :: cs ∧ isWordStart c = false ∧ c.isDigit = false ∧
      Text.isBlank c = false ∧ c ≠ '"' := by
  have hheads : ∀ entry ∈ Kind.symbols, entry.1.toList.head?.any fun c =>
      !isWordStart c && !c.isDigit && !Text.isBlank c && c != '"' := by decide
  obtain ⟨c, hhead, hc⟩ := Option.any_eq_true _ _ |>.1 (hheads entry h)
  obtain ⟨cs, hcs⟩ := List.head?_eq_some_iff.1 hhead
  simp only [Bool.and_eq_true, Bool.not_eq_true', bne_iff_ne] at hc
  obtain ⟨⟨⟨hword, hdigit⟩, hblank⟩, hquote⟩ := hc
  exact ⟨c, cs, hcs, hword, hdigit, hblank, hquote⟩

end LexRule

/-! ## The next fragment -/

section NextFragment

open LexRule

lemma nextFragment_of_ne_number (h : first? s = some (form, n)) (hform : form ≠ .number) :
    nextFragment s = (form, n) := by
  unfold nextFragment
  split
  · next m hfirst =>
    rw [hfirst] at h
    cases h
    exact absurd rfl hform
  · next piece _ hfirst => exact Option.some.inj (hfirst.symm.trans h)
  · next hnone =>
    rw [hnone] at h
    cases h

lemma nextFragment_of_none (h : first? s = none) : nextFragment s = (.malformed, 1) := by
  rw [nextFragment, h]

/-- The word characters that follow a number directly spoil it. -/
lemma nextFragment_of_number (h : first? s = some (.number, n)) :
    nextFragment s =
      if run isWordChar (s.drop n) = 0 then (.number, n)
      else (.malformed, n + run isWordChar (s.drop n)) := by
  rw [nextFragment, h]
  dsimp only
  split
  · next hrun => rw [if_pos hrun]
  · next hrun => exact (if_neg hrun).symm

end NextFragment

end LangCheck
