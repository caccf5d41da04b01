import LangCheck.Proofs.Text.Escapes
import LangCheck.Proofs.Token.Rules

/-!
# The pieces of a text

The fragments of a text are of two kinds: gaps, and lexemes of tokens.  `Reads` tells which texts are gaps
and which are lexemes of which tokens.  The main result (`reads_of_mem_fragments`) says that each fragment
of a text is read so.
-/

namespace LangCheck

open Lexeme LexRule

/-- A fragment that the grammar rejects: a number that is spoiled by what follows it, a string literal or a
block comment that is not closed, or a character with which nothing else begins. -/
inductive IsMalformed : List Char → Prop
  | spoiled {s t : List Char} (hs : IsNumber s) (hne : t ≠ []) (ht : ∀ c ∈ t, isWordChar c) :
    IsMalformed (s ++ t)
  | openQuote {s : List Char} (h : IsOpenQuote s) : IsMalformed s
  | openComment {s : List Char} (h : ¬ closing <:+: s) : IsMalformed ('/' :: '*' :: s)
  | stray {c : Char} (hword : isWordStart c = false) (hdigit : c.isDigit = false)
    (hblank : Text.isBlank c = false) (hquote : c ≠ '"')
    (hsymbol : ∀ entry ∈ Kind.symbols, entry.1.toList ≠ [c]) : IsMalformed [c]

/-- What a piece of a text is: a gap, or the lexeme of a token of some kind and text.  The text of a token
is its lexeme, or what stands between the quotes denotes if it is a string literal. -/
inductive Reads : List Char → Option (Kind × String) → Prop
  | blank {s : List Char} (h : IsBlankRun s) : Reads s none
  | lineComment {s : List Char} (h : IsLineComment s) : Reads s none
  | blockComment {s : List Char} (h : IsBlockComment s) : Reads s none
  | word {s : List Char} (h : IsWord s) :
    Reads s (some (Kind.ofWord (String.ofList s), String.ofList s))
  | number {s : List Char} (h : IsNumber s) : Reads s (some (.number, String.ofList s))
  | quoted {s t : List Char} (hs : IsInner s) (ht : Text.Denotes s t) :
    Reads ('"' :: (s ++ ['"'])) (some (.text, String.ofList t))
  | symbol {entry : String × Kind} (h : entry ∈ Kind.symbols) :
    Reads entry.1.toList (some (entry.2, entry.1))
  | malformed {s : List Char} (h : IsMalformed s) : Reads s (some (.malformed, String.ofList s))

/-! ## The fragments of a text -/

variable {s : List Char} {c : Char} {form : Form} {n : ℕ} {f : Fragment}

/-- What the first rule that applies cuts off. -/
lemma reads_of_first? (h : first? s = some (form, n)) :
    Reads (s.take n) (Fragment.token? ⟨form, s.take n⟩) := by
  rw [first?_eq] at h
  simp only [Option.or_eq_some_iff, Option.map_eq_some_iff, Option.map_eq_none_iff] at h
  rcases h with ⟨m, h, heq⟩ | ⟨-, ⟨m, h, heq⟩ | ⟨-, ⟨m, h, heq⟩ | ⟨-, ⟨m, h, heq⟩ | ⟨-, ⟨m, h, heq⟩ |
    ⟨-, ⟨m, h, heq⟩ | ⟨-, ⟨m, h, heq⟩ | ⟨hclosed, ⟨m, h, heq⟩ | ⟨-, h⟩⟩⟩⟩⟩⟩⟩⟩
  · cases heq
    exact .word (isWord_of_word? h)
  · cases heq
    exact .number (isNumber_of_number? h)
  · cases heq
    exact .blank (isBlankRun_of_blank? h)
  · cases heq
    obtain ⟨inner, hinner, hs⟩ := isQuoted_of_closedQuote? h
    have hbetween : (s.take n).tail.dropLast = inner := by
      rw [hinner, List.tail_cons, List.dropLast_concat]
    rw [Fragment.token?, hbetween, hinner]
    exact .quoted hs (Text.denotes_unescape inner)
  · cases heq
    exact .malformed (.openQuote (isOpenQuote_of_openQuote? h))
  · cases heq
    exact .lineComment (isLineComment_of_lineComment? h)
  · cases heq
    exact .blockComment (isBlockComment_of_blockComment? h)
  · cases heq
    unfold openComment? at h
    split at h
    · next cs =>
      cases h
      -- a comment that is closed would have been cut off as a gap
      have hspec := commentEnd?_spec cs
      rw [Option.map_eq_none_iff.1 hclosed] at hspec
      rw [List.take_of_length_le (Nat.le_refl (cs.length + 2))]
      exact .malformed (.openComment hspec)
    · cases h
  · obtain ⟨entry, hmem, rfl, htake⟩ := exists_of_symbol? h
    rw [htake, Fragment.token?, String.ofList_toList]
    exact .symbol hmem

lemma isMalformed_of_first?_eq_none (h : first? (c :: s) = none) : IsMalformed [c] := by
  rw [first?_eq] at h
  simp only [Option.or_eq_none_iff, Option.map_eq_none_iff] at h
  obtain ⟨hword, hnumber, hblank, -, hquote, -, -, -, hsymbol⟩ := h
  refine .stray (word?_eq_none_iff.1 hword) (number?_eq_none_iff.1 hnumber)
    (blank?_eq_none_iff.1 hblank) (openQuote?_eq_none_iff.1 hquote) fun entry hmem heq => ?_
  refine not_prefix_of_symbol?_eq_none hsymbol entry hmem ?_
  rw [heq]
  exact ⟨s, rfl⟩

/-- What is cut off the front of a text is a gap or the lexeme of a token. -/
theorem nextFragment_reads (hs : s ≠ []) : Reads (s.take (nextFragment s).2)
    (Fragment.token? ⟨(nextFragment s).1, s.take (nextFragment s).2⟩) := by
  rcases hfirst : first? s with _ | ⟨form, n⟩
  · obtain ⟨c, s, rfl⟩ := List.exists_cons_of_ne_nil hs
    rw [nextFragment_of_none hfirst]
    exact .malformed (isMalformed_of_first?_eq_none hfirst)
  · have hreads := reads_of_first? hfirst
    by_cases hform : form = .number
    · subst hform
      rw [nextFragment_of_number hfirst]
      split
      · exact hreads
      · next hrun =>
        have hnumber := isNumber_of_number? (number?_of_first? hfirst)
        rw [List.take_add]
        exact .malformed (.spoiled hnumber (take_run_ne_nil hrun) (forall_mem_take_run _))
    · rw [nextFragment_of_ne_number hfirst hform]
      exact hreads

/-- Each fragment of a text is a gap or the lexeme of the token that it is. -/
theorem reads_of_mem_fragments (hf : f ∈ fragments s) : Reads f.text f.token? := by
  fun_induction fragments s with
  | case1 => cases hf
  | case2 s hs piece ih =>
    rcases List.mem_cons.1 hf with rfl | hf
    · exact nextFragment_reads hs
    · exact ih hf

/-- The fragments behind some others are those of the text that these leave. -/
lemma fragments_flatMap_of_append {past later : List Fragment} (h : fragments s = past ++ later) :
    fragments (later.flatMap (·.text)) = later := by
  induction past generalizing s with
  | nil => rw [← show fragments s = later from h, flatMap_text_fragments]
  | cons f past ih =>
    rw [fragments] at h
    split at h
    · cases h
    · exact ih (List.cons.inj h).2

/-! ## What all pieces have in common -/

lemma ofWord_eq_or_mem (word : String) :
    Kind.ofWord word = .name ∨ (word, Kind.ofWord word) ∈ Kind.reservedWords := by
  rw [Kind.ofWord]
  rcases hlookup : Kind.reservedWords.lookup word with _ | kind
  · exact Or.inl rfl
  · obtain ⟨l, r, hl, -⟩ := List.lookup_eq_some_iff.1 hlookup
    exact Or.inr (by simp [hl])

lemma IsMalformed.ne_nil (h : IsMalformed s) : s ≠ [] := by
  cases h with
  | spoiled _ hne _ => exact List.append_ne_nil_of_right_ne_nil _ hne
  | openQuote h =>
    obtain ⟨inner, rfl, -⟩ := h
    exact List.cons_ne_nil _ _
  | openComment _ => exact List.cons_ne_nil _ _
  | stray _ _ _ _ _ => exact List.cons_ne_nil _ _

lemma Reads.ne_nil {token? : Option (Kind × String)} (h : Reads s token?) : s ≠ [] := by
  cases h with
  | blank h => exact h.1
  | lineComment h =>
    obtain ⟨body, rfl, -⟩ := h
    exact List.cons_ne_nil _ _
  | blockComment h =>
    obtain ⟨body, rfl, -⟩ := h
    exact List.cons_ne_nil _ _
  | word h =>
    obtain ⟨c, cs, rfl, -⟩ := h
    exact List.cons_ne_nil _ _
  | number h =>
    obtain ⟨whole, fraction, exponent, rfl, ⟨hne, -⟩, -⟩ := h
    simp [hne]
  | quoted _ _ => exact List.cons_ne_nil _ _
  | symbol h =>
    obtain ⟨c, cs, hcs, -⟩ := exists_cons_of_symbol h
    exact List.ne_nil_of_mem (hcs ▸ List.mem_cons_self)
  | malformed h => exact h.ne_nil

/-- No lexeme stands for the end of the input. -/
lemma Reads.kind_ne {kind : Kind} {text : String} (h : Reads s (some (kind, text))) :
    kind ≠ .endOfInput := by
  have hwords : ∀ entry ∈ Kind.reservedWords, entry.2 ≠ .endOfInput := by decide
  have hsymbols : ∀ entry ∈ Kind.symbols, entry.2 ≠ .endOfInput := by decide
  cases h with
  | word _ =>
    rcases ofWord_eq_or_mem (String.ofList s) with hname | hmem
    · simp [hname]
    · exact hwords _ hmem
  | symbol h => exact hsymbols _ h
  | _ => decide

/-- The text of a number begins with a digit. -/
lemma Reads.exists_digit {kind : Kind} {text : String} (h : Reads s (some (kind, text)))
    (hkind : kind = .number) : ∃ c cs, text.toList = c :: cs ∧ c.isDigit := by
  have hwords : ∀ entry ∈ Kind.reservedWords, entry.2 ≠ .number := by decide
  have hsymbols : ∀ entry ∈ Kind.symbols, entry.2 ≠ .number := by decide
  cases h with
  | word _ =>
    rcases ofWord_eq_or_mem (String.ofList s) with hname | hmem
    · rw [hname] at hkind
      cases hkind
    · exact absurd hkind (hwords _ hmem)
  | number h =>
    obtain ⟨whole, fraction, exponent, rfl, ⟨hne, hdigits⟩, -⟩ := h
    obtain ⟨c, cs, rfl⟩ := List.exists_cons_of_ne_nil hne
    exact ⟨c, cs ++ fraction ++ exponent, String.toList_ofList, hdigits c List.mem_cons_self⟩
  | symbol h => exact absurd hkind (hsymbols _ h)
  | _ => cases hkind

end LangCheck
