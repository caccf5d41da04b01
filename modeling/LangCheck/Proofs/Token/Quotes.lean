import LangCheck.Proofs.Token.Written
import Mathlib.Algebra.Ring.Parity

/-!
# Quotes, closed and not closed

A character is escaped if an odd number of backslashes stands directly in front of it.  What can stand
between the quotes of a string literal is told by that (`Lexeme.isInner_iff`).  A quote that no other quote
closes on its line makes one malformed token with all that follows it there, unless the last character of
the line is a backslash that would escape one more character: then this backslash is a malformed token of
its own (`tokenize_openQuote`).
-/

namespace LangCheck

namespace Lexeme

variable {s t rest : List Char} {c : Char}

/-! ## Escaped characters -/

/-- The number of backslashes at the end of a text. -/
def backslashes (s : List Char) : ℕ := run (· == '\\') s.reverse

/-- The character that follows a text is escaped. -/
def EscapesNext (s : List Char) : Prop := Odd (backslashes s)

instance (s : List Char) : Decidable (EscapesNext s) := inferInstanceAs (Decidable (Odd _))

/-- All quotes in a text are escaped. -/
def QuotesEscaped (s : List Char) : Prop := ∀ front, front ++ ['"'] <+: s → EscapesNext front

instance (s : List Char) : Decidable (QuotesEscaped s) :=
  decidable_of_iff (∀ front ∈ s.inits, front ++ ['"'] <+: s → EscapesNext front) <| by
    refine ⟨fun h front hfront => ?_, fun h front _ => h front⟩
    exact h front ((List.mem_inits _ _).2 ((List.prefix_append _ _).trans hfront)) hfront

lemma backslashes_append (s t : List Char) : backslashes (s ++ t) =
    if backslashes t = t.length then t.length + backslashes s else backslashes t := by
  rw [backslashes, backslashes, backslashes, run, run, run, List.reverse_append, List.takeWhile_append,
    List.length_reverse]
  split
  · rw [List.length_append, List.length_reverse]
  · rfl

/-- What stands in front of a text that escapes nothing does not count behind it. -/
lemma escapesNext_append (hs : ¬ EscapesNext s) : EscapesNext (s ++ t) ↔ EscapesNext t := by
  rw [EscapesNext, Nat.not_odd_iff_even] at hs
  rw [EscapesNext, EscapesNext, backslashes_append]
  split
  · next hall => rw [hall, Nat.odd_add, iff_true_right hs]
  · rfl

lemma escapesNext_concat : EscapesNext (s ++ ['\\']) ↔ ¬ EscapesNext s := by
  have hsingle : backslashes ['\\'] = ['\\'].length := rfl
  rw [EscapesNext, EscapesNext, backslashes_append, if_pos hsingle, List.length_singleton, Nat.odd_add,
    Nat.not_odd_iff_even, iff_true_left odd_one]

lemma not_escapesNext_nil : ¬ EscapesNext [] := by decide

lemma not_escapesNext_singleton (hc : c ≠ '\\') : ¬ EscapesNext [c] := by
  have hzero : backslashes [c] = 0 := by simp [backslashes, run, hc]
  rw [EscapesNext, hzero]
  decide

/-- A backslash escapes the character behind it and nothing else. -/
lemma not_escapesNext_pair (c : Char) : ¬ EscapesNext ['\\', c] := by
  by_cases hc : c = '\\'
  · subst hc
    decide
  · have hzero : backslashes ['\\', c] = 0 := by simp [backslashes, run, hc]
    rw [EscapesNext, hzero]
    decide

lemma QuotesEscaped.of_append (h : QuotesEscaped (s ++ t)) (hs : ¬ EscapesNext s) :
    QuotesEscaped t := by
  intro front hfront
  rw [← escapesNext_append hs]
  refine h (s ++ front) ?_
  rw [List.append_assoc]
  exact (List.prefix_append_right_inj s).2 hfront

lemma QuotesEscaped.append (hs : QuotesEscaped s) (hnext : ¬ EscapesNext s) (ht : QuotesEscaped t) :
    QuotesEscaped (s ++ t) := by
  intro front hfront
  rcases List.prefix_or_prefix_of_prefix hfront (List.prefix_append s t) with hin | hout
  · exact hs front hin
  rcases List.prefix_concat_iff.1 hout with rfl | ⟨front', rfl⟩
  · exact hs front (List.prefix_refl _)
  · rw [escapesNext_append hnext]
    rw [List.append_assoc] at hfront
    exact ht front' ((List.prefix_append_right_inj s).1 hfront)

lemma quotesEscaped_singleton (hc : c ≠ '"') : QuotesEscaped [c] := by
  rintro front ⟨u, hu⟩
  rcases front with _ | ⟨d, front⟩
  · exact absurd (List.cons.inj hu).1.symm hc
  · simp at hu

lemma quotesEscaped_pair (c : Char) : QuotesEscaped ['\\', c] := by
  rintro front ⟨u, hu⟩
  rcases front with _ | ⟨d, _ | ⟨e, front⟩⟩
  · simp at hu
  · obtain rfl : d = '\\' := (List.cons.inj hu).1
    decide
  · simp at hu

/-! ## Between quotes -/

lemma IsInner.properties (h : IsInner s) : '\n' ∉ s ∧ QuotesEscaped s ∧ ¬ EscapesNext s := by
  induction h with
  | nil =>
    refine ⟨List.not_mem_nil, fun front hfront => ?_, not_escapesNext_nil⟩
    simp at hfront
  | @plain c s hc _ ih =>
    obtain ⟨hline, hquotes, hnext⟩ := ih
    simp only [not_or] at hc
    obtain ⟨hquote, hslash, hnewline⟩ := hc
    have hsingle := not_escapesNext_singleton hslash
    refine ⟨by simp [hline, Ne.symm hnewline], ?_, ?_⟩
    · exact (quotesEscaped_singleton hquote).append hsingle hquotes
    · rwa [← List.singleton_append, escapesNext_append hsingle]
  | @pair c s hc _ ih =>
    obtain ⟨hline, hquotes, hnext⟩ := ih
    have hpair := not_escapesNext_pair c
    refine ⟨by simp [hline, Ne.symm hc], (quotesEscaped_pair c).append hpair hquotes, ?_⟩
    rwa [show '\\' :: c :: s = ['\\', c] ++ s from rfl, escapesNext_append hpair]

/-- A part of a line in which all quotes are escaped can stand between quotes, perhaps without its last
character, which is a backslash then. -/
lemma isInner_or_of_quotesEscaped (hline : '\n' ∉ s) (hquotes : QuotesEscaped s) :
    IsInner s ∨ ∃ body, s = body ++ ['\\'] ∧ IsInner body := by
  fun_induction quotedRun s with
  | case1 => simp at hline
  | case2 c s hc ih =>
    simp only [List.mem_cons, not_or] at hline
    have hrest := ih hline.2.2 (hquotes.of_append (s := ['\\', c]) (not_escapesNext_pair c))
    refine hrest.imp (.pair hc) ?_
    rintro ⟨body, rfl, hbody⟩
    exact ⟨_, rfl, .pair hc hbody⟩
  | case3 c s hnot hc =>
    rcases hc with rfl | rfl | rfl
    · exact absurd (hquotes [] ⟨s, rfl⟩) not_escapesNext_nil
    · -- a backslash that is not followed by another character
      rcases s with _ | ⟨d, s⟩
      · exact Or.inr ⟨[], rfl, .nil⟩
      · exact absurd rfl (hnot d s rfl)
    · simp at hline
  | case4 c s _ hc ih =>
    simp only [List.mem_cons, not_or] at hline
    have hslash : c ≠ '\\' := fun heq => hc (Or.inr (Or.inl heq))
    have hrest := ih hline.2 (hquotes.of_append (s := [c]) (not_escapesNext_singleton hslash))
    refine hrest.imp (.plain hc) ?_
    rintro ⟨body, rfl, hbody⟩
    exact ⟨_, rfl, .plain hc hbody⟩
  | case5 => exact Or.inl .nil

/-- What can stand between the quotes of a string literal: a part of a line in which all quotes are escaped
and which does not escape the quote behind it. -/
theorem isInner_iff : IsInner s ↔ '\n' ∉ s ∧ QuotesEscaped s ∧ ¬ EscapesNext s := by
  refine ⟨IsInner.properties, ?_⟩
  rintro ⟨hline, hquotes, hnext⟩
  rcases isInner_or_of_quotesEscaped hline hquotes with h | ⟨body, rfl, hbody⟩
  · exact h
  · exact absurd (escapesNext_concat.2 hbody.properties.2.2) hnext

/-- A line in which all quotes are escaped, and which would escape one more character, ends with a
backslash, and what stands in front of that can stand between quotes. -/
lemma exists_isInner_concat (hline : '\n' ∉ s) (hquotes : QuotesEscaped s) (hnext : EscapesNext s) :
    ∃ body, s = body ++ ['\\'] ∧ IsInner body := by
  rcases isInner_or_of_quotesEscaped hline hquotes with h | h
  · exact absurd hnext h.properties.2.2
  · exact h

end Lexeme

open Lexeme LexRule

variable {s rest : List Char}

/-! ## Quotes that are not closed -/

/-- What stands behind a quote is cut off with it up to where nothing can stand between quotes any more. -/
lemma nextFragment_of_openQuote (hs : IsInner s) (hrest : quotedRun rest = 0)
    (hquote : rest.head? ≠ some '"') :
    nextFragment ('"' :: s ++ rest) = (.malformed, ('"' :: s).length) := by
  have hrun : quotedRun (s ++ rest) = s.length := quotedRun_append hs hrest
  have hclosed : closedQuote? ('"' :: (s ++ rest)) = none := by
    rw [closedQuote?, hrun, List.getElem?_append_right (Nat.le_refl _), Nat.sub_self,
      ← List.head?_eq_getElem?, if_neg hquote]
  have hopen : openQuote? ('"' :: (s ++ rest)) = some (s.length + 1) := by rw [openQuote?, hrun]
  exact nextFragment_of_ne_number (first?_of_openQuote hclosed hopen) (by decide)

/-- Nothing begins with a backslash. -/
lemma nextFragment_backslash (rest : List Char) :
    nextFragment ('\\' :: rest) = (.malformed, 1) := by
  have hsymbol : symbol? ('\\' :: rest) = none := by
    refine symbol?_eq_none fun entry hentry hfront => ?_
    have hheads : ∀ entry ∈ Kind.symbols, entry.1.toList.head? ≠ some '\\' := by decide
    obtain ⟨c, cs, hcs, -⟩ := exists_cons_of_symbol hentry
    rw [hcs] at hfront
    refine hheads entry hentry ?_
    rw [hcs, (List.cons_prefix_cons.1 hfront).1, List.head?_cons]
  refine nextFragment_of_none ?_
  rw [first?_of_other (by decide) (by decide) (by decide) (by decide),
    lineComment?_eq_none (by simp), blockComment?_eq_none (by simp), openComment?_eq_none (by simp),
    hsymbol]
  rfl

/-- Behind a line nothing can stand between quotes. -/
lemma quotedRun_of_lineEnd (h : Stops (· != '\n') rest) :
    quotedRun rest = 0 ∧ quotedRun ('\\' :: rest) = 0 ∧ rest.head? ≠ some '"' := by
  rcases rest with _ | ⟨c, rest⟩
  · exact ⟨rfl, rfl, by simp⟩
  · obtain rfl : c = '\n' := by simpa using stops_cons.1 h
    exact ⟨rfl, rfl, by simp⟩

lemma count_newline_quote (n : ℕ) (h : '\n' ∉ s) : n + ('"' :: s).count '\n' = n := by
  rw [List.count_eq_zero.2 (by simpa using h), Nat.add_zero]

/-- The malformed token of some characters, on the line behind some newlines. -/
def malformedToken (file : String) (n : ℕ) (s : List Char) : Token :=
  ⟨.malformed, String.ofList s, .onLine (lineBehind n) file⟩

/-- A malformed fragment gives a token with its text. -/
lemma tokensBehind_malformed (file : String) (n : ℕ)
    (h : nextFragment (s ++ rest) = (.malformed, s.length)) :
    tokensBehind file n (s ++ rest) =
      malformedToken file n s :: tokensBehind file (n + s.count '\n') rest :=
  tokensBehind_fragment file n (f := ⟨.malformed, s⟩) h

/-- The tokens of a text are those of its first fragments and those of what these leave. -/
lemma tokenize_of_fragments {source : String} (file : String) {past later : List Fragment}
    (h : fragments source.toList = past ++ later) :
    tokenize source file = (tokensOf file 1 past).dropLast ++
      tokensBehind file ((past.flatMap (·.text)).count '\n') (later.flatMap (·.text)) := by
  have hline : 1 + newlines (past.flatMap (·.text)) =
      lineBehind ((past.flatMap (·.text)).count '\n') := by
    rw [show (1 : UInt32) = lineBehind 0 from rfl, lineBehind_add_newlines, Nat.zero_add]
  rw [tokenize, h, tokensOf_append, hline, tokensBehind, fragments_flatMap_of_append h]

/-- Where a quote begins a token and no quote behind it on its line is free of a backslash that escapes it,
the quote and the rest of the line are one malformed token exactly if the line does not end within an
escape.  If it does, the backslash there is a malformed token of its own.  The tokens that follow are those
of the text from the end of the line on. -/
theorem tokenize_openQuote (source file : String) {past later : List Fragment}
    {line rest : List Char} (hplace : fragments source.toList = past ++ later)
    (htext : later.flatMap (·.text) = '"' :: (line ++ rest)) (hline : '\n' ∉ line)
    (hrest : Stops (· != '\n') rest) (hquotes : QuotesEscaped line) :
    let n := (past.flatMap (·.text)).count '\n'
    (tokenize source file = (tokensOf file 1 past).dropLast ++
        malformedToken file n ('"' :: line) :: tokensBehind file n rest ↔ ¬ EscapesNext line) ∧
    (EscapesNext line → tokenize source file = (tokensOf file 1 past).dropLast ++
      malformedToken file n ('"' :: line.dropLast) :: malformedToken file n ['\\'] ::
        tokensBehind file n rest) := by
  intro n
  obtain ⟨hrun, hrun', hhead⟩ := quotedRun_of_lineEnd hrest
  have htokens := tokenize_of_fragments file hplace
  rw [htext] at htokens
  by_cases hnext : EscapesNext line
  · obtain ⟨body, rfl, hbody⟩ := exists_isInner_concat hline hquotes hnext
    have hcount : n + ('"' :: body).count '\n' = n := count_newline_quote n hbody.properties.1
    have hcut : tokensBehind file n ('"' :: (body ++ ['\\'] ++ rest)) =
        malformedToken file n ('"' :: body) :: malformedToken file n ['\\'] ::
          tokensBehind file n rest := by
      have hnext' : nextFragment ('"' :: body ++ '\\' :: rest) = (.malformed, ('"' :: body).length) :=
        nextFragment_of_openQuote hbody hrun' (by simp)
      have hfirst := tokensBehind_malformed file n hnext'
      have hsecond := tokensBehind_malformed (s := ['\\']) file n (nextFragment_backslash rest)
      rw [hcount] at hfirst
      rw [List.append_assoc]
      exact hfirst.trans (congrArg _ hsecond)
    rw [hcut] at htokens
    rw [List.dropLast_concat]
    refine ⟨iff_of_false ?_ (not_not_intro hnext), fun _ => htokens⟩
    rw [htokens, List.append_cancel_left_eq]
    simp [malformedToken]
  · have hinner := isInner_iff.2 ⟨hline, hquotes, hnext⟩
    have hcount : n + ('"' :: line).count '\n' = n := count_newline_quote n hline
    have hfirst := tokensBehind_malformed file n (nextFragment_of_openQuote hinner hrun hhead)
    rw [hcount] at hfirst
    refine ⟨iff_of_true ?_ hnext, fun h => absurd h hnext⟩
    rw [htokens]
    exact congrArg _ hfirst

/-- A quote with a backslash in front does not close the literal, and all of it up to the newline is one token. -/
theorem tokenize_openQuote_escaped :
    fragments "s=\"a\\\"b;\nint y;".toList = [⟨.word, ['s']⟩, ⟨.symbol .assign, ['=']⟩] ++
      ⟨.malformed, "\"a\\\"b;".toList⟩ :: fragments "\nint y;".toList ∧
    Stops (· != '\n') "\nint y;".toList ∧ '\n' ∉ "a\\\"b;".toList ∧ QuotesEscaped "a\\\"b;".toList ∧
    tokenize "s=\"a\\\"b;\nint y;" interactiveFile =
      (tokensOf interactiveFile 1 [⟨.word, ['s']⟩, ⟨.symbol .assign, ['=']⟩]).dropLast ++
        malformedToken interactiveFile 0 "\"a\\\"b;".toList ::
          tokensBehind interactiveFile 0 "\nint y;".toList := by
  have hplace : fragments "s=\"a\\\"b;\nint y;".toList =
      [⟨.word, ['s']⟩, ⟨.symbol .assign, ['=']⟩] ++
        ⟨.malformed, "\"a\\\"b;".toList⟩ :: fragments "\nint y;".toList := by
    decide +kernel
  have hrest : Stops (· != '\n') "\nint y;".toList := stops_cons.2 rfl
  have hline : '\n' ∉ "a\\\"b;".toList := by decide
  have hquotes : QuotesEscaped "a\\\"b;".toList := by decide
  refine ⟨hplace, hrest, hline, hquotes, ?_⟩
  exact (tokenize_openQuote _ interactiveFile hplace
    (by rw [List.flatMap_cons, flatMap_text_fragments]; rfl) hline hrest hquotes).1.2 (by decide)

/-- A path that ends with a backslash, and no quote behind it. -/
def cutEscape : String := "string s = \"C:\\\nint y;"

/-- The backslash is a token of its own. -/
theorem tokenize_cutEscape :
    QuotesEscaped "C:\\".toList ∧ '\n' ∉ "C:\\".toList ∧
    fragments cutEscape.toList = fragments "string s = ".toList ++
      ⟨.malformed, "\"C:".toList⟩ :: ⟨.malformed, ['\\']⟩ :: fragments "\nint y;".toList ∧
    tokenize cutEscape interactiveFile =
      (tokensOf interactiveFile 1 (fragments "string s = ".toList)).dropLast ++
        malformedToken interactiveFile 0 "\"C:".toList :: malformedToken interactiveFile 0 ['\\'] ::
          tokensBehind interactiveFile 0 "\nint y;".toList ∧
    tokenize cutEscape interactiveFile ≠
      (tokensOf interactiveFile 1 (fragments "string s = ".toList)).dropLast ++
        malformedToken interactiveFile 0 "\"C:\\".toList ::
          tokensBehind interactiveFile 0 "\nint y;".toList := by
  refine ⟨by decide, by decide, ?_, ?_, ?_⟩ <;> decide +kernel

end LangCheck
