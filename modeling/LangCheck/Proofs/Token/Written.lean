import LangCheck.Proofs.Past
import LangCheck.Proofs.Token.Lines
import LangCheck.Proofs.Token.Pieces

/-!
# Tokens as they are written

Tokens can be written down one after the other, as long as something separates each from the next: a blank
character first, and then blank characters and comments (`IsSeparator`).  The main result
(`tokenize_written`) says that the lexer reads just the tokens that were written, whatever was chosen for
the separators and for the characters of string literals.
-/

namespace LangCheck

open Lexeme LexRule

/-! ## Writing tokens -/

/-- A lexeme that writes a token of some kind and text. -/
inductive Writes : List Char → Kind → String → Prop
  | reserved {entry : String × Kind} (h : entry ∈ Kind.reservedWords) :
    Writes entry.1.toList entry.2 entry.1
  | symbol {entry : String × Kind} (h : entry ∈ Kind.symbols) :
    Writes entry.1.toList entry.2 entry.1
  | name {s : List Char} (h : IsWord s) (hfree : ∀ entry ∈ Kind.reservedWords, entry.1.toList ≠ s) :
    Writes s .name (String.ofList s)
  | number {s : List Char} (h : IsNumber s) : Writes s .number (String.ofList s)
  | text {t s : List Char} (h : Text.Escapes t s) :
    Writes ('"' :: (s ++ ['"'])) .text (String.ofList t)

/-- Blank characters, comments to the end of a line with the newline there, and closed comments, in any
order. -/
inductive IsMix : List Char → Prop
  | nil : IsMix []
  | blank {c : Char} {s : List Char} (hc : Text.isBlank c) (hs : IsMix s) : IsMix (c :: s)
  | lineComment {t s : List Char} (ht : IsLineComment t) (hs : IsMix s) : IsMix (t ++ '\n' :: s)
  | blockComment {t s : List Char} (ht : IsBlockComment t) (hs : IsMix s) : IsMix (t ++ s)

/-- What separates a token from the next one: a blank character, and then such a mix. -/
def IsSeparator (s : List Char) : Prop := ∃ c t, s = c :: t ∧ Text.isBlank c ∧ IsMix t

/-- A token as it is written. -/
structure Inscription where
  /-- The kind of the token. -/
  kind : Kind
  /-- Its text. -/
  text : String
  /-- The lexeme that writes it. -/
  lexeme : List Char
  /-- The lexeme writes the token. -/
  writes : Writes lexeme kind text
  /-- What is written behind the lexeme. -/
  gap : List Char

namespace Inscription

/-- The text that some tokens make as they are written. -/
def join (ws : List Inscription) : List Char := ws.flatMap fun w => w.lexeme ++ w.gap

/-- Each token is separated from the next one.  The last one need not be separated from the end. -/
inductive Separated : List Inscription → Prop
  | nil : Separated []
  | last {w : Inscription} (hgap : w.gap = []) : Separated [w]
  | cons {w : Inscription} {ws : List Inscription} (hgap : IsSeparator w.gap) (hws : Separated ws) :
    Separated (w :: ws)

/-- The number of newlines in a text that goes on with some tokens. -/
def newlines (lead : List Char) (ws : List Inscription) : ℕ := (lead ++ join ws).count '\n'

/-- The token that is written, on the line behind the newlines in front of it. -/
def tokens (file : String) (lead : List Char) (past : List Inscription) (w : Inscription) :
    List Token :=
  [⟨w.kind, w.text, .onLine (lineBehind (newlines lead past)) file⟩]

end Inscription

/-! ## Behind a lexeme -/

variable {s rest : List Char} {kind : Kind} {text : String}

/-- The symbols and the beginnings of comments. -/
def marks : List (List Char) := ['/', '/'] :: ['/', '*'] :: Kind.symbols.map (·.1.toList)

/-- A text does not go on with the lexeme in front of it: it continues no word and no number, and its first
character makes no other symbol and no comment out of a symbol. -/
def Detached (s rest : List Char) : Prop :=
  ∀ c ∈ rest.head?, (s.head?.any isWordChar → isWordChar c = false ∧ c ≠ '.') ∧ s ++ [c] ∉ marks

lemma Detached.endsNumber (h : Detached s rest) (hs : s.head?.any isWordChar = true) :
    EndsNumber rest :=
  ⟨fun hpoint => ((h '.' hpoint).1 hs).2 rfl, fun c hc => ((h c hc).1 hs).1⟩

/-- A symbol or the beginning of a comment is at the front of a lexeme if it is at the front of the lexeme
and what stands behind it. -/
lemma Detached.prefix_of_append (h : Detached s rest) (hs : s ≠ []) {mark : List Char}
    (hmark : mark ∈ marks) (hfront : mark <+: s ++ rest) : mark <+: s := by
  have hlengths : ∀ mark ∈ marks, mark.length ≤ 2 := by decide
  rcases List.prefix_or_prefix_of_prefix hfront (List.prefix_append s rest) with hin | ⟨t, rfl⟩
  · exact hin
  -- at most one character reaches behind the lexeme
  have hlength := hlengths _ hmark
  have hpos := List.length_pos_iff.2 hs
  rw [List.length_append] at hlength
  rcases t with _ | ⟨c, _ | ⟨d, t⟩⟩
  · rw [List.append_nil]
  · obtain ⟨u, hu⟩ := (List.prefix_append_right_inj s).1 hfront
    exact absurd hmark (h c (by rw [← hu]; rfl)).2
  · simp only [List.length_cons] at hlength
    omega

/-- A text that is empty or begins with a blank character. -/
def BeginsBlank (rest : List Char) : Prop := ∀ c ∈ rest.head?, Text.isBlank c = true

lemma IsSeparator.beginsBlank (h : IsSeparator s) (rest : List Char) : BeginsBlank (s ++ rest) := by
  obtain ⟨c, t, rfl, hc, -⟩ := h
  intro d hd
  cases hd
  exact hc

/-- Blank characters go on with no lexeme. -/
lemma BeginsBlank.detached (h : BeginsBlank rest) (s : List Char) : Detached s rest := by
  have hmarks : ∀ mark ∈ marks, mark.all (!Text.isBlank ·) := by decide
  intro c hc
  have hblank := h c hc
  refine ⟨fun _ => ⟨isWordChar_of_isBlank hblank, ?_⟩, fun hmark => ?_⟩
  · rintro rfl
    revert hblank
    decide
  · have hnot := List.all_eq_true.1 (hmarks _ hmark) c (by simp)
    rw [hblank] at hnot
    cases hnot

/-! ## Symbols -/

lemma mem_marks_of_symbol {entry : String × Kind} (h : entry ∈ Kind.symbols) :
    entry.1.toList ∈ marks :=
  List.mem_cons_of_mem _ (List.mem_cons_of_mem _ (List.mem_map_of_mem h))

/-- A symbol is read in full if what follows does not go on with it. -/
lemma first?_symbol_append {entry : String × Kind} (h : entry ∈ Kind.symbols)
    (hrest : Detached entry.1.toList rest) :
    first? (entry.1.toList ++ rest) = some (.symbol entry.2, entry.1.toList.length) := by
  have halone : ∀ entry ∈ Kind.symbols,
      symbol? entry.1.toList = some (.symbol entry.2, entry.1.toList.length) := by decide
  have hcomments : ∀ entry ∈ Kind.symbols,
      ¬ ['/', '/'] <+: entry.1.toList ∧ ¬ ['/', '*'] <+: entry.1.toList := by decide
  obtain ⟨c, cs, hcs, hword, hdigit, hblank, hquote⟩ := exists_cons_of_symbol h
  have hfront : ∀ mark ∈ marks, mark <+: entry.1.toList ++ rest → mark <+: entry.1.toList :=
    fun mark hmark => hrest.prefix_of_append (by simp [hcs]) hmark
  have hline : ¬ ['/', '/'] <+: entry.1.toList ++ rest :=
    fun h' => (hcomments entry h).1 (hfront _ (by decide) h')
  have hblock : ¬ ['/', '*'] <+: entry.1.toList ++ rest :=
    fun h' => (hcomments entry h).2 (hfront _ (by decide) h')
  have hsymbol : symbol? (entry.1.toList ++ rest) = some (.symbol entry.2, entry.1.toList.length) := by
    rw [← halone entry h]
    exact symbol?_congr fun other hmem => ⟨hfront _ (mem_marks_of_symbol hmem),
      fun h' => h'.trans (List.prefix_append _ rest)⟩
  rw [hcs, List.cons_append] at hline hblock hsymbol
  rw [hcs, List.cons_append, first?_of_other hword hdigit hblank hquote, lineComment?_eq_none hline,
    blockComment?_eq_none hblock, openComment?_eq_none hblock, hsymbol]
  rfl

/-! ## The fragment of a lexeme -/

lemma nextFragment_of_word (h : IsWord s) (hrest : Detached s rest) :
    nextFragment (s ++ rest) = (.word, s.length) := by
  have hstops : Stops isWordChar rest := by
    obtain ⟨c, cs, rfl, hc, -⟩ := h
    exact (hrest.endsNumber (isWordChar_of_isWordStart hc)).word
  exact nextFragment_of_ne_number (first?_of_word (word?_append h hstops)) (by decide)

lemma isWord_of_reserved {entry : String × Kind} (h : entry ∈ Kind.reservedWords) :
    IsWord entry.1.toList := by
  have hreach : ∀ entry ∈ Kind.reservedWords,
      word? entry.1.toList = some entry.1.toList.length := by decide
  have hword := isWord_of_word? (hreach entry h)
  rwa [List.take_length] at hword

lemma ofWord_eq_name (h : ∀ entry ∈ Kind.reservedWords, entry.1.toList ≠ s) :
    Kind.ofWord (String.ofList s) = .name := by
  have hnone : Kind.reservedWords.lookup (String.ofList s) = none := by
    refine List.lookup_eq_none_iff.2 fun entry hmem => ?_
    refine bne_iff_ne.2 fun heq => h entry hmem ?_
    rw [← heq, String.toList_ofList]
  rw [Kind.ofWord, hnone, Option.getD_none]

lemma ofWord_of_reserved {entry : String × Kind} (h : entry ∈ Kind.reservedWords) :
    Kind.ofWord entry.1 = entry.2 := by
  have hkinds : ∀ entry ∈ Kind.reservedWords, Kind.ofWord entry.1 = entry.2 := by decide
  exact hkinds entry h

/-- Each token that is read, unless it is malformed, can be written. -/
theorem Reads.exists_writes (h : Reads s (some (kind, text))) (hkind : kind ≠ .malformed) :
    ∃ lexeme, Writes lexeme kind text := by
  cases h with
  | word h =>
    by_cases hreserved : ∃ entry ∈ Kind.reservedWords, entry.1.toList = s
    · obtain ⟨entry, hmem, rfl⟩ := hreserved
      rw [String.ofList_toList, ofWord_of_reserved hmem]
      exact ⟨_, .reserved hmem⟩
    · have hfree : ∀ entry ∈ Kind.reservedWords, entry.1.toList ≠ s :=
        fun entry hmem heq => hreserved ⟨entry, hmem, heq⟩
      rw [ofWord_eq_name hfree]
      exact ⟨s, .name h hfree⟩
  | number h => exact ⟨s, .number h⟩
  | @quoted s t _ _ =>
    obtain ⟨inner, hinner⟩ := Text.exists_escapes t
    exact ⟨_, .text hinner⟩
  | symbol h => exact ⟨_, .symbol h⟩
  | malformed _ => exact absurd rfl hkind

/-- A lexeme is cut off as a fragment of its own, and it is read as the token that it writes. -/
theorem exists_nextFragment_of_writes (h : Writes s kind text) (hrest : Detached s rest) :
    ∃ form, nextFragment (s ++ rest) = (form, s.length) ∧
      Fragment.token? ⟨form, s⟩ = some (kind, text) := by
  cases h with
  | @reserved entry h =>
    refine ⟨.word, nextFragment_of_word (isWord_of_reserved h) hrest, ?_⟩
    rw [Fragment.token?, String.ofList_toList, ofWord_of_reserved h]
  | @symbol entry h =>
    refine ⟨.symbol entry.2, nextFragment_of_ne_number (first?_symbol_append h hrest) (by simp), ?_⟩
    rw [Fragment.token?, String.ofList_toList]
  | name h hfree =>
    refine ⟨.word, nextFragment_of_word h hrest, ?_⟩
    rw [Fragment.token?, ofWord_eq_name hfree]
  | number h =>
    refine ⟨.number, ?_, rfl⟩
    obtain ⟨c, cs, rfl, hc⟩ : ∃ c cs, s = c :: cs ∧ c.isDigit = true := by
      obtain ⟨whole, fraction, exponent, rfl, ⟨hne, hdigits⟩, -⟩ := h
      obtain ⟨c, cs, rfl⟩ := List.exists_cons_of_ne_nil hne
      exact ⟨c, _, rfl, hdigits c List.mem_cons_self⟩
    have hends : EndsNumber rest :=
      hrest.endsNumber (by simp [isWordChar, Char.isAlphanum, hc])
    have hfirst : first? (c :: cs ++ rest) = some (.number, (c :: cs).length) :=
      first?_of_number hc (number?_append h hends)
    rw [nextFragment_of_number hfirst, List.drop_left, if_pos hends.word.run_eq]
  | @text t s h =>
    refine ⟨.quoted, ?_, ?_⟩
    · exact nextFragment_of_ne_number (first?_of_quote (closedQuote?_append ⟨s, rfl, h.isInner⟩))
        (by decide)
    · rw [Fragment.token?, List.tail_cons, List.dropLast_concat, Text.denotes_iff.1 h.denotes]

/-! ## The tokens of a text that stands behind some newlines -/

/-- The tokens of the rest of a text, with the given number of newlines in front of it. -/
def tokensBehind (file : String) (n : ℕ) (s : List Char) : List Token :=
  tokensOf file (lineBehind n) (fragments s)

section TokensBehind

variable (file : String) (n : ℕ) {form : Form} {c : Char}

lemma count_newline_cons (c : Char) (s : List Char) :
    (c :: s).count '\n' = [c].count '\n' + s.count '\n' := by
  rw [← List.count_append, List.singleton_append]

lemma fragments_append (h : nextFragment (s ++ rest) = (form, s.length)) :
    fragments (s ++ rest) = ⟨form, s⟩ :: fragments rest := by
  have hpos := nextFragment_pos (s ++ rest)
  have hne : s ++ rest ≠ [] := by
    rw [h] at hpos
    exact List.append_ne_nil_of_left_ne_nil (List.ne_nil_of_length_pos hpos) rest
  rw [fragments, if_neg hne]
  simp only [h, List.take_left, List.drop_left]

lemma tokensBehind_nil : tokensBehind file n [] = [.endOfInput (lineBehind n) file] := by
  rw [tokensBehind, fragments_nil, tokensOf]

/-- The tokens of a fragment, at most one, on the line behind some newlines. -/
def Fragment.tokens (f : Fragment) : List Token :=
  f.token?.toList.map fun token => ⟨token.1, token.2, .onLine (lineBehind n) file⟩

/-- The tokens of a text are those of the fragment at its front and those of what it leaves. -/
lemma tokensBehind_fragment {f : Fragment}
    (h : nextFragment (f.text ++ rest) = (f.form, f.text.length)) :
    tokensBehind file n (f.text ++ rest) =
      f.tokens file n ++ tokensBehind file (n + f.text.count '\n') rest := by
  rw [tokensBehind, fragments_append h, tokensOf, lineBehind_add_newlines, Fragment.tokens]
  rcases f.token? with _ | token <;> rfl

lemma tokensBehind_gap (h : nextFragment (s ++ rest) = (.gap, s.length)) :
    tokensBehind file n (s ++ rest) = tokensBehind file (n + s.count '\n') rest :=
  tokensBehind_fragment file n (f := ⟨.gap, s⟩) h

/-- A lexeme gives the token that it writes. -/
lemma tokensBehind_writes (h : Writes s kind text) (hrest : Detached s rest) :
    tokensBehind file n (s ++ rest) =
      ⟨kind, text, .onLine (lineBehind n) file⟩ :: tokensBehind file (n + s.count '\n') rest := by
  obtain ⟨form, hnext, htoken⟩ := exists_nextFragment_of_writes h hrest
  rw [tokensBehind_fragment file n (f := ⟨form, s⟩) hnext, Fragment.tokens, htoken]
  rfl

/-- A run of blank characters gives no token. -/
lemma tokensBehind_run (hs : ∀ c ∈ s, Text.isBlank c) (hrest : Stops Text.isBlank rest) :
    tokensBehind file n (s ++ rest) = tokensBehind file (n + s.count '\n') rest := by
  rcases s with _ | ⟨c, s⟩
  · rfl
  · have hrun : blank? (c :: s ++ rest) = some (c :: s).length := by
      rw [blank?, run_append hs hrest, if_neg (by simp)]
    exact tokensBehind_gap file n
      (nextFragment_of_ne_number (first?_of_blank (hs c List.mem_cons_self) hrun) (by decide))

/-- A blank character in front gives no token, even where it makes a run longer. -/
lemma tokensBehind_blank (hc : Text.isBlank c) :
    tokensBehind file n (c :: s) = tokensBehind file (n + [c].count '\n') s := by
  have hrun : ∀ d ∈ s.takeWhile Text.isBlank, Text.isBlank d := fun d hd => List.mem_takeWhile_imp hd
  have hrest : Stops Text.isBlank (s.dropWhile Text.isBlank) := by
    intro d hd
    have hnot := List.head?_dropWhile_not Text.isBlank s
    rw [Option.mem_def.1 hd] at hnot
    simpa using hnot
  -- both texts come down to what follows the run
  have hlong := tokensBehind_run file n (List.forall_mem_cons.2 ⟨hc, hrun⟩) hrest
  have hshort := tokensBehind_run file (n + [c].count '\n') hrun hrest
  rw [List.cons_append, List.takeWhile_append_dropWhile, count_newline_cons, ← Nat.add_assoc] at hlong
  rw [List.takeWhile_append_dropWhile] at hshort
  rw [hlong, hshort]

/-- A text of newlines and nothing else. -/
def blankLines (n : ℕ) : String := String.ofList (List.replicate n '\n')

lemma count_blankLines (n : ℕ) : (blankLines n).toList.count '\n' = n := by
  rw [blankLines, String.toList_ofList, List.count_replicate_self]

lemma blankLines_succ (n : ℕ) : blankLines (n + 1) = blankLines n ++ "\n" := by
  rw [blankLines, List.replicate_succ', String.ofList_append]
  rfl

/-- Newlines in front give no token, however many they are. -/
lemma tokensBehind_blankLines (k : ℕ) (s : List Char) :
    tokensBehind file n ((blankLines k).toList ++ s) = tokensBehind file (n + k) s := by
  rw [blankLines, String.toList_ofList]
  induction k generalizing n with
  | zero => rfl
  | succ k ih =>
    rw [List.replicate_succ, List.cons_append, tokensBehind_blank file n (by decide), ih,
      List.count_singleton_self, Nat.add_assoc, Nat.add_comm 1]

lemma tokenize_blankLines_append (k : ℕ) (s : String) :
    tokenize (blankLines k ++ s) file = tokensBehind file k s.toList := by
  have h := tokensBehind_blankLines file 0 k s.toList
  rwa [← String.toList_append, Nat.zero_add] at h

lemma tokenize_blankLines (k : ℕ) : tokenize (blankLines k) file = [.endOfInput (lineBehind k) file] := by
  have h := tokenize_blankLines_append file k ""
  rwa [String.append_empty, String.toList_empty, tokensBehind_nil] at h

/-- What stands between tokens gives no token. -/
theorem tokensBehind_mix (h : IsMix s) (rest : List Char) :
    tokensBehind file n (s ++ rest) = tokensBehind file (n + s.count '\n') rest := by
  induction h generalizing n with
  | nil => rfl
  | @blank c s hc _ ih =>
    rw [List.cons_append, tokensBehind_blank file n hc, ih, count_newline_cons c s, Nat.add_assoc]
  | @lineComment t s ht _ ih =>
    obtain ⟨body, rfl, hbody⟩ := ht
    have hnext : nextFragment ('/' :: '/' :: body ++ '\n' :: (s ++ rest)) =
        (.gap, ('/' :: '/' :: body).length) :=
      nextFragment_of_ne_number
        (first?_of_lineComment (lineComment?_append hbody (stops_cons.2 rfl))) (by decide)
    have hsplit : '/' :: '/' :: body ++ '\n' :: s ++ rest =
        '/' :: '/' :: body ++ '\n' :: (s ++ rest) := by simp
    rw [hsplit, tokensBehind_gap file n hnext, tokensBehind_blank file _ (by decide), ih,
      List.count_append, count_newline_cons '\n' s, Nat.add_assoc, Nat.add_assoc]
  | @blockComment t s ht _ ih =>
    obtain ⟨body, rfl, hbody⟩ := ht
    have hnext : nextFragment ('/' :: '*' :: (body ++ closing) ++ (s ++ rest)) =
        (.gap, ('/' :: '*' :: (body ++ closing)).length) := by
      have hreach : blockComment? ('/' :: '*' :: (body ++ (closing ++ (s ++ rest)))) =
          some (body.length + 4) := blockComment?_append hbody
      rw [← List.append_assoc] at hreach
      refine (nextFragment_of_ne_number (first?_of_blockComment hreach) (by decide)).trans ?_
      simp [closing]
    have hsplit : '/' :: '*' :: (body ++ closing) ++ s ++ rest =
        '/' :: '*' :: (body ++ closing) ++ (s ++ rest) := by simp
    rw [hsplit, tokensBehind_gap file n hnext, ih, List.count_append, Nat.add_assoc]

end TokensBehind

/-! ## The tokens that are written -/

namespace Inscription

variable {lead : List Char} {ws : List Inscription}

lemma newlines_append (lead : List Char) (past ws : List Inscription) :
    newlines lead (past ++ ws) = newlines lead past + (join ws).count '\n' := by
  rw [newlines, newlines, join, List.flatMap_append, ← List.append_assoc, List.count_append]
  rfl

lemma Separated.of_cons {w : Inscription} (h : Separated (w :: ws)) :
    (IsSeparator w.gap ∨ w.gap = [] ∧ ws = []) ∧ Separated ws := by
  cases h with
  | last hgap => exact ⟨Or.inr ⟨hgap, rfl⟩, .nil⟩
  | cons hgap hws => exact ⟨Or.inl hgap, hws⟩

/-- A token is read back, and the reading goes on behind it. -/
lemma tokensBehind_cons (file : String) (n : ℕ) {w : Inscription} (h : Separated (w :: ws)) :
    tokensBehind file n (join (w :: ws)) =
      ⟨w.kind, w.text, .onLine (lineBehind n) file⟩ ::
        tokensBehind file (n + (join [w]).count '\n') (join ws) := by
  obtain ⟨hgap, -⟩ := h.of_cons
  have hmix : IsMix w.gap := by
    rcases hgap with ⟨c, t, heq, hc, ht⟩ | ⟨hnil, -⟩
    · rw [heq]
      exact .blank hc ht
    · rw [hnil]
      exact .nil
  have hbegins : BeginsBlank (w.gap ++ join ws) := by
    rcases hgap with hsep | ⟨hnil, rfl⟩
    · exact hsep.beginsBlank (join ws)
    · rw [hnil]
      intro c hc
      cases hc
  have hjoin : join (w :: ws) = w.lexeme ++ (w.gap ++ join ws) := by
    rw [join, List.flatMap_cons, List.append_assoc]
    rfl
  have hcount : (join [w]).count '\n' = w.lexeme.count '\n' + w.gap.count '\n' := by
    rw [join, List.flatMap_singleton, List.count_append]
  rw [hjoin, tokensBehind_writes file n w.writes (hbegins.detached _), tokensBehind_mix file _ hmix, hcount,
    Nat.add_assoc]

/-- Behind some tokens that are written, the others are read back. -/
theorem tokensBehind_join (file : String) (lead : List Char) (past : List Inscription)
    (h : Separated ws) :
    tokensBehind file (newlines lead past) (join ws) =
      flatMapPast (tokens file lead) past ws ++
        [Token.endOfInput (lineBehind (newlines lead (past ++ ws))) file] := by
  induction ws generalizing past with
  | nil =>
    rw [List.append_nil]
    exact tokensBehind_nil file _
  | cons w ws ih =>
    rw [tokensBehind_cons file _ h, ← newlines_append, ih (past ++ [w]) h.of_cons.2,
      flatMapPast_cons, List.append_cons past w ws]
    rfl

/-- The numbers of the lines, as long as they are small enough. -/
lemma map_line_flatMapPast (file : String) (hlines : newlines lead ws + 1 < UInt32.size) :
    (flatMapPast (tokens file lead) [] ws).map (·.span.line.toNat) =
      flatMapPast (fun past _ => [newlines lead past + 1]) [] ws := by
  rw [List.map_eq_flatMap, flatMap_flatMapPast]
  refine flatMapPast_congr fun past w rest hws => ?_
  have hle : newlines lead past ≤ newlines lead ws := by
    rw [hws, newlines_append]
    exact Nat.le_add_right _ _
  have hline : (lineBehind (newlines lead past)).toNat = newlines lead past + 1 :=
    toNat_lineBehind (by omega)
  rw [List.nil_append, ← hline]
  rfl

end Inscription

/-- The lexer reads back what is written: the tokens that were written, in order, each on the line behind
the newlines in front of it, and the token that ends the input.  If the lines are not too many, the number
of each is one more than that of these newlines. -/
theorem tokenize_written (file : String) {lead : List Char} {ws : List Inscription}
    (hlead : IsMix lead) (hws : Inscription.Separated ws) :
    tokenize (String.ofList (lead ++ Inscription.join ws)) file =
      flatMapPast (Inscription.tokens file lead) [] ws ++
        [.endOfInput (lineBehind (Inscription.newlines lead ws)) file] ∧
    (Inscription.newlines lead ws + 1 < UInt32.size →
      (tokenize (String.ofList (lead ++ Inscription.join ws)) file).map (·.span.line.toNat) =
        flatMapPast (fun past _ => [Inscription.newlines lead past + 1]) [] ws ++
          [Inscription.newlines lead ws + 1]) := by
  have htokens : tokenize (String.ofList (lead ++ Inscription.join ws)) file =
      flatMapPast (Inscription.tokens file lead) [] ws ++
        [.endOfInput (lineBehind (Inscription.newlines lead ws)) file] := by
    have hstart : 0 + lead.count '\n' = Inscription.newlines lead [] := by
      rw [Inscription.newlines, Inscription.join, List.flatMap_nil, List.append_nil, Nat.zero_add]
    rw [tokenize, String.toList_ofList]
    change tokensBehind file 0 (lead ++ Inscription.join ws) = _
    rw [tokensBehind_mix file 0 hlead, hstart, Inscription.tokensBehind_join file lead [] hws,
      List.nil_append]
  refine ⟨htokens, fun hlines => ?_⟩
  rw [htokens, List.map_append, Inscription.map_line_flatMapPast file hlines,
    ← toNat_lineBehind hlines]
  rfl

/-- Written tokens of all forms, a string literal with escapes and raw characters among them, and separators
of all forms behind them. -/
def specimen : List Inscription :=
  [⟨.whileWord, "while", _, @Writes.reserved ("while", .whileWord) (by decide), [' ']⟩,
    ⟨.name, _, _, .name ⟨'n', ['2'], rfl, rfl, List.forall_mem_singleton.2 rfl⟩ (by decide),
      "\t/* b */".toList⟩,
    ⟨.plusAssign, "+=", _, @Writes.symbol ("+=", .plusAssign) (by decide), "\n// c\n".toList⟩,
    ⟨.number, _, _, .number ⟨['2'], ['.', '5'], ['e', '-', '3'], rfl, by simp [IsDigits],
      .inr ⟨['5'], rfl, by simp [IsDigits]⟩,
      .inr ⟨'e', ['-'], ['3'], rfl, .inl rfl, .inr (.inr rfl), by simp [IsDigits]⟩⟩, [' ']⟩,
    ⟨.text, _, _, .text (@Text.Escapes.escaped 't' '\t' _ _ (by decide) <|
      @Text.Escapes.raw '\t' _ _ (by decide) <| @Text.Escapes.escaped '"' '"' _ _ (by decide) <|
      @Text.Escapes.raw 'é' _ _ (by decide) .nil), []⟩]

/-- The text that `specimen` makes behind a comment. -/
def specimenText : String :=
  "/* a\n */while n2\t/* b */+=\n// c\n2.5e-3 \"\\t\t\\\"é\""

/-- The tokens are read back, with the lines that the newlines in comments and separators make. -/
theorem tokenize_written_specimen :
    IsMix "/* a\n */".toList ∧ Inscription.Separated specimen ∧
    specimenText = String.ofList ("/* a\n */".toList ++ Inscription.join specimen) ∧
    (tokenize specimenText interactiveFile).map (fun t => (t.kind, t.text, t.span.line)) =
      [(.whileWord, "while", 2), (.name, "n2", 2), (.plusAssign, "+=", 2), (.number, "2.5e-3", 4),
        (.text, "\t\t\"é", 4), (.endOfInput, "EOF", 4)] := by
  have hlead : IsMix "/* a\n */".toList :=
    .blockComment (t := "/* a\n */".toList) ⟨" a\n ".toList, rfl, by decide⟩ .nil
  have hspace : IsSeparator [' '] := ⟨' ', [], rfl, by decide, .nil⟩
  have hblock : IsSeparator "\t/* b */".toList :=
    ⟨'\t', _, rfl, by decide,
      .blockComment (t := "/* b */".toList) ⟨" b ".toList, rfl, by decide⟩ .nil⟩
  have hline : IsSeparator "\n// c\n".toList :=
    ⟨'\n', _, rfl, by decide, .lineComment (t := "// c".toList) ⟨" c".toList, rfl, by decide⟩ .nil⟩
  have hws : Inscription.Separated specimen :=
    .cons hspace <| .cons hblock <| .cons hline <| .cons hspace <| .last rfl
  have hjoin : specimenText = String.ofList ("/* a\n */".toList ++ Inscription.join specimen) := by
    decide +kernel
  refine ⟨hlead, hws, hjoin, ?_⟩
  rw [hjoin, (tokenize_written interactiveFile hlead hws).1]
  decide +kernel

end LangCheck
