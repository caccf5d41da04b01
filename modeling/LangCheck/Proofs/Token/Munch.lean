import LangCheck.Proofs.Token.Longest
import LangCheck.Proofs.Token.Quotes

/-!
# Maximal munch

What is cut off the front of a text is told here without the rules being tried in order (`Munch`): a string
literal or a block comment is cut off up to where it is closed, and of anything else the longest match of
all patterns.  The main result (`fragments_munch`) says that each fragment of a text is the only one of
which this is true at its place.
-/

namespace LangCheck

open Lexeme LexRule

/-- The fragment at the front of a text. -/
inductive Munch : List Char → Fragment → Prop
  /-- A string literal reaches to the first quote that is not escaped. -/
  | quoted {inner rest : List Char} (hline : '\n' ∉ inner) (hfirst : QuotesEscaped inner)
    (hquote : ¬ EscapesNext inner) :
    Munch ('"' :: (inner ++ '"' :: rest)) ⟨.quoted, '"' :: (inner ++ ['"'])⟩
  /-- If there is none on the line, the literal is not closed. -/
  | openQuote {s t : List Char}
    (hopen : ∀ inner, inner ++ ['"'] <+: s → '\n' ∉ inner → EscapesNext inner)
    (h : LongestFront IsOpenQuote ('"' :: s) t) : Munch ('"' :: s) ⟨.malformed, t⟩
  /-- A block comment reaches to the first `*/`. -/
  | comment {body rest : List Char} (hfirst : ¬ closing <:+: body) :
    Munch ('/' :: '*' :: (body ++ (closing ++ rest))) ⟨.gap, '/' :: '*' :: (body ++ closing)⟩
  /-- If there is none, the comment is not closed. -/
  | openComment {s : List Char} (hopen : ¬ closing <:+: s) :
    Munch ('/' :: '*' :: s) ⟨.malformed, '/' :: '*' :: s⟩
  | longest {c : Char} {s t : List Char} {form : Form} (hs : Plain (c :: s))
    (h : LongestMatch (c :: s) form t) (hform : form ≠ .number) : Munch (c :: s) ⟨form, t⟩
  | number {t rest : List Char} (h : LongestMatch (t ++ rest) .number t)
    (hrest : Stops isWordChar rest) : Munch (t ++ rest) ⟨.number, t⟩
  /-- The letters, digits and underscores behind a number spoil it. -/
  | spoiled {t u rest : List Char} (h : LongestMatch (t ++ (u ++ rest)) .number t) (hne : u ≠ [])
    (hu : ∀ c ∈ u, isWordChar c) (hrest : Stops isWordChar rest) :
    Munch (t ++ (u ++ rest)) ⟨.malformed, t ++ u⟩
  /-- A character with which no pattern begins. -/
  | stray {c : Char} {s : List Char} (hs : Plain (c :: s))
    (h : ∀ form t, t <+: c :: s → ¬ Accepts form t) : Munch (c :: s) ⟨.malformed, [c]⟩

variable {s t rest inner : List Char} {c : Char} {form form' : Form} {f g : Fragment}

/-! ## The rule that applies -/

lemma LexRule.LongestMatch.unique (ht : LongestMatch s form t) (h : LongestMatch s form' rest) :
    form = form' ∧ t = rest := by
  have hin := (ht.longest _ _ h.front h.accepts).1
  obtain ⟨hout, hform⟩ := h.longest _ _ ht.front ht.accepts
  have heq : t = rest := hout.eq_of_length_le hin.length_le
  exact ⟨hform heq, heq⟩

/-- The first rule that applies is that of the longest match. -/
lemma LexRule.LongestMatch.first?_eq (h : LongestMatch (c :: s) form t) (hs : Plain (c :: s)) :
    first? (c :: s) = some (form, t.length) := by
  have hmatch := first?_longest hs
  rcases hfirst : first? (c :: s) with _ | ⟨form', n⟩
  · rw [hfirst] at hmatch
    exact absurd h.accepts (hmatch _ _ h.front)
  · rw [hfirst] at hmatch
    obtain ⟨hle, hlongest⟩ := hmatch
    obtain ⟨rfl, rfl⟩ := h.unique hlongest
    rw [List.length_take_of_le hle]

/-- A digit begins neither a string literal nor a comment. -/
lemma LexRule.plain_of_isDigit (hc : c.isDigit = true) : Plain (c :: s) := by
  constructor
  · intro heq
    obtain rfl : c = '"' := Option.some.inj heq
    cases hc
  · intro hfront
    obtain rfl : '/' = c := (List.cons_prefix_cons.1 hfront).1
    cases hc

lemma LexRule.LongestMatch.exists_digit (h : LongestMatch s .number t) :
    ∃ c cs, s = c :: cs ∧ c.isDigit = true := by
  have hnumber : IsNumber t := by
    cases h.accepts
    assumption
  obtain ⟨whole, frac, exp, rfl, ⟨hne, hdigits⟩, -⟩ := hnumber
  obtain ⟨d, ds, rfl⟩ := List.exists_cons_of_ne_nil hne
  obtain ⟨u, rfl⟩ := h.front
  exact ⟨d, _, rfl, hdigits d List.mem_cons_self⟩

lemma LexRule.LongestMatch.first?_number (h : LongestMatch s .number t) :
    first? s = some (.number, t.length) := by
  obtain ⟨c, cs, rfl, hc⟩ := h.exists_digit
  exact h.first?_eq (plain_of_isDigit hc)

/-- A quote behind which the line holds a quote that is not escaped begins a string literal. -/
lemma exists_isInner_of_quote (hinner : inner ++ ['"'] <+: s) (hline : '\n' ∉ inner)
    (hquote : ¬ EscapesNext inner) : ∃ inner', IsInner inner' ∧ inner' ++ ['"'] <+: s := by
  induction hlength : inner.length using Nat.strong_induction_on generalizing inner with
  | h n ih =>
    by_cases hfirst : QuotesEscaped inner
    · exact ⟨inner, isInner_iff.2 ⟨hline, hfirst, hquote⟩, hinner⟩
    · -- there is an earlier quote that is not escaped
      simp only [QuotesEscaped, not_forall] at hfirst
      obtain ⟨front, hfront, hnext⟩ := hfirst
      have hshort := hfront.length_le
      rw [List.length_append, List.length_singleton] at hshort
      refine ih front.length (by omega) ?_ ?_ hnext rfl
      · exact hfront.trans ((List.prefix_append inner ['"']).trans hinner)
      · exact fun hmem => hline (hfront.subset (List.mem_append_left _ hmem))

/-- No string literal is closed by an escaped quote or behind a newline. -/
lemma closedQuote?_eq_none_iff : closedQuote? ('"' :: s) = none ↔
    ∀ inner, inner ++ ['"'] <+: s → '\n' ∉ inner → EscapesNext inner := by
  constructor
  · intro hnone inner hinner hline
    by_contra hquote
    obtain ⟨inner', hinner', u, rfl⟩ := exists_isInner_of_quote hinner hline hquote
    have hclosed : closedQuote? ('"' :: (inner' ++ ['"']) ++ u) = some ('"' :: (inner' ++ ['"'])).length :=
      closedQuote?_append ⟨inner', rfl, hinner'⟩
    rw [List.cons_append, hnone] at hclosed
    cases hclosed
  · intro hopen
    rcases hclosed : closedQuote? ('"' :: s) with _ | n
    · rfl
    · obtain ⟨inner, htake, hinner⟩ := isQuoted_of_closedQuote? hclosed
      obtain ⟨hline, -, hquote⟩ := hinner.properties
      have hfront : '"' :: (inner ++ ['"']) <+: '"' :: s := htake ▸ List.take_prefix n _
      exact absurd (hopen inner (List.cons_prefix_cons.1 hfront).2 hline) hquote

lemma first?_of_openComment (h : ¬ closing <:+: s) :
    first? ('/' :: '*' :: s) = some (.malformed, ('/' :: '*' :: s).length) := by
  have hblock : blockComment? ('/' :: '*' :: s) = none := by
    rw [blockComment?, commentEnd?_eq_none_iff.2 h, Option.map_none]
  rw [first?_of_other rfl rfl rfl (by decide), lineComment?_eq_none (by simp), hblock]
  rfl

/-! ## The fragment that is cut off -/

/-- What is said to be the fragment at the front of a text is cut off there. -/
lemma Munch.nextFragment_eq (h : Munch s f) :
    f.text <+: s ∧ nextFragment s = (f.form, f.text.length) := by
  cases h with
  | @quoted inner rest hline hfirst hquote =>
    have hinner := isInner_iff.2 ⟨hline, hfirst, hquote⟩
    have hclosed : closedQuote? ('"' :: (inner ++ ['"']) ++ rest) = some ('"' :: (inner ++ ['"'])).length :=
      closedQuote?_append ⟨inner, rfl, hinner⟩
    rw [List.cons_append, List.append_assoc, List.singleton_append] at hclosed
    refine ⟨⟨rest, by simp⟩, ?_⟩
    exact nextFragment_of_ne_number (first?_of_quote hclosed) (by simp)
  | @openQuote s t hopen h =>
    obtain ⟨hle, hlongest⟩ : FindsLongest IsOpenQuote ('"' :: s) (some (quotedRun s + 1)) :=
      findsLongest_openQuote ('"' :: s)
    obtain rfl := h.unique hlongest
    refine ⟨h.front, ?_⟩
    rw [List.length_take_of_le hle]
    exact nextFragment_of_ne_number
      (first?_of_openQuote (closedQuote?_eq_none_iff.2 hopen) rfl) (by simp)
  | @comment body rest hfirst =>
    refine ⟨⟨rest, by simp⟩, ?_⟩
    rw [nextFragment_of_ne_number (first?_of_blockComment (blockComment?_append hfirst)) (by decide)]
    simp [closing]
  | openComment hopen =>
    exact ⟨List.prefix_refl _, nextFragment_of_ne_number (first?_of_openComment hopen) (by simp)⟩
  | longest hs h hform => exact ⟨h.front, nextFragment_of_ne_number (h.first?_eq hs) hform⟩
  | @number t rest h hrest =>
    refine ⟨h.front, ?_⟩
    rw [nextFragment_of_number h.first?_number, List.drop_left, if_pos hrest.run_eq]
  | @spoiled t u rest h hne hu hrest =>
    refine ⟨⟨rest, List.append_assoc t u rest⟩, ?_⟩
    have hpos := List.length_pos_iff.2 hne
    rw [nextFragment_of_number h.first?_number, List.drop_left, run_append hu hrest,
      if_neg (by omega), List.length_append]
  | @stray c s hs h =>
    refine ⟨⟨s, rfl⟩, nextFragment_of_none ?_⟩
    have hmatch := first?_longest hs
    rcases hfirst : first? (c :: s) with _ | ⟨form, n⟩
    · rfl
    · rw [hfirst] at hmatch
      exact absurd hmatch.2.accepts (h _ _ hmatch.2.front)

lemma Munch.eq_nextFragment (h : Munch s f) :
    f = ⟨(nextFragment s).1, s.take (nextFragment s).2⟩ := by
  obtain ⟨hfront, hnext⟩ := h.nextFragment_eq
  rw [hnext, ← List.prefix_iff_eq_take.1 hfront]

/-- The longest match of a number, and what may spoil it. -/
lemma exists_munch_of_number (h : LongestMatch s .number t) : ∃ f, Munch s f := by
  obtain ⟨rest, rfl⟩ := h.front
  have hsplit : rest.takeWhile isWordChar ++ rest.dropWhile isWordChar = rest :=
    List.takeWhile_append_dropWhile
  have hstops : Stops isWordChar (rest.dropWhile isWordChar) := by
    intro c hc
    have hnot := List.head?_dropWhile_not isWordChar rest
    rw [Option.mem_def.1 hc] at hnot
    simpa using hnot
  by_cases hne : rest.takeWhile isWordChar = []
  · rw [hne, List.nil_append] at hsplit
    rw [hsplit] at hstops
    exact ⟨_, .number h hstops⟩
  · rw [← hsplit] at h ⊢
    exact ⟨_, .spoiled h hne (fun c hc => List.mem_takeWhile_imp hc) hstops⟩

/-- There is a fragment at the front of each text. -/
lemma exists_munch (c : Char) (s : List Char) : ∃ f, Munch (c :: s) f := by
  by_cases hquote : c = '"'
  · subst hquote
    by_cases hopen : ∀ inner, inner ++ ['"'] <+: s → '\n' ∉ inner → EscapesNext inner
    · exact ⟨_, .openQuote hopen (findsLongest_openQuote ('"' :: s)).2⟩
    · simp only [not_forall] at hopen
      obtain ⟨inner, hfront, hline, hnext⟩ := hopen
      obtain ⟨inner', hinner, rest, rfl⟩ := exists_isInner_of_quote hfront hline hnext
      obtain ⟨hline, hfirst, hquote⟩ := hinner.properties
      rw [List.append_assoc, List.singleton_append]
      exact ⟨_, .quoted hline hfirst hquote⟩
  by_cases hcomment : ['/', '*'] <+: c :: s
  · obtain ⟨s, hs⟩ := hcomment
    rw [← hs]
    rcases hend : commentEnd? s with _ | n
    · exact ⟨_, .openComment (commentEnd?_eq_none_iff.1 hend)⟩
    · obtain ⟨body, rest, rfl, hfirst, -⟩ := commentEnd?_eq_some_iff.1 hend
      exact ⟨_, .comment hfirst⟩
  -- neither a literal nor a comment: here the first rule is that of the longest match
  have hs : Plain (c :: s) := ⟨fun heq => hquote (Option.some.inj heq), hcomment⟩
  have hmatch := first?_longest hs
  rcases hfirst : first? (c :: s) with _ | ⟨form, n⟩
  · rw [hfirst] at hmatch
    exact ⟨_, .stray hs hmatch⟩
  · rw [hfirst] at hmatch
    by_cases hform : form = .number
    · subst hform
      exact exists_munch_of_number hmatch.2
    · exact ⟨_, .longest hs hmatch.2 hform⟩

/-- What is cut off the front of a text is all that can be said to be the fragment there. -/
theorem munch_cons_iff :
    Munch (c :: s) f ↔ f = ⟨(nextFragment (c :: s)).1, (c :: s).take (nextFragment (c :: s)).2⟩ := by
  refine ⟨Munch.eq_nextFragment, ?_⟩
  rintro rfl
  obtain ⟨g, hg⟩ := exists_munch c s
  rwa [hg.eq_nextFragment] at hg

/-! ## Words -/

/-- A word is read to the end of the run of letters, digits and underscores. -/
lemma Munch.takeWhile_of_word (h : Munch s f) (hform : f.form = .word) :
    f.text = s.takeWhile isWordChar := by
  cases h with
  | @longest c s t form _ h _ =>
    obtain rfl : form = .word := hform
    have hword : IsWord t := by
      cases h.accepts
      assumption
    obtain ⟨d, ds, rfl, hd, hds⟩ := hword
    obtain ⟨rest, hrest⟩ := h.front
    have hchars : ∀ c ∈ d :: ds, isWordChar c :=
      List.forall_mem_cons.2 ⟨isWordChar_of_isWordStart hd, hds⟩
    -- the whole run is a word as well
    have hrun : (c :: s).takeWhile isWordChar = d :: (ds ++ rest.takeWhile isWordChar) := by
      rw [← hrest, List.takeWhile_append_of_pos hchars, List.cons_append]
    have hwhole : IsWord (d :: (ds ++ rest.takeWhile isWordChar)) := by
      refine ⟨d, _, rfl, hd, fun e he => ?_⟩
      exact (List.mem_append.1 he).elim (hds e) List.mem_takeWhile_imp
    have hin := (h.longest _ _ (hrun ▸ List.takeWhile_prefix _) (.word hwhole)).1
    rw [hrun]
    exact (List.prefix_append (d :: ds) _).eq_of_length_le hin.length_le
  | _ => cases hform

/-- A word is of the kind of a reserved word exactly if it is this reserved word. -/
lemma ofWord_eq_iff {word : String} {kind : Kind} : Kind.ofWord word = kind ↔
    (word, kind) ∈ Kind.reservedWords ∨
      kind = .name ∧ ∀ entry ∈ Kind.reservedWords, entry.1 ≠ word := by
  constructor
  · rintro rfl
    by_cases hreserved : ∃ entry ∈ Kind.reservedWords, entry.1 = word
    · obtain ⟨entry, hmem, rfl⟩ := hreserved
      rw [ofWord_of_reserved hmem]
      exact Or.inl hmem
    · have hfree : ∀ entry ∈ Kind.reservedWords, entry.1 ≠ word :=
        fun entry hmem heq => hreserved ⟨entry, hmem, heq⟩
      refine Or.inr ⟨(ofWord_eq_or_mem word).resolve_right fun hmem => ?_, hfree⟩
      exact hfree _ hmem rfl
  · rintro (hmem | ⟨rfl, hfree⟩)
    · exact ofWord_of_reserved hmem
    · rw [← String.ofList_toList (s := word)]
      refine ofWord_eq_name fun entry hmem heq => hfree entry hmem ?_
      exact String.toList_injective heq

/-! ## The fragments of a text -/

/-- At each place of a text at which a fragment begins, maximal munch leaves no choice but this fragment.
A word reaches to the end of the run of word characters, and it is of the kind of a reserved word exactly if
all of it is this reserved word.  In front of anything but a string literal and a block comment the rules
would find the same longest match in any other order.  The tokens of the text are those of the fragments. -/
theorem fragments_munch (source file : String) {past later : List Fragment} {f : Fragment}
    (hplace : fragments source.toList = past ++ f :: later) :
    let rest := (f :: later).flatMap (·.text)
    let n := (past.flatMap (·.text)).count '\n'
    source.toList = past.flatMap (·.text) ++ rest ∧
    (∀ g, Munch rest g ↔ g = f) ∧
    (f.form = .word → f.text = rest.takeWhile isWordChar ∧
      ∀ kind text, f.token? = some (kind, text) ↔ text = String.ofList f.text ∧
        ((text, kind) ∈ Kind.reservedWords ∨
          kind = .name ∧ ∀ entry ∈ Kind.reservedWords, entry.1 ≠ text)) ∧
    (Plain rest → ∀ rules : List LexRule, rules.Perm all → longest? rules rest = first? rest) ∧
    tokenize source file = (tokensOf file 1 past).dropLast ++ f.tokens file n ++
      tokensBehind file (n + f.text.count '\n') (later.flatMap (·.text)) := by
  intro rest n
  have hlater : fragments rest = f :: later := fragments_flatMap_of_append hplace
  obtain ⟨c, s, hs⟩ : ∃ c s, rest = c :: s := by
    refine List.exists_cons_of_ne_nil fun hnil => ?_
    rw [hnil, fragments_nil] at hlater
    cases hlater
  have hf : f = ⟨(nextFragment rest).1, rest.take (nextFragment rest).2⟩ := by
    rw [fragments, if_neg (by simp [hs])] at hlater
    exact (List.cons.inj hlater).1.symm
  have hmunch : Munch rest f := by
    rw [hs] at hf ⊢
    exact munch_cons_iff.2 hf
  refine ⟨?_, fun g => ?_, fun hform => ⟨hmunch.takeWhile_of_word hform, fun kind text => ?_⟩,
    fun hplain rules hrules => ?_, ?_⟩
  · rw [← List.flatMap_append, ← hplace, flatMap_text_fragments]
  · rw [hf, hs, munch_cons_iff]
  · rw [Fragment.token?, hform]
    simp only [Option.some.injEq, Prod.mk.injEq, ofWord_eq_iff]
    constructor
    · rintro ⟨hkind, rfl⟩
      exact ⟨rfl, hkind⟩
    · rintro ⟨rfl, hkind⟩
      exact ⟨hkind, rfl⟩
  · rw [hs] at hplain ⊢
    exact longest?_perm hplain hrules
  · rw [tokenize_of_fragments file hplace, List.append_assoc]
    exact congrArg _ (tokensBehind_fragment file n hmunch.nextFragment_eq.2)

/-- A letter behind a digit: the longest match is the number, in whatever order the rules are tried, and the
fragment takes in the letter as well. -/
theorem fragments_munch_spoiled :
    fragments "n=3x;".toList = [⟨.word, ['n']⟩, ⟨.symbol .assign, ['=']⟩] ++
      ⟨.malformed, ['3', 'x']⟩ :: [⟨.symbol .semicolon, [';']⟩] ∧
    (∀ g, Munch ['3', 'x', ';'] g ↔ g = ⟨.malformed, ['3', 'x']⟩) ∧
    longest? all.reverse ['3', 'x', ';'] = some (.number, 1) ∧
    tokenize "n=3x;" interactiveFile =
      [⟨.name, "n", .onLine 1 interactiveFile⟩, ⟨.assign, "=", .onLine 1 interactiveFile⟩,
        ⟨.malformed, "3x", .onLine 1 interactiveFile⟩,
        ⟨.semicolon, ";", .onLine 1 interactiveFile⟩, .endOfInput 1 interactiveFile] := by
  have hplace : fragments "n=3x;".toList = [⟨.word, ['n']⟩, ⟨.symbol .assign, ['=']⟩] ++
      ⟨.malformed, ['3', 'x']⟩ :: [⟨.symbol .semicolon, [';']⟩] := by
    decide +kernel
  obtain ⟨-, hmunch, -, hlongest, htokens⟩ := fragments_munch "n=3x;" interactiveFile hplace
  refine ⟨hplace, hmunch, ?_, htokens.trans (by decide +kernel)⟩
  exact (hlongest ⟨by decide, by decide⟩ _ (List.reverse_perm all)).trans (by decide)

end LangCheck
