import LangCheck.Proofs.Token.Munch

/-!
# Reading line by line

No fragment other than a blank run and a block comment goes on behind a newline.  So the tokens of a text
and another one on the next lines are those of the two texts (`tokenize_newline`), whatever the first text
ends with, unless it ends within a block comment.  The numbers of the lines of the second text grow by the lines
that the first one takes, as long as there are fewer than 2^32 - 2 newlines in the two; with one more the last
line has no number of its own (`tokenize_newline_wraps`).
-/

namespace LangCheck

open Lexeme LexRule

variable {s t x : List Char} {c : Char} {form : Form} {f : Fragment}

/-! ## Fragments without newlines -/

lemma prefix_of_append_newline (h : t <+: s ++ '\n' :: x) (ht : '\n' ∉ t) : t <+: s := by
  rcases List.prefix_or_prefix_of_prefix h (List.prefix_append s _) with hin | ⟨u, rfl⟩
  · exact hin
  · rcases u with _ | ⟨d, u⟩
    · rw [List.append_nil]
    · obtain ⟨v, hv⟩ := (List.prefix_append_right_inj s).1 h
      obtain rfl : d = '\n' := (List.cons.inj hv).1
      exact absurd (by simp) ht

lemma newline_not_mem_of_isWordChar (h : ∀ c ∈ s, isWordChar c) : '\n' ∉ s :=
  fun hmem => absurd (h _ hmem) (by decide)

lemma Lexeme.IsDigits.newline_not_mem (h : IsDigits s) : '\n' ∉ s :=
  fun hmem => absurd (h.2 _ hmem) (by decide)

lemma Lexeme.IsNumber.newline_not_mem (h : IsNumber s) : '\n' ∉ s := by
  obtain ⟨whole, frac, exp, rfl, hwhole, hfrac, hexp⟩ := h
  have hfrac' : '\n' ∉ frac := by
    rcases hfrac with rfl | ⟨ds, rfl, hds⟩
    · exact List.not_mem_nil
    · simpa using hds.newline_not_mem
  have hexp' : '\n' ∉ exp := by
    rcases hexp with rfl | ⟨e, sign, ds, rfl, he, hsign, hds⟩
    · exact List.not_mem_nil
    · have hds' := hds.newline_not_mem
      rcases he with rfl | rfl <;> rcases hsign with rfl | rfl | rfl <;> simpa using hds'
  simp [hwhole.newline_not_mem, hfrac', hexp']

/-- What a pattern accepts holds no newline, unless it begins like a blank run or a block comment. -/
lemma LexRule.Accepts.newline_not_mem (h : Accepts form t)
    (hblank : ∀ c ∈ t.head?, Text.isBlank c = false) (hcomment : ¬ ['/', '*'] <+: t) :
    '\n' ∉ t := by
  cases h with
  | word h =>
    obtain ⟨c, cs, rfl, hc, hcs⟩ := h
    refine newline_not_mem_of_isWordChar ?_
    exact List.forall_mem_cons.2 ⟨isWordChar_of_isWordStart hc, hcs⟩
  | number h => exact h.newline_not_mem
  | blank h =>
    obtain ⟨c, cs, rfl⟩ := List.exists_cons_of_ne_nil h.1
    have hc := h.2 c List.mem_cons_self
    rw [hblank c rfl] at hc
    cases hc
  | quoted h =>
    obtain ⟨inner, rfl, hinner⟩ := h
    simpa using hinner.properties.1
  | openQuote h =>
    obtain ⟨inner, rfl, hinner⟩ := h
    simpa using hinner.properties.1
  | lineComment h =>
    obtain ⟨body, rfl, hbody⟩ := h
    simpa using hbody
  | blockComment h =>
    obtain ⟨body, rfl, -⟩ := h
    exact absurd ⟨_, rfl⟩ hcomment
  | openComment h =>
    obtain ⟨body, rfl⟩ := h
    exact absurd ⟨_, rfl⟩ hcomment
  | @symbol entry h =>
    have hsymbols : ∀ entry ∈ Kind.symbols, '\n' ∉ entry.1.toList := by decide
    exact hsymbols entry h

/-! ## What a newline behind a text changes -/

lemma LexRule.Plain.append_newline (h : Plain (c :: s)) : Plain (c :: s ++ '\n' :: x) :=
  ⟨h.1, fun hfront => h.2 (prefix_of_append_newline hfront (by decide))⟩

/-- What is accepted in front of a text that does not begin with a blank character is not changed by what
stands behind a newline. -/
lemma LexRule.Accepts.prefix_of_append_newline (h : Accepts form t) (hs : Plain (c :: s))
    (hblank : Text.isBlank c = false) (ht : t <+: c :: s ++ '\n' :: x) : t <+: c :: s := by
  refine LangCheck.prefix_of_append_newline ht (h.newline_not_mem ?_ ?_)
  · intro d hd
    obtain ⟨ds, rfl⟩ := List.head?_eq_some_iff.1 hd
    obtain rfl : d = c := (List.cons_prefix_cons.1 ht).1
    exact hblank
  · intro hcomment
    exact hs.append_newline.2 (hcomment.trans ht)

lemma LexRule.LongestMatch.append_newline (h : LongestMatch (c :: s) form t) (hs : Plain (c :: s))
    (hblank : Text.isBlank c = false) : LongestMatch (c :: s ++ '\n' :: x) form t := by
  refine ⟨h.front.trans (List.prefix_append _ _), h.accepts, fun form' u hu hform' => ?_⟩
  exact h.longest form' u (hform'.prefix_of_append_newline hs hblank hu) hform'

lemma LexRule.LongestMatch.append_newline_of_number (h : LongestMatch s .number t) :
    LongestMatch (s ++ '\n' :: x) .number t := by
  obtain ⟨c, cs, rfl, hc⟩ := h.exists_digit
  refine h.append_newline (plain_of_isDigit hc) ?_
  by_contra hblank
  rw [isDigit_of_isWordChar (isWordChar_of_isBlank (by simpa using hblank))] at hc
  cases hc

lemma Lexeme.Stops.append_newline {p : Char → Bool} (h : Stops p s) (hp : p '\n' = false) :
    Stops p (s ++ '\n' :: x) := by
  rcases s with _ | ⟨d, s⟩
  · exact stops_cons.2 hp
  · exact stops_cons.2 (stops_cons.1 h)

/-- The fragment at the front of a text is the same with a newline and another text behind it, unless it is
a blank run or a comment that is not closed. -/
lemma Munch.append_newline (h : Munch s f) (hblank : ∀ c ∈ s.head?, Text.isBlank c = false)
    (hclosed : f.form = .malformed → ¬ ['/', '*'] <+: f.text) : Munch (s ++ '\n' :: x) f := by
  cases h with
  | quoted hline hfirst hquote =>
    rw [List.cons_append, List.append_assoc, List.cons_append]
    exact .quoted hline hfirst hquote
  | @openQuote s t hopen h =>
    refine .openQuote (fun inner hinner hline => hopen inner ?_ hline) ⟨?_, h.holds, ?_⟩
    · exact LangCheck.prefix_of_append_newline hinner (by simp [hline])
    · exact h.front.trans (List.prefix_append _ _)
    · intro u hu hP
      refine h.longest u (LangCheck.prefix_of_append_newline hu ?_) hP
      obtain ⟨inner, rfl, hinner⟩ := hP
      simpa using hinner.properties.1
  | comment hfirst =>
    simp only [List.cons_append, List.append_assoc]
    exact .comment hfirst
  | openComment _ => exact absurd ⟨_, rfl⟩ (hclosed rfl)
  | longest hs h hform => exact .longest hs.append_newline (h.append_newline hs (hblank _ rfl)) hform
  | number h hrest =>
    have hlong := h.append_newline_of_number (x := x)
    rw [List.append_assoc] at hlong ⊢
    exact .number hlong (hrest.append_newline rfl)
  | spoiled h hne hu hrest =>
    have hlong := h.append_newline_of_number (x := x)
    rw [List.append_assoc, List.append_assoc] at hlong ⊢
    exact .spoiled hlong hne hu (hrest.append_newline rfl)
  | stray hs h =>
    refine .stray hs.append_newline fun form t ht haccepts => h form t ?_ haccepts
    exact haccepts.prefix_of_append_newline hs (hblank _ rfl) ht

/-! ## The tokens of a text and another one on the next lines -/

lemma Fragment.tokens_of_malformed (file : String) (n : ℕ) (hform : f.form = .malformed) :
    f.tokens file n = [malformedToken file n f.text] := by
  rw [Fragment.tokens, Fragment.token?, hform]
  rfl

/-- No token is a block comment that is not closed. -/
def CommentsClosed (ts : List Token) : Prop :=
  ∀ t ∈ ts, t.kind = .malformed → ¬ ['/', '*'] <+: t.text.toList

instance (ts : List Token) : Decidable (CommentsClosed ts) :=
  inferInstanceAs (Decidable (∀ t ∈ ts, _))

/-- The tokens of a text do not depend on what stands on the next lines, and the tokens there are those of
what stands there. -/
theorem tokensBehind_newline (file : String) (n : ℕ) (s x : List Char)
    (hclosed : CommentsClosed (tokensBehind file n s)) :
    tokensBehind file n (s ++ '\n' :: x) = (tokensBehind file n s).dropLast ++
      tokensBehind file (n + s.count '\n' + 1) x := by
  induction hlength : s.length using Nat.strong_induction_on generalizing n s with
  | h length ih =>
    rcases s with _ | ⟨c, s⟩
    · rw [List.nil_append, tokensBehind_blank file n (by decide), tokensBehind_nil]
      rfl
    by_cases hblank : Text.isBlank c = true
    · -- blank characters are passed one by one, for a blank run may go on behind the newline
      rw [tokensBehind_blank file n hblank] at hclosed ⊢
      have hrest := ih s.length (by rw [← hlength, List.length_cons]; omega) _ s hclosed rfl
      rw [List.cons_append, tokensBehind_blank file n hblank, hrest, count_newline_cons c s,
        Nat.add_assoc n]
    · obtain ⟨f, hf⟩ := exists_munch c s
      obtain ⟨⟨v, hv⟩, hnext⟩ := hf.nextFragment_eq
      have hpos := nextFragment_pos (c :: s)
      rw [hnext] at hpos
      rw [← hv] at hf hnext hclosed hlength ⊢
      rw [tokensBehind_fragment file n hnext] at hclosed ⊢
      have hfirst : Munch (f.text ++ v ++ '\n' :: x) f := by
        refine hf.append_newline ?_ fun hform => ?_
        · rw [hv]
          intro d hd
          obtain rfl : c = d := Option.some.inj hd
          simpa using hblank
        · have htoken := hclosed (malformedToken file n f.text)
            (by rw [f.tokens_of_malformed file n hform]; exact List.mem_cons_self) rfl
          rwa [malformedToken, String.toList_ofList] at htoken
      have hrest := ih v.length (by rw [← hlength, List.length_append]; omega)
        (n + f.text.count '\n') v (fun t ht => hclosed t (List.mem_append_right _ ht)) rfl
      have hne : tokensBehind file (n + f.text.count '\n') v ≠ [] := tokensOf_ne_nil file _ _
      rw [List.append_assoc] at hfirst ⊢
      rw [tokensBehind_fragment file n hfirst.nextFragment_eq.2, hrest, List.dropLast_append_of_ne_nil hne,
        List.append_assoc, List.count_append, Nat.add_assoc n]

/-- The tokens of a text and another one some empty lines further down. -/
lemma tokenize_append_blankLines {a file : String} (hclosed : CommentsClosed (tokenize a file)) (k : ℕ)
    (b : String) : tokenize (a ++ "\n" ++ blankLines k ++ b) file =
      (tokenize a file).dropLast ++ tokensBehind file (a.toList.count '\n' + 1 + k) b.toList := by
  have hsource : (a ++ "\n" ++ blankLines k ++ b).toList =
      a.toList ++ '\n' :: ((blankLines k).toList ++ b.toList) := by
    simp [String.toList_append]
  have hbehind := tokensBehind_newline file 0 a.toList ((blankLines k).toList ++ b.toList) hclosed
  rw [tokensBehind_blankLines, Nat.zero_add] at hbehind
  rw [tokenize, hsource]
  exact hbehind

/-- The token some lines further down. -/
def Token.below (k : ℕ) (t : Token) : Token :=
  { t with span :=
    ⟨⟨t.span.start.line + .ofNat k, t.span.start.file⟩,
      ⟨t.span.stop.line + .ofNat k, t.span.stop.file⟩⟩ }

lemma tokensOf_below (file : String) (k : ℕ) (line : UInt32) (fs : List Fragment) :
    tokensOf file (line + .ofNat k) fs = (tokensOf file line fs).map (Token.below k) := by
  induction fs generalizing line with
  | nil => rfl
  | cons f fs ih =>
    have hline : line + .ofNat k + newlines f.text = line + newlines f.text + .ofNat k := by
      rw [UInt32.add_assoc, UInt32.add_comm (.ofNat k), UInt32.add_assoc]
    rw [tokensOf, tokensOf, hline, ih]
    rcases f.token? with _ | ⟨kind, text⟩ <;> rfl

lemma lineBehind_add (n k : ℕ) : lineBehind n + .ofNat k = lineBehind (n + k) := by
  rw [lineBehind, lineBehind, ← UInt32.ofNat_add, Nat.add_right_comm]

/-- The tokens of a text with another one on the next lines are those of the first text, without the token
that ends it, and those of the second text as many lines further down as the first text and the newline
take.  If there are fewer than 2^32 - 2 newlines in the two texts, the numbers of these lines grow by so many. -/
theorem tokenize_newline (a b file : String) (hclosed : CommentsClosed (tokenize a file)) :
    let k := 1 + a.toList.count '\n'
    tokenize (a ++ "\n" ++ b) file =
      (tokenize a file).dropLast ++ (tokenize b file).map (Token.below k) ∧
    (a.toList.count '\n' + b.toList.count '\n' < UInt32.size - 2 →
      ∀ line ∈ tokenLines (tokenize b file), (line + .ofNat k).toNat = line.toNat + k) := by
  intro k
  constructor
  · have hsource : (a ++ "\n" ++ b).toList = a.toList ++ '\n' :: b.toList := by
      simp [String.toList_append]
    have hbehind := tokensBehind_newline file 0 a.toList b.toList hclosed
    have hbelow : tokensBehind file (0 + a.toList.count '\n' + 1) b.toList =
        (tokenize b file).map (Token.below k) := by
      rw [tokenize, ← tokensOf_below, show (1 : UInt32) = lineBehind 0 from rfl, lineBehind_add,
        tokensBehind, Nat.zero_add, Nat.zero_add, Nat.add_comm]
    rw [hbelow] at hbehind
    rw [tokenize, hsource]
    exact hbehind
  · intro hlines line hline
    obtain ⟨ns, hns, -, hbound⟩ := exists_tokenLines_tokenize b file
    rw [hns] at hline
    obtain ⟨m, hm, rfl⟩ := List.mem_map.1 hline
    have hle := hbound m hm
    have hsize : UInt32.size = 4294967296 := rfl
    rw [lineBehind_add, toNat_lineBehind (by omega), toNat_lineBehind (by omega)]
    omega

/-- One newline more is too many: the token that ends a text on line 1 stands on line 0 when the text comes
behind 2^32 - 2 newlines and the one between the two. -/
theorem tokenize_newline_wraps :
    let a := blankLines (UInt32.size - 2)
    CommentsClosed (tokenize a interactiveFile) ∧
    a.toList.count '\n' + "".toList.count '\n' < UInt32.size - 1 ∧
    tokenize "" interactiveFile = [.endOfInput 1 interactiveFile] ∧
    tokenize (a ++ "\n" ++ "") interactiveFile = [.endOfInput 0 interactiveFile] ∧
    (0 : UInt32).toNat ≠ (1 : UInt32).toNat + (1 + a.toList.count '\n') := by
  intro a
  have hbelow : tokenize (a ++ "\n") interactiveFile = [.endOfInput 0 interactiveFile] := by
    rw [← blankLines_succ, tokenize_blankLines]
    exact congrArg (fun line => [Token.endOfInput line interactiveFile]) lineBehind_eq_zero
  rw [count_blankLines, tokenize_blankLines, String.append_empty]
  refine ⟨?_, by decide, by decide +kernel, hbelow, by decide⟩
  exact List.forall_mem_singleton.2 fun hkind => by cases hkind

/-- A text that ends with a string literal that is not closed and a backslash, and another one on the next
line. -/
theorem tokenize_newline_scraps :
    CommentsClosed (tokenize "/* */ \"a\\" interactiveFile) ∧
    tokenize "/* */ \"a\\\n12ab + // c" interactiveFile =
      [malformedToken interactiveFile 0 ['"', 'a'], malformedToken interactiveFile 0 ['\\']] ++
        (tokenize "12ab + // c" interactiveFile).map (Token.below 1) ∧
    ∀ line ∈ tokenLines (tokenize "12ab + // c" interactiveFile),
      (line + .ofNat 1).toNat = line.toNat + 1 := by
  have hclosed : CommentsClosed (tokenize "/* */ \"a\\" interactiveFile) := by decide +kernel
  obtain ⟨htokens, hlines⟩ :=
    tokenize_newline "/* */ \"a\\" "12ab + // c" interactiveFile hclosed
  have hfirst : (tokenize "/* */ \"a\\" interactiveFile).dropLast =
      [malformedToken interactiveFile 0 ['"', 'a'], malformedToken interactiveFile 0 ['\\']] := by
    decide +kernel
  rw [hfirst] at htokens
  exact ⟨hclosed, htokens, hlines (by decide)⟩

end LangCheck
