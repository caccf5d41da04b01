import LangCheck.Proofs.Source.Lines
import LangCheck.Proofs.Text.OneLine
import LangCheck.Proofs.Token.Kinds
import LangCheck.Proofs.Token.LineLocal

/-!
# Listings of tokens

A listing shows each token but the end of the input by its entry, with a newline behind it.  The text of a
token is shown as it is, so a listing has a line for each token only if no text holds a newline
(`Token.listedByLine_iff`).  Two kinds of tokens of a source have such texts: string literals with an escape
that denotes a newline, and comments that are not closed (`Fragment.Breaks`).  The main result
(`listing_tokenize`) counts the lines and says when there is one for each token.
-/

namespace LangCheck

open Lexeme LexRule

/-! ## Entries -/

lemma Kind.newline_not_mem_label (k : Kind) : '\n' ∉ k.label.toList := by
  cases k <;> exact Text.oneLine_ofList (by decide +kernel)

namespace Token

variable {ts : List Token} {t : Token}

/-- An entry goes over as many lines as the text of the token. -/
lemma count_newline_entry (t : Token) : t.entry.toList.count '\n' = t.text.toList.count '\n' := by
  have hlabel := List.count_eq_zero.2 t.kind.newline_not_mem_label
  have hline := List.count_eq_zero.2 (Text.oneLine_toString_line t.span.line)
  simp [entry, hlabel, hline]

lemma newline_mem_entry_iff : '\n' ∈ t.entry.toList ↔ '\n' ∈ t.text.toList := by
  rw [← List.count_pos_iff, ← List.count_pos_iff, count_newline_entry]

/-- The tokens that a listing shows. -/
def listed (ts : List Token) : List Token := ts.filter (·.kind != .endOfInput)

lemma toList_listing (ts : List Token) :
    (listing ts).toList = ((listed ts).map (·.entry.toList)).flatMap (· ++ ['\n']) := by
  simp [listing, listed, List.flatMap_map]

/-- A listing has one line for each token that it shows, in order, and it is the entry of the token. -/
def ListedByLine (ts : List Token) : Prop :=
  linesOf (listing ts).toList = (listed ts).map (·.entry.toList) ++ [[]]

instance (ts : List Token) : Decidable (ListedByLine ts) := inferInstanceAs (Decidable (_ = _))

/-- There is one line for each token as long as no text holds a newline. -/
theorem listedByLine_iff : ListedByLine ts ↔ ∀ t ∈ listed ts, '\n' ∉ t.text.toList := by
  rw [ListedByLine, toList_listing, linesOf_flatMap_newline_iff, List.forall_mem_map]
  simp only [newline_mem_entry_iff]

/-- Each newline in a text adds a line to the listing. -/
theorem count_newline_listing (ts : List Token) : (listing ts).toList.count '\n' =
    (listed ts).length + ((listed ts).map fun t => t.text.toList.count '\n').sum := by
  rw [toList_listing]
  induction listed ts with
  | nil => rfl
  | cons t ts ih =>
    rw [List.map_cons, List.flatMap_cons, List.count_append, ih, List.count_append, count_newline_entry,
      List.map_cons, List.sum_cons, List.length_cons]
    simp only [List.count_singleton_self]
    omega

end Token

/-! ## Escapes in a literal -/

/-- A backslash that is not escaped itself stands in front of a letter. -/
def HasEscape (letter : Char) (s : List Char) : Prop :=
  ∃ front back, s = front ++ '\\' :: letter :: back ∧ ¬ EscapesNext front

section

variable {letter c d : Char} {s t : List Char}

lemma not_hasEscape_nil : ¬ HasEscape letter [] := by
  rintro ⟨front, back, heq, -⟩
  simp at heq

lemma hasEscape_cons (hc : c ≠ '\\') : HasEscape letter (c :: s) ↔ HasEscape letter s := by
  have hsingle := not_escapesNext_singleton hc
  constructor
  · rintro ⟨front, back, heq, hfront⟩
    rcases front with _ | ⟨x, front⟩
    · exact absurd (List.cons.inj heq).1 hc
    · obtain ⟨rfl, rfl⟩ := List.cons.inj heq
      exact ⟨front, back, rfl, fun hnext => hfront ((escapesNext_append hsingle).2 hnext)⟩
  · rintro ⟨front, back, rfl, hfront⟩
    exact ⟨c :: front, back, rfl, fun hnext => hfront ((escapesNext_append hsingle).1 hnext)⟩

/-- A backslash and the character behind it are an escape or hold no part of one. -/
lemma hasEscape_pair : HasEscape letter ('\\' :: d :: s) ↔ d = letter ∨ HasEscape letter s := by
  have hpair := not_escapesNext_pair d
  constructor
  · rintro ⟨front, back, heq, hfront⟩
    rcases front with _ | ⟨x, _ | ⟨y, front⟩⟩
    · exact Or.inl (List.cons.inj (List.cons.inj heq).2).1
    · obtain rfl : '\\' = x := (List.cons.inj heq).1
      exact absurd (by decide) hfront
    · obtain ⟨rfl, htail⟩ := List.cons.inj heq
      obtain ⟨rfl, rfl⟩ := List.cons.inj htail
      exact Or.inr ⟨front, back, rfl, fun hnext => hfront ((escapesNext_append hpair).2 hnext)⟩
  · rintro (rfl | ⟨front, back, rfl, hfront⟩)
    · exact ⟨[], s, rfl, not_escapesNext_nil⟩
    · exact ⟨'\\' :: d :: front, back, rfl, fun hnext => hfront ((escapesNext_append hpair).1 hnext)⟩

/-- A string literal denotes a text with a newline if and only if it has the escape of one. -/
theorem Text.Denotes.newline_mem_iff (h : Text.Denotes s t) (hs : '\n' ∉ s) :
    '\n' ∈ t ↔ HasEscape 'n' s := by
  induction h with
  | nil => exact iff_of_false List.not_mem_nil not_hasEscape_nil
  | plain hc _ ih =>
    rw [List.mem_cons, not_or] at hs
    rw [hasEscape_cons hc, List.mem_cons, or_iff_right hs.1, ih hs.2]
  | @escape letter c s t hc _ ih =>
    simp only [List.mem_cons, not_or] at hs
    have hletter : '\n' = c ↔ letter = 'n' := by
      have hescapes : ∀ entry ∈ Text.escapes, '\n' = entry.2 ↔ entry.1 = 'n' := by decide
      exact hescapes _ hc
    rw [hasEscape_pair, List.mem_cons, hletter, ih hs.2.2]
  | @kept s t hkept _ ih =>
    rw [List.mem_cons, not_or] at hs
    rw [List.mem_cons, or_iff_right (by decide), ih hs.2]
    rcases s with _ | ⟨d, s⟩
    · refine iff_of_false not_hasEscape_nil ?_
      rintro ⟨front, back, heq, -⟩
      rcases front with _ | ⟨x, front⟩ <;> simp at heq
    · -- what follows the backslash is neither an escape's letter nor another backslash
      have hslash : d ≠ '\\' := by
        rintro rfl
        exact hkept '\\' rfl '\\' (by decide)
      have hn : d ≠ 'n' := by
        rintro rfl
        exact hkept 'n' rfl '\n' (by decide)
      rw [hasEscape_pair, hasEscape_cons hslash, or_iff_right hn]

end

/-! ## Fragments of tokens that go over several lines -/

/-- A fragment is that of a token whose text holds a newline: a string literal with the escape of one, or a
block comment that is not closed and goes over several lines. -/
inductive Fragment.Breaks : Fragment → Prop
  | escape {inner : List Char} (h : HasEscape 'n' inner) : Breaks ⟨.quoted, '"' :: (inner ++ ['"'])⟩
  | openComment {body : List Char} (h : '\n' ∈ body) : Breaks ⟨.malformed, '/' :: '*' :: body⟩

section

variable {s inner : List Char} {f : Fragment}

lemma breaks_quoted_iff : Fragment.Breaks ⟨.quoted, '"' :: (inner ++ ['"'])⟩ ↔ HasEscape 'n' inner := by
  refine ⟨fun h => ?_, .escape⟩
  generalize hf : (⟨.quoted, '"' :: (inner ++ ['"'])⟩ : Fragment) = f at h
  cases h with
  | escape h =>
    rw [Fragment.mk.injEq, List.cons.injEq, List.append_cancel_right_eq] at hf
    rwa [hf.2.2]
  | openComment _ => cases hf

lemma Fragment.Breaks.newline_mem (h : f.Breaks) (hform : f.form ≠ .quoted) : '\n' ∈ f.text := by
  cases h with
  | escape _ => exact absurd rfl hform
  | openComment h => exact List.mem_cons_of_mem _ (List.mem_cons_of_mem _ h)

/-- Unless it is a string literal, the text of a token is its fragment. -/
lemma Fragment.text_of_token? {kind : Kind} {text : String} (h : f.token? = some (kind, text))
    (hform : f.form ≠ .quoted) : text.toList = f.text := by
  unfold Fragment.token? at h
  split at h <;> cases h <;> first | exact String.toList_ofList | contradiction

/-- A fragment is that of a token whose text holds a newline. -/
def Fragment.ShowsNewline (f : Fragment) : Prop :=
  ∃ kind text, f.token? = some (kind, text) ∧ '\n' ∈ text.toList

lemma showsNewline_iff_of_not_mem (hform : f.form ≠ .quoted) (hf : '\n' ∉ f.text) :
    f.ShowsNewline ↔ f.Breaks := by
  refine iff_of_false ?_ fun h => hf (h.newline_mem hform)
  rintro ⟨kind, text, htoken, hmem⟩
  rw [Fragment.text_of_token? htoken hform] at hmem
  exact hf hmem

lemma showsNewline_iff_of_gap (hform : f.form = .gap) : f.ShowsNewline ↔ f.Breaks := by
  obtain ⟨form, text⟩ := f
  obtain rfl : form = .gap := hform
  refine iff_of_false ?_ ?_
  · rintro ⟨kind, text, htoken, -⟩
    cases htoken
  · rintro ⟨⟩

lemma LexRule.LongestMatch.newline_not_mem {t : List Char} (h : LongestMatch s .number t) : '\n' ∉ t := by
  cases h.accepts with
  | number hnumber => exact hnumber.newline_not_mem

/-- Of the fragments that are cut off a text just those that break show a newline. -/
theorem Munch.showsNewline_iff (h : Munch s f) : f.ShowsNewline ↔ f.Breaks := by
  cases h with
  | @quoted inner rest hline _ _ =>
    rw [breaks_quoted_iff, ← (Text.denotes_unescape inner).newline_mem_iff hline]
    simp [Fragment.ShowsNewline, Fragment.token?]
  | openQuote _ h =>
    obtain ⟨inner, rfl, hinner⟩ := h.holds
    exact showsNewline_iff_of_not_mem (by simp) (by simpa using hinner.properties.1)
  | comment _ => exact showsNewline_iff_of_gap rfl
  | @openComment body _ =>
    constructor
    · rintro ⟨kind, text, htoken, hmem⟩
      rw [Fragment.text_of_token? htoken (by simp)] at hmem
      exact .openComment (by simpa using hmem)
    · intro h
      exact ⟨_, _, rfl, by simpa using h.newline_mem (by simp)⟩
  | @longest c s t form hs h _ =>
    by_cases hblank : Text.isBlank c = true
    · have hlead := h.accepts.of_lead h.front
      rw [lead_of_isBlank hblank] at hlead
      exact showsNewline_iff_of_gap hlead.1
    · have hhead : ∀ d ∈ t.head?, d = c := by
        intro d hd
        obtain ⟨ds, rfl⟩ := List.head?_eq_some_iff.1 hd
        exact (List.cons_prefix_cons.1 h.front).1
      have hform : form ≠ .quoted := by
        rintro rfl
        cases h.accepts with
        | quoted hquoted =>
          obtain ⟨inner, rfl, -⟩ := hquoted
          exact hs.1 (congrArg some (hhead '"' rfl).symm)
      refine showsNewline_iff_of_not_mem hform (h.accepts.newline_not_mem ?_ ?_)
      · intro d hd
        rw [hhead d hd]
        exact Bool.eq_false_iff.2 hblank
      · exact fun hcomment => hs.2 (hcomment.trans h.front)
  | number h _ =>
    exact showsNewline_iff_of_not_mem (by simp) h.newline_not_mem
  | spoiled h _ hu _ =>
    refine showsNewline_iff_of_not_mem (by simp) ?_
    rw [List.mem_append, not_or]
    exact ⟨h.newline_not_mem, newline_not_mem_of_isWordChar hu⟩
  | @stray c s _ h =>
    refine showsNewline_iff_of_not_mem (by simp) fun hmem => ?_
    obtain rfl : '\n' = c := List.mem_singleton.1 hmem
    -- a newline is a blank run
    have hblank : Text.isBlank '\n' = true := by decide
    refine h .gap ['\n'] (List.prefix_append ['\n'] s) (.blank ⟨List.cons_ne_nil _ _, ?_⟩)
    exact fun d hd => List.mem_singleton.1 hd ▸ hblank

end

/-! ## The listing of a source -/

/-- The kinds and texts of the tokens of some fragments. -/
lemma map_tokensOf (file : String) (line : UInt32) (fs : List Fragment) :
    (tokensOf file line fs).map (fun t => (t.kind, t.text)) =
      fs.filterMap Fragment.token? ++ [(.endOfInput, "EOF")] := by
  induction fs generalizing line with
  | nil => rfl
  | cons f fs ih =>
    rw [tokensOf, List.filterMap_cons]
    rcases f.token? with _ | token
    · exact ih _
    · exact congrArg (token :: ·) (ih _)

/-- At each fragment of a text maximal munch cuts off this fragment. -/
lemma exists_munch_of_mem_fragments {s : List Char} {f : Fragment} (hf : f ∈ fragments s) :
    ∃ rest, Munch rest f := by
  fun_induction fragments s with
  | case1 => cases hf
  | case2 s hs piece ih =>
    rcases List.mem_cons.1 hf with rfl | hf
    · obtain ⟨c, s, rfl⟩ := List.exists_cons_of_ne_nil hs
      exact ⟨_, munch_cons_iff.2 rfl⟩
    · exact ih hf

/-- Of the fragments of a text just those that break show a newline. -/
lemma showsNewline_iff_of_mem_fragments {s : List Char} {f : Fragment} (hf : f ∈ fragments s) :
    f.ShowsNewline ↔ f.Breaks := by
  obtain ⟨rest, hmunch⟩ := exists_munch_of_mem_fragments hf
  exact hmunch.showsNewline_iff

/-- The texts of all tokens that are listed are free of newlines if and only if no fragment breaks. -/
lemma forall_listed_iff (source file : String) :
    (∀ t ∈ Token.listed (tokenize source file), '\n' ∉ t.text.toList) ↔
      ∀ f ∈ fragments source.toList, ¬ f.Breaks := by
  have hmap := map_tokensOf file 1 (fragments source.toList)
  constructor
  · intro h f hf hbreaks
    obtain ⟨kind, text, htoken, hmem⟩ := (showsNewline_iff_of_mem_fragments hf).2 hbreaks
    have hentry : (kind, text) ∈ (tokenize source file).map fun t => (t.kind, t.text) := by
      rw [tokenize, hmap]
      exact List.mem_append_left _ (List.mem_filterMap.2 ⟨f, hf, htoken⟩)
    obtain ⟨t, ht, heq⟩ := List.mem_map.1 hentry
    cases heq
    have hreads := reads_of_mem_fragments hf
    rw [htoken] at hreads
    exact h t (List.mem_filter.2 ⟨ht, by simpa using hreads.kind_ne⟩) hmem
  · intro h t ht hmem
    obtain ⟨ht, hkind⟩ := List.mem_filter.1 ht
    obtain ⟨f, hf, htoken, -⟩ := exists_fragment_of_mem_tokenize ht (by simpa using hkind)
    exact h f hf ((showsNewline_iff_of_mem_fragments hf).1 ⟨_, _, htoken, hmem⟩)

/-- How many lines the listing of a source has: one for each token but the end of the input, and one more
for each newline in the text of one.  So there is one line for each token, and then it is its entry, exactly
if no string literal has the escape of a newline and no block comment is left open over several lines. -/
theorem listing_tokenize (source file : String) :
    (Token.listing (tokenize source file)).toList.count '\n' =
      (Token.listed (tokenize source file)).length +
        ((Token.listed (tokenize source file)).map fun t => t.text.toList.count '\n').sum ∧
    (Token.ListedByLine (tokenize source file) ↔ ∀ f ∈ fragments source.toList, ¬ f.Breaks) ∧
    ((Token.listing (tokenize source file)).toList.count '\n' =
        (Token.listed (tokenize source file)).length ↔
      ∀ f ∈ fragments source.toList, ¬ f.Breaks) := by
  have hcount := Token.count_newline_listing (tokenize source file)
  have hlisted := forall_listed_iff source file
  refine ⟨hcount, Token.listedByLine_iff.trans hlisted, ?_⟩
  rw [hcount, ← hlisted, Nat.add_eq_left, List.sum_eq_zero_iff_forall_eq_nat, List.forall_mem_map]
  simp only [List.count_eq_zero]

/-- A string literal with the escape of a newline. -/
def twoLines : String := "string s = \"a\\nb\";"

/-- There are five tokens, and the listing has six lines. -/
theorem listing_twoLines :
    ¬ (∀ source file, Token.ListedByLine (tokenize source file)) ∧
    ¬ Token.ListedByLine (tokenize twoLines interactiveFile) ∧
    (Token.listed (tokenize twoLines interactiveFile)).length = 5 ∧
    Token.listing (tokenize twoLines interactiveFile) =
      "<STRINGTYPE, \"string\", 1>\n<IDENTIFIER, \"s\", 1>\n<ASSIGNMENT, \"=\", 1>\n" ++
        "<STRING, \"a\nb\", 1>\n<SEMICOLON, \";\", 1>\n" := by
  have hbroken : ¬ Token.ListedByLine (tokenize twoLines interactiveFile) := by decide +kernel
  exact ⟨fun h => hbroken (h _ _), hbroken, by decide +kernel, by decide +kernel⟩

end LangCheck
