import LangCheck.Source.Lines
import LangCheck.Text.Quoted
import LangCheck.Token.Basic
import LangCheck.Token.Lexeme

/-!
# From a text to its tokens

A text is cut into fragments, front to back.  At each place the first rule that applies decides what
the next fragment is, and a character that no rule accepts is a malformed fragment of its own.  A
fragment is a gap between tokens or the lexeme of one token.  Nothing is lost: the texts of the
fragments, one after the other, are the text (`flatMap_text_fragments`).
-/

namespace LangCheck

/-- What a fragment is. -/
inductive Form where
  /-- A reserved word or a name. -/
  | word
  | number
  /-- A blank run or a comment, which only separates tokens. -/
  | gap
  /-- A string literal. -/
  | quoted
  | malformed
  /-- A symbol, with its kind. -/
  | symbol (kind : Kind)
deriving DecidableEq, Repr, Inhabited

/-- A rule of the lexer: what a fragment is, and how far one reaches that starts at the front of a
text. -/
structure LexRule where
  /-- What a fragment of this rule is. -/
  form : Form
  /-- The length of such a fragment at the front of the text. -/
  reach : List Char → Option Nat

namespace LexRule

/-- The rules, the first that applies being the one that counts. -/
def all : List LexRule :=
  [⟨.word, Lexeme.word?⟩, ⟨.number, Lexeme.number?⟩, ⟨.gap, Lexeme.blank?⟩,
    ⟨.quoted, Lexeme.closedQuote?⟩, ⟨.malformed, Lexeme.openQuote?⟩,
    ⟨.gap, Lexeme.lineComment?⟩, ⟨.gap, Lexeme.blockComment?⟩,
    ⟨.malformed, Lexeme.openComment?⟩] ++
  Kind.symbols.map fun (spelling, kind) => ⟨.symbol kind, Lexeme.spelled? spelling.toList⟩

/-- Whether the rule applies to the text, and how. -/
def attempt? (rule : LexRule) (s : List Char) : Option (Form × Nat) :=
  (rule.reach s).map fun n => (rule.form, n)

/-- A rule only accepts fragments that are not empty. -/
theorem pos_of_reach {rule : LexRule} (h : rule ∈ all) {s : List Char} {n : Nat}
    (hn : rule.reach s = some n) : 0 < n := by
  simp only [all, List.mem_append, List.mem_cons, List.not_mem_nil, or_false, List.mem_map] at h
  rcases h with (rfl | rfl | rfl | rfl | rfl | rfl | rfl | rfl) | ⟨⟨spelling, kind⟩, hs, rfl⟩
  · unfold Lexeme.word? at hn; grind
  · simp only [Lexeme.number?] at hn; grind
  · simp only [Lexeme.blank?] at hn; grind
  · unfold Lexeme.closedQuote? at hn; grind
  · unfold Lexeme.openQuote? at hn; grind
  · unfold Lexeme.lineComment? at hn; grind
  · unfold Lexeme.blockComment? at hn; grind [Option.map_eq_some_iff]
  · unfold Lexeme.openComment? at hn; grind
  · have nonempty : ∀ p ∈ Kind.symbols, 0 < p.1.toList.length := by decide
    have := nonempty _ hs
    simp only [Lexeme.spelled?] at hn
    grind

/-- The first rule that applies to the text, with the length of its fragment. -/
def first? (s : List Char) : Option (Form × Nat) := all.findSome? (·.attempt? s)

theorem pos_of_first? {s : List Char} {form : Form} {n : Nat} (h : first? s = some (form, n)) :
    0 < n := by
  obtain ⟨rule, hmem, hattempt⟩ := List.exists_of_findSome?_eq_some h
  simp only [attempt?, Option.map_eq_some_iff] at hattempt
  obtain ⟨m, hm, heq⟩ := hattempt
  cases heq
  exact pos_of_reach hmem hm

end LexRule

/-- A fragment of a text. -/
structure Fragment where
  /-- What the fragment is. -/
  form : Form
  /-- Its characters. -/
  text : List Char
deriving DecidableEq, Repr, Inhabited

/-- What the next fragment of a text is, and its length.  The letters, digits and underscores that
follow a number directly spoil it, and make one malformed fragment with it. -/
def nextFragment (s : List Char) : Form × Nat :=
  match LexRule.first? s with
  | some (.number, n) =>
    match Lexeme.run Lexeme.isWordChar (s.drop n) with
    | 0 => (.number, n)
    | m => (.malformed, n + m)
  | some piece => piece
  | none => (.malformed, 1)

/-- No fragment is empty. -/
theorem nextFragment_pos (s : List Char) : 0 < (nextFragment s).2 := by
  unfold nextFragment
  split
  · next n h =>
    have := LexRule.pos_of_first? h
    split
    · simpa using this
    · simp only; omega
  · next piece _ h => exact LexRule.pos_of_first? h
  · simp

/-- The fragments of a text, in order. -/
def fragments (s : List Char) : List Fragment :=
  if s = [] then []
  else
    let piece := nextFragment s
    ⟨piece.1, s.take piece.2⟩ :: fragments (s.drop piece.2)
termination_by s.length
decreasing_by
  have := nextFragment_pos s
  have : 0 < s.length := List.length_pos_iff.2 (by assumption)
  simp only [List.length_drop]
  omega

@[simp] theorem fragments_nil : fragments [] = [] := by
  rw [fragments]; simp

/-- The texts of the fragments, one after the other, are the text. -/
theorem flatMap_text_fragments (s : List Char) : (fragments s).flatMap (·.text) = s := by
  fun_induction fragments s with
  | case1 => rfl
  | case2 s h piece ih => simp [ih]

namespace Fragment

/-- The kind and the text of the token that a fragment is, unless it is a gap. -/
def token? (f : Fragment) : Option (Kind × String) :=
  match f.form with
  | .word => some (Kind.ofWord (String.ofList f.text), String.ofList f.text)
  | .number => some (.number, String.ofList f.text)
  | .gap => none
  | .quoted => some (.text, String.ofList (Text.unescape f.text.tail.dropLast))
  | .malformed => some (.malformed, String.ofList f.text)
  | .symbol kind => some (kind, String.ofList f.text)

end Fragment

/-- The tokens of a list of fragments whose first one begins on the given line, and the token that
ends the input.  A token lies on the line on which its fragment begins. -/
def tokensOf (file : String) (line : UInt32) : List Fragment → List Token
  | [] => [.endOfInput line file]
  | f :: fs =>
    let rest := tokensOf file (line + newlines f.text) fs
    match f.token? with
    | some (kind, text) => ⟨kind, text, .onLine line file⟩ :: rest
    | none => rest

/-- The tokens of a source, with the token that ends the input. -/
def tokenize (source file : String) : List Token := tokensOf file 1 (fragments source.toList)

end LangCheck
