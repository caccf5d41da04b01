import LangCheck.Text.Quoted
import LangCheck.Proofs.Token.Classes

/-!
# The escapes of string literals

What a string literal denotes, told by the characters between its quotes (`Text.Denotes`), and the ways to
write a text between quotes (`Text.Escapes`).  Reading a literal gives what it denotes
(`Text.denotes_iff`), and each way of writing a text denotes the text (`Text.Escapes.denotes`).
-/

namespace LangCheck.Text

/-- The letters that denote a character behind a backslash, each with the character. -/
def escapes : List (Char × Char) :=
  [('n', '\n'), ('t', '\t'), ('r', '\r'), ('\\', '\\'), ('"', '"'), ('0', '\x00')]

variable {letter c : Char} {s t : List Char}

lemma ofEscapeLetter?_eq_some_iff : ofEscapeLetter? letter = some c ↔ (letter, c) ∈ escapes := by
  constructor
  · intro h
    unfold ofEscapeLetter? at h
    split at h <;> cases h <;> decide
  · intro h
    simp only [escapes, List.mem_cons, Prod.mk.injEq, List.not_mem_nil, or_false] at h
    rcases h with ⟨rfl, rfl⟩ | ⟨rfl, rfl⟩ | ⟨rfl, rfl⟩ | ⟨rfl, rfl⟩ | ⟨rfl, rfl⟩ | ⟨rfl, rfl⟩ <;> rfl

/-! ## Reading -/

/-- What the characters between two quotes denote, from left to right: a backslash and a letter of an escape
denote the character of the escape, and every other character denotes itself, other backslashes
included. -/
inductive Denotes : List Char → List Char → Prop
  | nil : Denotes [] []
  | plain {c : Char} {s t : List Char} (hc : c ≠ '\\') (h : Denotes s t) : Denotes (c :: s) (c :: t)
  | escape {letter c : Char} {s t : List Char} (hc : (letter, c) ∈ escapes) (h : Denotes s t) :
    Denotes ('\\' :: letter :: s) (c :: t)
  | kept {s t : List Char} (hs : ∀ letter ∈ s.head?, ∀ c, (letter, c) ∉ escapes) (h : Denotes s t) :
    Denotes ('\\' :: s) ('\\' :: t)

lemma denotes_unescape (s : List Char) : Denotes s (unescape s) := by
  fun_induction unescape s with
  | case1 letter s c hc ih => exact .escape (ofEscapeLetter?_eq_some_iff.1 hc) ih
  | case2 letter s hnone ih =>
    refine .kept (fun letter' hletter c hc => ?_) ih
    cases hletter
    rw [ofEscapeLetter?_eq_some_iff.2 hc] at hnone
    cases hnone
  | case3 c s hnot ih =>
    by_cases hc : c = '\\'
    · -- a backslash at the end
      subst hc
      rcases s with _ | ⟨letter, s⟩
      · exact .kept (by simp) ih
      · exact absurd rfl (hnot letter s rfl)
    · exact .plain hc ih
  | case4 => exact .nil

/-- Reading a string literal gives what it denotes, and it denotes nothing else. -/
theorem denotes_iff : Denotes s t ↔ t = unescape s := by
  refine ⟨fun h => ?_, fun h => h ▸ denotes_unescape s⟩
  induction h with
  | nil => rfl
  | plain hc _ ih =>
    rw [unescape, ih]
    rintro letter rest rfl
    exact absurd rfl hc
  | escape hc _ ih => rw [unescape, ofEscapeLetter?_eq_some_iff.2 hc, ih]
  | @kept s t hs _ ih =>
    rcases s with _ | ⟨letter, s⟩
    · rw [ih]
      rfl
    · have hnone : ofEscapeLetter? letter = none := by
        refine Option.eq_none_iff_forall_ne_some.2 fun c hc => ?_
        exact hs letter rfl c (ofEscapeLetter?_eq_some_iff.1 hc)
      rw [unescape, hnone, ih]

/-! ## Writing -/

/-- The ways to write a text between quotes: a character that has an escape may be written so, and a
character other than a backslash, a quote and a newline may be written as it is. -/
inductive Escapes : List Char → List Char → Prop
  | nil : Escapes [] []
  | escaped {letter c : Char} {t s : List Char} (hc : (letter, c) ∈ escapes) (h : Escapes t s) :
    Escapes (c :: t) ('\\' :: letter :: s)
  | raw {c : Char} {t s : List Char} (hc : ¬ (c = '"' ∨ c = '\\' ∨ c = '\n')) (h : Escapes t s) :
    Escapes (c :: t) (c :: s)

/-- Each text can be written. -/
theorem exists_escapes (t : List Char) : ∃ s, Escapes t s := by
  induction t with
  | nil => exact ⟨[], .nil⟩
  | cons c t ih =>
    obtain ⟨s, hs⟩ := ih
    by_cases hc : c = '"' ∨ c = '\\' ∨ c = '\n'
    · have hescape : ∃ letter, (letter, c) ∈ escapes := by
        rcases hc with rfl | rfl | rfl
        · exact ⟨'"', by decide⟩
        · exact ⟨'\\', by decide⟩
        · exact ⟨'n', by decide⟩
      obtain ⟨letter, hletter⟩ := hescape
      exact ⟨'\\' :: letter :: s, .escaped hletter hs⟩
    · exact ⟨c :: s, .raw hc hs⟩

/-- A text is denoted by each way of writing it. -/
theorem Escapes.denotes (h : Escapes t s) : Denotes s t := by
  induction h with
  | nil => exact .nil
  | escaped hc _ ih => exact .escape hc ih
  | raw hc _ ih => exact .plain (fun heq => hc (Or.inr (Or.inl heq))) ih

/-- A text that is written so stands between its quotes. -/
lemma Escapes.isInner (h : Escapes t s) : Lexeme.IsInner s := by
  induction h with
  | nil => exact .nil
  | @escaped letter c t s hc _ ih =>
    have hletters : ∀ entry ∈ escapes, entry.1 ≠ '\n' := by decide
    exact .pair (hletters _ hc) ih
  | raw hc _ ih => exact .plain hc ih

end LangCheck.Text
