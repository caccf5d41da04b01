import LangCheck.Proofs.Text.Quoting
import LangCheck.Proofs.Token.Quotes

/-!
# Texts on one line

A text without newlines takes one line (`Text.OneLine`).  Numerals are such texts, and so is everything
that is shown in quotes, whatever its characters (`Text.oneLine_quote`).
-/

namespace LangCheck.Text

/-- A text that takes one line: it holds no newline. -/
def OneLine (s : String) : Prop := '\n' ∉ s.toList

instance (s : String) : Decidable (OneLine s) := inferInstanceAs (Decidable (¬ _))

/-- All of some texts take one line each. -/
def AllOneLine (texts : List String) : Prop := ∀ text ∈ texts, OneLine text

variable {s t : String} {texts more : List String}

/-- A text that is given by its characters.  A literal is such a text. -/
lemma oneLine_ofList {chars : List Char} (h : '\n' ∉ chars) : OneLine (String.ofList chars) := by
  rwa [OneLine, String.toList_ofList]

lemma allOneLine_append : AllOneLine (texts ++ more) ↔ AllOneLine texts ∧ AllOneLine more :=
  List.forall_mem_append

@[simp] lemma oneLine_append : OneLine (s ++ t) ↔ OneLine s ∧ OneLine t := by
  simp [OneLine]

@[simp] lemma oneLine_toString (n : ℕ) : OneLine (toString n) := by
  intro h
  have hdigits : (toString n).toList = Nat.toDigits 10 n := Nat.toList_repr
  rw [hdigits] at h
  exact absurd (Nat.isDigit_of_mem_toDigits (by decide) (by decide) h) (by decide)

@[simp] lemma oneLine_toString_line (line : UInt32) : OneLine (toString line) :=
  oneLine_toString line.toNat

/-- Texts with a separator between them take one line together if each of them does. -/
lemma oneLine_intercalate (hs : OneLine s) (h : AllOneLine texts) : OneLine (s.intercalate texts) := by
  induction texts with
  | nil => exact List.not_mem_nil
  | cons text texts ih =>
    obtain ⟨htext, htexts⟩ := List.forall_mem_cons.1 h
    cases texts with
    | nil => simpa using htext
    | cons second texts =>
      rw [String.intercalate_cons_cons, oneLine_append, oneLine_append]
      exact ⟨⟨htext, hs⟩, ih htexts⟩

/-- What is shown in quotes takes one line. -/
theorem oneLine_quote (s : String) : OneLine (quote s) := by
  have hinner : '\n' ∉ s.toList.flatMap quoteChar := (isInner_flatMap_quoteChar s.toList).properties.1
  simpa [OneLine, quote] using hinner

end LangCheck.Text
