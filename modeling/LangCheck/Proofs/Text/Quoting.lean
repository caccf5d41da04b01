import LangCheck.Proofs.Text.Escapes

/-!
# Reading what is shown in quotes

A text that is shown in quotes can be read as a string literal, but not every escape that is shown is one
that literals have: the code point of a character between braces stays as it is.  So a text is read back
exactly if none of its characters is shown in that way (`Text.unescape_flatMap_quoteChar_iff`).
-/

namespace LangCheck.Text

variable {c : Char} {s t : List Char}

/-- A character is shown by its code point between braces. -/
def IsCoded (c : Char) : Prop := ['\\', 'u', '{'] <+: quoteChar c

instance (c : Char) : Decidable (IsCoded c) := inferInstanceAs (Decidable (_ <+: _))

/-! ## How a character is shown -/

lemma mem_escapes_of_escapeLetter? {letter : Char} (h : escapeLetter? c = some letter) :
    (letter, c) ∈ escapes :=
  ofEscapeLetter?_eq_some_iff.1 (ofEscapeLetter?_of_escapeLetter? h)

/-- The digits of a code point can stand between quotes as they are. -/
theorem hexDigits_plain (code : ℕ) : ∀ d ∈ hexDigits code, ¬ (d = '"' ∨ d = '\\' ∨ d = '\n') := by
  have hdigit : ∀ n < 16, ¬ (Nat.digitChar n = '"' ∨ Nat.digitChar n = '\\' ∨ Nat.digitChar n = '\n') :=
    by decide
  induction code using Nat.strongRecOn with
  | ind code ih =>
    intro d hd
    rw [hexDigits, Nat.toDigits_eq_if (by decide)] at hd
    split at hd
    · next hlt =>
      rw [List.mem_singleton.1 hd]
      exact hdigit code hlt
    · rcases List.mem_append.1 hd with hd | hd
      · exact ih (code / 16) (by omega) d hd
      · rw [List.mem_singleton.1 hd]
        exact hdigit _ (Nat.mod_lt _ (by decide))

/-- The ways in which a character is shown. -/
inductive Shown (c : Char) : Prop
  | escaped {letter : Char} (h : (letter, c) ∈ escapes) (hc : quoteChar c = ['\\', letter])
  | raw (h : ¬ (c = '"' ∨ c = '\\' ∨ c = '\n')) (hc : quoteChar c = [c])
  | coded {body : List Char} (h : ∀ d ∈ body, ¬ (d = '"' ∨ d = '\\' ∨ d = '\n'))
    (hc : quoteChar c = '\\' :: 'u' :: '{' :: body)

lemma shown (c : Char) : Shown c := by
  rcases hletter : escapeLetter? c with _ | letter
  · have hc : ¬ (c = '"' ∨ c = '\\' ∨ c = '\n') := by
      rintro (rfl | rfl | rfl) <;> cases hletter
    rcases hshown : isShown c with _ | _
    · have hbody : ∀ d ∈ hexDigits c.toNat ++ ['}'], ¬ (d = '"' ∨ d = '\\' ∨ d = '\n') := by
        intro d hd
        rcases List.mem_append.1 hd with hd | hd
        · exact hexDigits_plain _ d hd
        · rw [List.mem_singleton.1 hd]
          decide
      exact .coded hbody (by simp [quoteChar, hletter, hshown])
    · exact .raw hc (by simp [quoteChar, hletter, hshown])
  · exact .escaped (mem_escapes_of_escapeLetter? hletter) (by simp [quoteChar, hletter])

/-! ## Between the quotes -/

lemma isInner_append_of_plain (hs : ∀ d ∈ s, ¬ (d = '"' ∨ d = '\\' ∨ d = '\n'))
    (ht : Lexeme.IsInner t) : Lexeme.IsInner (s ++ t) := by
  induction s with
  | nil => exact ht
  | cons d s ih =>
    rw [List.forall_mem_cons] at hs
    exact .plain hs.1 (ih hs.2)

/-- A text that is shown in quotes stands between the quotes of a string literal. -/
theorem isInner_flatMap_quoteChar (t : List Char) : Lexeme.IsInner (t.flatMap quoteChar) := by
  induction t with
  | nil => exact .nil
  | cons c t ih =>
    rw [List.flatMap_cons]
    rcases shown c with ⟨hletter, hc⟩ | ⟨hplain, hc⟩ | ⟨hbody, hc⟩
    · have hletters : ∀ entry ∈ escapes, entry.1 ≠ '\n' := by decide
      rw [hc]
      exact .pair (hletters _ hletter) ih
    · rw [hc]
      exact .plain hplain ih
    · rw [hc]
      exact .pair (by decide) (.plain (by decide) (isInner_append_of_plain hbody ih))

/-! ## Reading back -/

/-- What is read where a character is shown. -/
def reread (c : Char) : List Char := if IsCoded c then quoteChar c else [c]

lemma denotes_append_of_plain {u : List Char} (hs : ∀ d ∈ s, ¬ (d = '"' ∨ d = '\\' ∨ d = '\n'))
    (h : Denotes t u) : Denotes (s ++ t) (s ++ u) := by
  induction s with
  | nil => exact h
  | cons d s ih =>
    rw [List.forall_mem_cons] at hs
    exact .plain (fun hd => hs.1 (Or.inr (Or.inl hd))) (ih hs.2)

/-- A text that is shown in quotes denotes its characters, apart from those that are shown by their code
points. -/
theorem denotes_flatMap_quoteChar (t : List Char) :
    Denotes (t.flatMap quoteChar) (t.flatMap reread) := by
  induction t with
  | nil => exact .nil
  | cons c t ih =>
    rw [List.flatMap_cons, List.flatMap_cons, reread]
    rcases shown c with ⟨hletter, hc⟩ | ⟨hplain, hc⟩ | ⟨hbody, hc⟩
    · rw [if_neg (by simp [IsCoded, hc]), hc]
      exact .escape hletter ih
    · rw [if_neg (by simp [IsCoded, hc]), hc]
      exact .plain (fun heq => hplain (Or.inr (Or.inl heq))) ih
    · rw [if_pos (by simp [IsCoded, hc]), hc]
      refine .kept (fun letter hletter d hd => ?_) (.plain (by decide) (.plain (by decide)
        (denotes_append_of_plain hbody ih)))
      cases hletter
      revert hd
      simp [escapes]

lemma length_le_length_flatMap_reread (t : List Char) : t.length ≤ (t.flatMap reread).length := by
  induction t with
  | nil => exact Nat.le_refl _
  | cons c t ih =>
    have hpos : 1 ≤ (reread c).length := by
      rw [reread]
      split
      · next hc => exact Nat.le_trans (by decide) hc.length_le
      · exact Nat.le_refl _
    rw [List.flatMap_cons, List.length_append, List.length_cons]
    omega

/-- A text that is shown in quotes is read back exactly if no character of it is shown by its code
point. -/
theorem unescape_flatMap_quoteChar_iff (t : List Char) :
    unescape (t.flatMap quoteChar) = t ↔ ∀ c ∈ t, ¬ IsCoded c := by
  rw [← denotes_iff.1 (denotes_flatMap_quoteChar t)]
  induction t with
  | nil => simp
  | cons c t ih =>
    rw [List.flatMap_cons, List.forall_mem_cons, ← ih, reread]
    split
    · next hc =>
      -- the escape takes more place than the character
      refine iff_of_false (fun heq => ?_) (fun h => h.1 hc)
      have hlength := congrArg List.length heq
      have hlong : 3 ≤ (quoteChar c).length := hc.length_le
      have hrest := length_le_length_flatMap_reread t
      rw [List.length_append, List.length_cons] at hlength
      omega
    · next hc => simp [hc]

end LangCheck.Text
