import LangCheck.Proofs.Token.Pieces

/-!
# The kinds and texts of tokens

Each token of a text comes from a fragment of it, so what is known of all pieces of texts is known of
tokens.  In particular the text of a number begins with a digit (`exists_digit_of_mem_tokenize`).
-/

namespace LangCheck

/-- A token comes from a fragment, or it is the end of the input. -/
lemma token?_of_mem_tokensOf {file : String} {t : Token} : ∀ {line : UInt32} {fs : List Fragment},
    t ∈ tokensOf file line fs →
      t.kind = .endOfInput ∨ ∃ f ∈ fs, f.token? = some (t.kind, t.text)
  | _, [], h => by
    rw [tokensOf, List.mem_singleton] at h
    rw [h]
    exact Or.inl rfl
  | line, f :: fs, h => by
    rw [tokensOf] at h
    have hrest : t ∈ tokensOf file (line + newlines f.text) fs →
        t.kind = .endOfInput ∨ ∃ g ∈ f :: fs, g.token? = some (t.kind, t.text) := by
      intro h
      refine (token?_of_mem_tokensOf h).imp_right ?_
      rintro ⟨g, hg, hgt⟩
      exact ⟨g, List.mem_cons_of_mem f hg, hgt⟩
    rcases hf : f.token? with _ | ⟨kind, text⟩
    · rw [hf] at h
      exact hrest h
    · rw [hf] at h
      rcases List.mem_cons.1 h with rfl | h
      · exact Or.inr ⟨f, List.mem_cons_self, hf⟩
      · exact hrest h

/-- A token of a source that does not end the input comes from a fragment, which is a lexeme of it. -/
lemma exists_fragment_of_mem_tokenize {source file : String} {t : Token}
    (ht : t ∈ tokenize source file) (hkind : t.kind ≠ .endOfInput) :
    ∃ f ∈ fragments source.toList, f.token? = some (t.kind, t.text) ∧
      Reads f.text (some (t.kind, t.text)) := by
  obtain ⟨f, hf, htoken⟩ := (token?_of_mem_tokensOf ht).resolve_left hkind
  have hreads := reads_of_mem_fragments hf
  rw [htoken] at hreads
  exact ⟨f, hf, htoken, hreads⟩

/-- The text of a number begins with a digit. -/
theorem exists_digit_of_mem_tokenize {source file : String} {t : Token}
    (ht : t ∈ tokenize source file) (hkind : t.kind = .number) :
    ∃ c cs, t.text.toList = c :: cs ∧ c.isDigit := by
  obtain ⟨f, -, -, hreads⟩ := exists_fragment_of_mem_tokenize ht (by rw [hkind]; decide)
  exact hreads.exists_digit hkind

end LangCheck
