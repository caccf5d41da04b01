import LangCheck.Source.Lines
import Mathlib.Data.List.DropRight

/-!
# Lines of a text and newlines

A newline ends one line of a text and begins the next (`linesOf_append_newline`), and so the lines of some
texts with a newline behind each are these texts, as long as none of them holds a newline itself
(`linesOf_flatMap_newline_iff`).  The line around a place (`LineAround`) is the one whose number, counted
from 0, is that of the newlines in front of the place (`LineAround.getElem?_linesOf`), and what is looked up
under this number, counted from 1, is the line without the carriage returns at its end
(`TextAround.lineText_eq`).
-/

namespace LangCheck

variable {s t line past rest : List Char} {c : Char}

@[simp] lemma linesOf_nil : linesOf [] = [[]] := rfl

lemma linesOf_cons_of_ne {lines : List (List Char)} (hc : c ≠ '\n') (hs : linesOf s = line :: lines) :
    linesOf (c :: s) = (c :: line) :: lines := by
  rw [linesOf, if_neg hc, hs]

lemma exists_linesOf_eq_cons (s : List Char) : ∃ line lines, linesOf s = line :: lines :=
  List.exists_cons_of_ne_nil (linesOf_ne_nil s)

/-- A newline ends a line. -/
theorem linesOf_append_newline (s t : List Char) :
    linesOf (s ++ '\n' :: t) = linesOf s ++ linesOf t := by
  induction s with
  | nil => rfl
  | cons c s ih =>
    by_cases hc : c = '\n'
    · subst hc
      rw [List.cons_append, linesOf, if_pos rfl, ih]
      rfl
    · obtain ⟨line, lines, hs⟩ := exists_linesOf_eq_cons s
      rw [hs, List.cons_append] at ih
      rw [List.cons_append, linesOf_cons_of_ne hc ih, linesOf_cons_of_ne hc hs, List.cons_append]

/-- A text without newlines is its only line. -/
lemma linesOf_of_not_mem (hs : '\n' ∉ s) : linesOf s = [s] := by
  induction s with
  | nil => rfl
  | cons c s ih =>
    rw [List.mem_cons, not_or] at hs
    exact linesOf_cons_of_ne (Ne.symm hs.1) (ih hs.2)

/-- No line holds a newline. -/
lemma newline_not_mem_of_mem_linesOf (h : line ∈ linesOf s) : '\n' ∉ line := by
  induction s generalizing line with
  | nil =>
    rw [linesOf_nil, List.mem_singleton] at h
    rw [h]
    exact List.not_mem_nil
  | cons c s ih =>
    obtain ⟨first, lines, hs⟩ := exists_linesOf_eq_cons s
    by_cases hc : c = '\n'
    · subst hc
      rcases List.mem_cons.1 h with rfl | h
      · exact List.not_mem_nil
      · exact ih h
    · rw [linesOf_cons_of_ne hc hs] at h
      rw [hs] at ih
      rcases List.mem_cons.1 h with rfl | h
      · rw [List.mem_cons, not_or]
        exact ⟨Ne.symm hc, ih List.mem_cons_self⟩
      · exact ih (List.mem_cons_of_mem _ h)

/-- Texts with a newline behind each of them are the lines of what they make if and only if none of them
holds a newline itself; behind the last newline there is one more line, without any text. -/
theorem linesOf_flatMap_newline_iff (ls : List (List Char)) :
    linesOf (ls.flatMap (· ++ ['\n'])) = ls ++ [[]] ↔ ∀ line ∈ ls, '\n' ∉ line := by
  constructor
  · intro h line hline
    refine newline_not_mem_of_mem_linesOf (s := ls.flatMap (· ++ ['\n'])) ?_
    rw [h]
    exact List.mem_append_left _ hline
  · intro h
    induction ls with
    | nil => rfl
    | cons line ls ih =>
      rw [List.forall_mem_cons] at h
      rw [List.flatMap_cons, List.append_assoc, List.singleton_append, linesOf_append_newline,
        linesOf_of_not_mem h.1, ih h.2]
      rfl

/-! ## The line around a place -/

/-- A line of a text stands around a place of it: what is between the last newline in front of the place, or
the start of the text, and the first newline behind it, or the end. -/
def LineAround (past rest line : List Char) : Prop :=
  ∃ front back, line = front ++ back ∧ '\n' ∉ line ∧
    (past = front ∨ ∃ above, past = above ++ '\n' :: front) ∧
    (rest = back ∨ ∃ below, rest = back ++ '\n' :: below)

/-- Counted from 0, the number of the line around a place is that of the newlines in front of it. -/
theorem LineAround.getElem?_linesOf (h : LineAround past rest line) :
    (linesOf (past ++ rest))[past.count '\n']? = some line := by
  obtain ⟨front, back, rfl, hline, hpast, hrest⟩ := h
  have hcount : front.count '\n' = 0 := List.count_eq_zero.2 fun hf => hline (List.mem_append_left _ hf)
  -- whatever stands behind the line, it is the first one of what begins with it
  have hfirst : (linesOf (front ++ rest))[0]? = some (front ++ back) := by
    rcases hrest with rfl | ⟨below, rfl⟩
    · rw [linesOf_of_not_mem hline]
      rfl
    · rw [← List.append_assoc, linesOf_append_newline, linesOf_of_not_mem hline]
      rfl
  rcases hpast with rfl | ⟨above, rfl⟩
  · rw [hcount]
    exact hfirst
  · have hlength : (above ++ '\n' :: front).count '\n' = (linesOf above).length + 0 := by
      rw [length_linesOf, List.count_append, List.count_cons_self, hcount]
    rw [List.append_assoc, List.cons_append, linesOf_append_newline, hlength,
      List.getElem?_append_right (Nat.le_add_right _ _), Nat.add_sub_cancel_left, hfirst]

lemma exists_append_newline (h : '\n' ∈ s) : ∃ above front, s = above ++ '\n' :: front ∧ '\n' ∉ front := by
  obtain ⟨front, above, hs, hfront⟩ := List.eq_append_cons_of_mem (List.mem_reverse.2 h)
  refine ⟨above.reverse, front.reverse, ?_, fun hmem => hfront (List.mem_reverse.1 hmem)⟩
  rw [← List.reverse_reverse s, hs]
  simp

/-- There is a line around every place. -/
lemma exists_lineAround (past rest : List Char) : ∃ line, LineAround past rest line := by
  obtain ⟨front, hfront, hpast⟩ : ∃ front, '\n' ∉ front ∧
      (past = front ∨ ∃ above, past = above ++ '\n' :: front) := by
    by_cases h : '\n' ∈ past
    · obtain ⟨above, front, hpast, hfront⟩ := exists_append_newline h
      exact ⟨front, hfront, Or.inr ⟨above, hpast⟩⟩
    · exact ⟨past, h, Or.inl rfl⟩
  obtain ⟨back, hback, hrest⟩ : ∃ back, '\n' ∉ back ∧
      (rest = back ∨ ∃ below, rest = back ++ '\n' :: below) := by
    by_cases h : '\n' ∈ rest
    · obtain ⟨back, below, hrest, hback⟩ := List.eq_append_cons_of_mem h
      exact ⟨back, hback, Or.inr ⟨below, hrest⟩⟩
    · exact ⟨rest, h, Or.inl rfl⟩
  exact ⟨front ++ back, front, back, rfl, by simp [hfront, hback], hpast, hrest⟩

/-! ## The text around a place -/

/-- The line around a place is a text and carriage returns at its end. -/
structure TextAround (past rest text returns : List Char) : Prop where
  line : LineAround past rest (text ++ returns)
  returns : ∀ c ∈ returns, c = '\r'
  text : text.getLast? ≠ some '\r'

variable {text returns : List Char}

lemma dropReturns_eq (s : List Char) : dropReturns s = s.rdropWhile (· == '\r') := rfl

lemma dropReturns_append (hreturns : ∀ c ∈ returns, c = '\r') (htext : text.getLast? ≠ some '\r') :
    dropReturns (text ++ returns) = text := by
  induction returns using List.reverseRecOn with
  | nil =>
    rw [List.append_nil, dropReturns_eq, List.rdropWhile_eq_self_iff]
    intro hne hlast
    rw [List.getLast?_eq_some_getLast hne, eq_of_beq hlast] at htext
    exact htext rfl
  | append_singleton returns c ih =>
    obtain rfl : c = '\r' := hreturns c (List.mem_append_right _ List.mem_cons_self)
    rw [dropReturns_eq, ← List.append_assoc, List.rdropWhile_concat_pos _ _ _ rfl, ← dropReturns_eq,
      ih fun d hd => hreturns d (List.mem_append_left _ hd)]

/-- There is a text around every place. -/
lemma exists_textAround (past rest : List Char) : ∃ text returns, TextAround past rest text returns := by
  obtain ⟨line, hline⟩ := exists_lineAround past rest
  refine ⟨dropReturns line, line.rtakeWhile (· == '\r'), ?_, ?_, ?_⟩
  · rwa [dropReturns_eq, List.rdropWhile_append_rtakeWhile]
  · intro c hc
    exact beq_iff_eq.1 (@List.mem_rtakeWhile_imp _ _ _ c hc)
  · intro hlast
    obtain ⟨hne, hreturn⟩ := List.mem_getLast?_eq_getLast hlast
    exact List.rdropWhile_last_not _ _ hne (beq_iff_eq.2 hreturn.symm)

/-- The text of the line behind the newlines in front of a place is the text around it. -/
theorem TextAround.lineText_eq {source : String} {number : UInt32} (h : TextAround past rest text returns)
    (hsource : past ++ rest = source.toList) (hnumber : number.toNat = past.count '\n' + 1) :
    lineText source number = some (String.ofList text) := by
  have hne : number ≠ 0 := by
    rintro rfl
    cases hnumber
  rw [lineText, if_neg hne, hnumber, Nat.add_sub_cancel, ← hsource, h.line.getElem?_linesOf, Option.map_some,
    dropReturns_append h.returns h.text]

end LangCheck
