import LangCheck.Token.Lexer
import Mathlib.Tactic.Lemma

/-!
# The lines of tokens

The tokens of a text lie on ascending lines (`exists_tokenLines_tokenize`).  The number of a line is one
more than the number of newlines in front of it (`toNat_lineBehind`), and so the lines are in order, as long
as there are fewer than 2^32 - 1 newlines.  Behind so many the number of the line is 0
(`lineBehind_eq_zero`).
-/

namespace LangCheck

/-- The lines on which tokens begin and end, in order. -/
def tokenLines (ts : List Token) : List UInt32 :=
  ts.flatMap fun t => [t.span.start.line, t.span.stop.line]

@[simp] lemma tokenLines_cons {t : Token} {ts : List Token} :
    tokenLines (t :: ts) = t.span.start.line :: t.span.stop.line :: tokenLines ts := rfl

@[simp] lemma tokenLines_append {ts us : List Token} :
    tokenLines (ts ++ us) = tokenLines ts ++ tokenLines us := by
  simp [tokenLines]

/-- There is at least the token that ends the input. -/
lemma tokensOf_ne_nil (file : String) (line : UInt32) (fs : List Fragment) :
    tokensOf file line fs ≠ [] := by
  induction fs generalizing line with
  | nil => simp [tokensOf]
  | cons f fs ih =>
    rw [tokensOf]
    rcases f.token? with _ | ⟨kind, text⟩
    · exact ih _
    · exact List.cons_ne_nil _ _

/-- The tokens of some fragments and others behind them: the first ones without the token that ends the
input, and the others from the line on that is reached. -/
lemma tokensOf_append (file : String) (line : UInt32) (fs gs : List Fragment) :
    tokensOf file line (fs ++ gs) =
      (tokensOf file line fs).dropLast ++ tokensOf file (line + newlines (fs.flatMap (·.text))) gs := by
  induction fs generalizing line with
  | nil => simp [tokensOf, newlines]
  | cons f fs ih =>
    have hline : line + newlines ((f :: fs).flatMap (·.text)) =
        line + newlines f.text + newlines (fs.flatMap (·.text)) := by
      rw [newlines, newlines, newlines, List.flatMap_cons, List.count_append, UInt32.ofNat_add,
        UInt32.add_assoc]
    rw [List.cons_append, tokensOf, tokensOf, ih, hline]
    rcases f.token? with _ | ⟨kind, text⟩
    · rfl
    · rw [List.dropLast_cons_of_ne_nil (tokensOf_ne_nil file _ fs), List.cons_append]

/-- The number of the line behind some newlines. -/
def lineBehind (n : Nat) : UInt32 := .ofNat (n + 1)

lemma lineBehind_add_newlines (n : Nat) (s : List Char) :
    lineBehind n + newlines s = lineBehind (n + s.count '\n') := by
  rw [lineBehind, lineBehind, newlines, ← UInt32.ofNat_add]
  congr 1
  omega

lemma toNat_lineBehind {n : Nat} (h : n + 1 < UInt32.size) : (lineBehind n).toNat = n + 1 := by
  rw [lineBehind, UInt32.toNat_ofNat_of_lt' h]

/-- The numbers of lines end with 2^32 - 1, and the next one is 0. -/
lemma lineBehind_eq_zero : lineBehind (UInt32.size - 1) = 0 := rfl

lemma lineBehind_le {m n : Nat} (h : m ≤ n) (hn : n + 1 < UInt32.size) :
    lineBehind m ≤ lineBehind n := by
  rw [lineBehind, lineBehind,
    UInt32.ofNat_le_iff_le (Nat.lt_of_le_of_lt (Nat.succ_le_succ h) hn) hn]
  exact Nat.succ_le_succ h

/-- The tokens of some fragments lie on ascending lines, from the first line to the last. -/
lemma exists_tokenLines_tokensOf (file : String) (fs : List Fragment) : ∀ n : Nat, ∃ ns : List Nat,
    tokenLines (tokensOf file (lineBehind n) fs) = ns.map lineBehind ∧ ns.Pairwise (· ≤ ·) ∧
      ∀ m ∈ ns, n ≤ m ∧ m ≤ n + (fs.flatMap (·.text)).count '\n' := by
  induction fs with
  | nil =>
    intro n
    refine ⟨[n, n], rfl, by simp, ?_⟩
    simp
  | cons f fs ih =>
    intro n
    obtain ⟨ns, hlines, hsorted, hbounds⟩ := ih (n + f.text.count '\n')
    have hbounds' : ∀ m ∈ ns, n ≤ m ∧ m ≤ n + ((f :: fs).flatMap (·.text)).count '\n' := by
      intro m hm
      have := hbounds m hm
      rw [List.flatMap_cons, List.count_append]
      omega
    rw [tokensOf, lineBehind_add_newlines]
    rcases f.token? with _ | ⟨kind, text⟩
    · exact ⟨ns, hlines, hsorted, hbounds'⟩
    · -- a token starts and stops on the line of its fragment
      refine ⟨n :: n :: ns, ?_, ?_, ?_⟩
      · rw [tokenLines_cons, hlines]
        rfl
      · have hfirst : ∀ m ∈ ns, n ≤ m := fun m hm => (hbounds' m hm).1
        simpa [List.pairwise_cons] using ⟨hfirst, hsorted⟩
      · simp only [List.forall_mem_cons]
        exact ⟨⟨Nat.le_refl n, Nat.le_add_right n _⟩, ⟨Nat.le_refl n, Nat.le_add_right n _⟩, hbounds'⟩

/-- The tokens of a text lie on ascending lines, none of them behind more newlines than there are. -/
theorem exists_tokenLines_tokenize (source file : String) : ∃ ns : List Nat,
    tokenLines (tokenize source file) = ns.map lineBehind ∧ ns.Pairwise (· ≤ ·) ∧
      ∀ m ∈ ns, m ≤ source.toList.count '\n' := by
  obtain ⟨ns, hlines, hsorted, hbounds⟩ :=
    exists_tokenLines_tokensOf file (fragments source.toList) 0
  refine ⟨ns, hlines, hsorted, fun m hm => ?_⟩
  have := (hbounds m hm).2
  rwa [flatMap_text_fragments, Nat.zero_add] at this

/-- The numbers of the lines ascend, too, if that of the last line is small enough. -/
lemma pairwise_tokenLines_tokenize {source : String} (file : String)
    (hlines : source.toList.count '\n' + 1 < UInt32.size) :
    (tokenLines (tokenize source file)).Pairwise (· ≤ ·) := by
  obtain ⟨ns, hns, hsorted, hbound⟩ := exists_tokenLines_tokenize source file
  rw [hns, List.pairwise_map]
  refine hsorted.imp_of_mem fun _ hn hmn => lineBehind_le hmn ?_
  exact Nat.lt_of_le_of_lt (Nat.succ_le_succ (hbound _ hn)) hlines

end LangCheck
