import LangCheck.Proofs.Token.Written
import LangCheck.Source.Scanner

/-!
# The partition of a text into gaps and lexemes

A text is cut into pieces, and each piece is a gap or the lexeme of one token.  The main result
(`tokenize_partition`) says that nothing is lost and nothing is added: the pieces, in order, are the text,
and the tokens are those of the pieces, each on the line behind the newlines in front of its lexeme.  The
number of this line is one more than that of the newlines, as long as they are fewer than 2^32 - 1; the next
line has no number of its own (`tokenize_blankLines_wraps`).
-/

namespace LangCheck

/-- A piece of a text: its characters, and the kind and the text of the token that it is, if it is one. -/
structure Piece where
  /-- The characters of the piece. -/
  text : List Char
  /-- The token of which the piece is the lexeme. -/
  token? : Option (Kind × String)

namespace Piece

/-- The text that some pieces make. -/
def join (ps : List Piece) : List Char := ps.flatMap (·.text)

/-- The number of newlines in some pieces. -/
def newlines (ps : List Piece) : ℕ := (join ps).count '\n'

/-- The token of a piece, on the line behind the newlines of the pieces before it. -/
def tokens (file : String) (past : List Piece) (p : Piece) : List Token :=
  p.token?.toList.map fun token => ⟨token.1, token.2, .onLine (lineBehind (newlines past)) file⟩

lemma join_append (ps qs : List Piece) : join (ps ++ qs) = join ps ++ join qs := List.flatMap_append

lemma newlines_append (ps qs : List Piece) : newlines (ps ++ qs) = newlines ps + newlines qs := by
  rw [newlines, join_append, List.count_append, newlines, newlines]

end Piece

/-- A fragment as a piece. -/
def Fragment.piece (f : Fragment) : Piece := ⟨f.text, f.token?⟩

lemma join_map_piece (fs : List Fragment) :
    Piece.join (fs.map Fragment.piece) = fs.flatMap (·.text) := List.flatMap_map ..

/-! ## Tokens -/

/-- The tokens of some fragments are those of the pieces that they are. -/
lemma tokensOf_eq (file : String) (fs : List Fragment) (past : List Piece) :
    tokensOf file (lineBehind (Piece.newlines past)) fs =
      flatMapPast (Piece.tokens file) past (fs.map Fragment.piece) ++
        [.endOfInput (lineBehind (Piece.newlines (past ++ fs.map Fragment.piece))) file] := by
  induction fs generalizing past with
  | nil => simp [tokensOf]
  | cons f fs ih =>
    have hnext : lineBehind (Piece.newlines past) + newlines f.text =
        lineBehind (Piece.newlines (past ++ [f.piece])) := by
      rw [lineBehind_add_newlines, Piece.newlines_append]
      congr 2
      simp [Piece.newlines, Piece.join, Fragment.piece]
    rw [tokensOf, hnext, ih, List.map_cons, flatMapPast_cons, List.append_cons, List.append_assoc,
      List.append_assoc]
    rcases hf : f.token? with _ | token <;> simp [Piece.tokens, Fragment.piece, hf]

/-! ## Places -/

/-- The length of a text in bytes. -/
def byteLength : List Char → ℕ
  | [] => 0
  | c :: s => c.utf8Size + byteLength s

/-- A text is split behind a part of it by the length of this part. -/
lemma splitBytes_append (s rest : List Char) :
    Scanner.splitBytes (byteLength s) (s ++ rest) = some (s, rest) := by
  induction s with
  | nil => simp [byteLength, Scanner.splitBytes]
  | cons c s ih =>
    obtain ⟨n, hn⟩ := Nat.exists_eq_add_one_of_ne_zero (Nat.ne_of_gt c.utf8Size_pos)
    have hlength : byteLength (c :: s) = n + byteLength s + 1 := by
      rw [byteLength, hn]
      omega
    have hrest : n + byteLength s + 1 - c.utf8Size = byteLength s := by omega
    rw [hlength, List.cons_append, Scanner.splitBytes, if_neg (by omega), hrest, ih]
    rfl

lemma advance?_start {source file : String} {past rest : List Char}
    (hsource : source.toList = past ++ rest) :
    (Scanner.start source file).advance? (byteLength past) =
      some ⟨rest, lineBehind (past.count '\n'), file⟩ := by
  have hline : (1 : UInt32) + newlines past = lineBehind (past.count '\n') := by
    rw [show (1 : UInt32) = lineBehind 0 from rfl, lineBehind_add_newlines, Nat.zero_add]
  rw [Scanner.advance?, Scanner.start, hsource, splitBytes_append, Option.map_some, ← hline]

/-- A text is cut into pieces without a loss, and its tokens are those of the pieces, behind them the token
that ends the input.  Each piece is a gap or the lexeme of a token other than that.  A scanner that has
passed some pieces stands in front of the next one, and on the line on which the token of that one starts
and stops.  The number of this line is one more than that of the newlines passed. -/
theorem tokenize_partition (source file : String) (hlines : source.toList.count '\n' + 1 < UInt32.size) :
    ∃ pieces : List Piece,
      Piece.join pieces = source.toList ∧
      (∀ p ∈ pieces, p.text ≠ [] ∧ Reads p.text p.token? ∧
        ∀ token ∈ p.token?, token.1 ≠ .endOfInput) ∧
      tokenize source file = flatMapPast (Piece.tokens file) [] pieces ++
        [.endOfInput (lineBehind (source.toList.count '\n')) file] ∧
      (∀ past rest, pieces = past ++ rest →
        (Scanner.start source file).advance? (byteLength (Piece.join past)) =
          some ⟨Piece.join rest, lineBehind (Piece.newlines past), file⟩) ∧
      ∀ n ≤ source.toList.count '\n', (lineBehind n).toNat = n + 1 := by
  have hjoin : Piece.join ((fragments source.toList).map Fragment.piece) = source.toList := by
    rw [join_map_piece, flatMap_text_fragments]
  refine ⟨(fragments source.toList).map Fragment.piece, hjoin, ?_, ?_, ?_, ?_⟩
  · intro p hp
    obtain ⟨f, hf, rfl⟩ := List.mem_map.1 hp
    have hreads : Reads f.text f.token? := reads_of_mem_fragments hf
    refine ⟨hreads.ne_nil, hreads, fun token htoken => ?_⟩
    have hsome : f.token? = some token := htoken
    rw [hsome] at hreads
    exact hreads.kind_ne
  · have htokens := tokensOf_eq file (fragments source.toList) []
    rw [List.nil_append, Piece.newlines, Piece.newlines, hjoin] at htokens
    exact htokens
  · intro past rest hpieces
    refine advance?_start ?_
    rw [← hjoin, hpieces, Piece.join_append]
  · intro n hn
    exact toNat_lineBehind (Nat.lt_of_le_of_lt (Nat.succ_le_succ hn) hlines)

/-- One newline more is too many: behind 2^32 - 1 of them the input ends on line 0. -/
theorem tokenize_blankLines_wraps :
    (blankLines (UInt32.size - 1)).toList.count '\n' < UInt32.size ∧
    tokenize (blankLines (UInt32.size - 1)) interactiveFile = [.endOfInput 0 interactiveFile] ∧
    (0 : UInt32).toNat ≠ (blankLines (UInt32.size - 1)).toList.count '\n' + 1 := by
  rw [count_blankLines, tokenize_blankLines, lineBehind_eq_zero]
  exact ⟨by decide, rfl, by decide⟩

/-- A text with gaps of all kinds, a string literal with an escape and a backslash that is none, and a
spoiled number. -/
def scraps : String := "x=\"a\\tb\\c\" // d\n/* e\n */ 12ab"

/-- Its pieces make the text again, and its tokens are theirs: the backslash that is no escape is kept, and
the comment of two lines only moves the spoiled number and the end down. -/
theorem tokenize_partition_scraps :
    (tokenize scraps interactiveFile).map (fun t => (t.kind, t.text, t.span.line)) =
      [(.name, "x", 1), (.assign, "=", 1), (.text, "a\tb\\c", 1), (.malformed, "12ab", 3),
        (.endOfInput, "EOF", 3)] ∧
    ∃ pieces : List Piece, Piece.join pieces = scraps.toList ∧
      (∀ p ∈ pieces, p.text ≠ [] ∧ Reads p.text p.token?) ∧
      tokenize scraps interactiveFile = flatMapPast (Piece.tokens interactiveFile) [] pieces ++
        [.endOfInput 3 interactiveFile] ∧
      ∀ n ≤ 2, (lineBehind n).toNat = n + 1 := by
  obtain ⟨pieces, hjoin, hreads, htokens, -, hnumber⟩ :=
    tokenize_partition scraps interactiveFile (by decide)
  exact ⟨by decide +kernel, pieces, hjoin, fun p hp => ⟨(hreads p hp).1, (hreads p hp).2.1⟩, htokens,
    hnumber⟩

end LangCheck
