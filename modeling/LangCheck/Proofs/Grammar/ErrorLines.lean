import LangCheck.Proofs.Grammar.SyntaxErrors
import LangCheck.Proofs.Source.Lines
import LangCheck.Proofs.Token.Partition

/-!
# The lines that errors show

Lines are counted twice: while a text is cut into tokens, and when the line of an error is looked up.  The two
agree: under the line of a token one finds the line of the text on which it begins, and so an error is shown
with the line on which the token begins that is at fault (`tokenize_lineText`).  Only the last line of 2^32 is
not found again (`lineText_eq_none_behind_blankLines`).
-/

namespace LangCheck

open Grammar

/-! ## The places of tokens -/

/-- The places at which the tokens of some fragments begin, each given by what stands in front of it and what
stands from there on.  The last one is the end of the fragments. -/
def placesOf (past : List Char) : List Fragment → List (List Char × List Char)
  | [] => [(past, [])]
  | f :: fs =>
    let others := placesOf (past ++ f.text) fs
    match f.token? with
    | some _ => (past, (f :: fs).flatMap (·.text)) :: others
    | none => others

/-- The places of a text at which its tokens begin. -/
def tokenPlaces (source : String) : List (List Char × List Char) := placesOf [] (fragments source.toList)

/-- A text begins with a token: with a lexeme of it, or it is empty and the token ends the input. -/
inductive Token.Begins (t : Token) : List Char → Prop
  | lexeme {s : List Char} (h : Reads s (some (t.kind, t.text))) (rest : List Char) : t.Begins (s ++ rest)
  | ending (h : t.kind = .endOfInput) : t.Begins []

/-- A token stands at a place of a text, on the line behind the newlines in front of it. -/
structure Token.StandsAt (t : Token) (source : List Char) (file : String)
    (place : List Char × List Char) : Prop where
  split : place.1 ++ place.2 = source
  begins : t.Begins place.2
  span : t.span = .onLine (lineBehind (place.1.count '\n')) file

/-- The tokens of some fragments stand at their places. -/
lemma forall₂_standsAt (file : String) (fs : List Fragment) : ∀ past : List Char,
    (∀ f ∈ fs, Reads f.text f.token?) →
      List.Forall₂ (fun t place => Token.StandsAt t (past ++ fs.flatMap (·.text)) file place)
        (tokensOf file (lineBehind (past.count '\n')) fs) (placesOf past fs) := by
  induction fs with
  | nil => exact fun past _ => .cons ⟨rfl, .ending rfl, rfl⟩ .nil
  | cons f fs ih =>
    intro past hfs
    obtain ⟨hf, hfs⟩ := List.forall_mem_cons.1 hfs
    have hrest := ih (past ++ f.text) hfs
    rw [List.count_append, ← lineBehind_add_newlines, List.append_assoc] at hrest
    rw [tokensOf, placesOf]
    rcases htoken : f.token? with _ | ⟨kind, text⟩
    · exact hrest
    · rw [htoken] at hf
      exact .cons ⟨rfl, .lexeme hf _, rfl⟩ hrest

/-- The tokens of a text stand at the places at which they begin. -/
lemma forall₂_tokenize (source file : String) :
    List.Forall₂ (fun t place => Token.StandsAt t source.toList file place) (tokenize source file)
      (tokenPlaces source) := by
  have h := forall₂_standsAt file (fragments source.toList) [] fun f => reads_of_mem_fragments
  rwa [List.nil_append, flatMap_text_fragments] at h

lemma exists_standsAt {source file : String} {i : ℕ} {t : Token} (h : (tokenize source file)[i]? = some t) :
    ∃ place, (tokenPlaces source)[i]? = some place ∧ t.StandsAt source.toList file place := by
  obtain ⟨hi, rfl⟩ := List.getElem?_eq_some_iff.1 h
  have hplaces := forall₂_tokenize source file
  have hlength := hplaces.length_eq
  have hi' : i < (tokenPlaces source).length := by omega
  exact ⟨_, List.getElem?_eq_getElem hi', hplaces.get hi hi'⟩

namespace Token.StandsAt

variable {t : Token} {source file : String} {place : List Char × List Char} {text returns : List Char}

lemma count_le (h : t.StandsAt source.toList file place) :
    place.1.count '\n' ≤ source.toList.count '\n' := by
  rw [← h.split, List.count_append]
  exact Nat.le_add_right _ _

lemma line_eq (h : t.StandsAt source.toList file place) : t.span.line = lineBehind (place.1.count '\n') := by
  rw [h.span, Span.line_onLine]

lemma toNat_line (h : t.StandsAt source.toList file place)
    (hlines : source.toList.count '\n' + 1 < UInt32.size) :
    t.span.line.toNat = place.1.count '\n' + 1 := by
  rw [h.line_eq, toNat_lineBehind (Nat.lt_of_le_of_lt (Nat.succ_le_succ h.count_le) hlines)]

/-- Under the line of a token stands the text around its place. -/
lemma lineText_eq (h : t.StandsAt source.toList file place)
    (hlines : source.toList.count '\n' + 1 < UInt32.size) (htext : TextAround place.1 place.2 text returns) :
    lineText source t.span.line = some (String.ofList text) :=
  htext.lineText_eq h.split (h.toNat_line hlines)

end Token.StandsAt

/-! ## Errors -/

/-- An error in a frame with a text, its number in front. -/
def SyntaxError.framed (e : SyntaxError) (path : String) (number : ℕ) (text : List Char) : String :=
  let rim := String.ofList (List.replicate ((toString number).length + 1) ' ') ++ "|"
  String.join ([e.heading, "-> " ++ path, rim, toString number ++ " | " ++ String.ofList (Text.trim text),
    rim].map (· ++ "\n"))

lemma SyntaxError.display_eq {e : SyntaxError} {source : String} {text : List Char} (path : String)
    (h : lineText source e.position.line = some (String.ofList text)) :
    e.display source path = e.framed path e.position.line.toNat text := by
  rw [display, h, Option.getD_some, String.toList_ofList]
  rfl

lemma terminated_tokenize (source file : String) :
    terminated (tokenize source file) file = tokenize source file := by
  have htokens := tokensOf_eq file (fragments source.toList) []
  rw [show lineBehind (Piece.newlines []) = 1 from rfl, ← tokenize] at htokens
  rw [htokens, terminated, List.getLast?_append, List.getLast?_singleton, Option.some_or]
  rfl

namespace Program

/-- The error of a source is about one of its tokens. -/
lemma exists_rejectedAt_tokenize {source file : String} {e : SyntaxError}
    (h : ofSource source file = .error e) : ∃ i t, (tokenize source file)[i]? = some t ∧
      RejectedAt (tokenize source file) file i e ∧ e.Blames t := by
  obtain ⟨c, hrun⟩ := ofTokens_eq_error.1 h
  obtain ⟨ts, hd, -⟩ := exists_decided (r := .error e) hrun (k := 1) (Or.inl Nat.one_pos)
  obtain ⟨htake, hcurrent⟩ := hd.passes.take_terminated
  refine ⟨ts.length, c.current, ?_, ⟨c, hrun, ?_⟩, hd.blames e rfl⟩
  · rwa [terminated_tokenize] at hcurrent
  · rw [htake]
    exact hd.passes

end Program

/-- The lines on which tokens are found are those of the text.  Each token begins at a place of its own, the
token that ends the input at the end.  Under the number of its line one finds what stands between the last
newline in front of this place and the next one behind it, without the carriage returns at the end.  If a
source is rejected, then because of one of its tokens, and the error is shown with the text of the line on
which this token begins. -/
theorem tokenize_lineText (source file : String) (hlines : source.toList.count '\n' + 1 < UInt32.size) :
    List.Forall₂ (fun t place => t.StandsAt source.toList file place ∧
        ∃ text returns, TextAround place.1 place.2 text returns ∧
          lineText source t.span.line = some (String.ofList text))
      (tokenize source file) (tokenPlaces source) ∧
    ∀ e, Program.ofSource source file = .error e → ∃ i t place,
      (tokenize source file)[i]? = some t ∧ (tokenPlaces source)[i]? = some place ∧
      t.StandsAt source.toList file place ∧ Program.RejectedAt (tokenize source file) file i e ∧ e.Blames t ∧
      ∃ text returns, TextAround place.1 place.2 text returns ∧
        lineText source e.position.line = some (String.ofList text) ∧
        ∀ path, e.display source path = e.framed path (place.1.count '\n' + 1) text := by
  constructor
  · refine (forall₂_tokenize source file).imp fun t place h => ⟨h, ?_⟩
    obtain ⟨text, returns, htext⟩ := exists_textAround place.1 place.2
    exact ⟨text, returns, htext, h.lineText_eq hlines htext⟩
  · intro e he
    obtain ⟨i, t, ht, hrejected, hblames⟩ := Program.exists_rejectedAt_tokenize he
    obtain ⟨place, hplace, hstands⟩ := exists_standsAt ht
    obtain ⟨text, returns, htext⟩ := exists_textAround place.1 place.2
    have hposition : e.position.line = t.span.line := by
      rw [hblames.position]
      rfl
    have hline : lineText source e.position.line = some (String.ofList text) := by
      rw [hposition, hstands.lineText_eq hlines htext]
    refine ⟨i, t, place, ht, hplace, hstands, hrejected, hblames, text, returns, htext, hline, fun path => ?_⟩
    rw [SyntaxError.display_eq path hline, hposition, hstands.toNat_line hlines]

/-- Behind 2^32 - 1 newlines a token stands on line 0.  Under this number nothing is found, although the text
around the token is the token itself, and an error about it is shown with an empty line. -/
theorem lineText_eq_none_behind_blankLines :
    let past := blankLines (UInt32.size - 1)
    let source := past ++ "+"
    source.toList.count '\n' < UInt32.size ∧
    tokenize source interactiveFile =
      [⟨.plus, "+", .onLine 0 interactiveFile⟩, .endOfInput 0 interactiveFile] ∧
    TextAround past.toList ['+'] ['+'] [] ∧ lineText source 0 = none ∧
    ∃ e, Program.ofSource source interactiveFile = .error e ∧ lineText source e.position.line = none ∧
      ∀ path, e.display source path = e.framed path 0 [] := by
  intro past source
  have hcount : source.toList.count '\n' = UInt32.size - 1 := by
    rw [String.toList_append, List.count_append, count_blankLines]
    rfl
  have htokens : tokenize source interactiveFile =
      [⟨.plus, "+", .onLine 0 interactiveFile⟩, .endOfInput 0 interactiveFile] := by
    rw [tokenize_blankLines_append, tokensBehind, lineBehind_eq_zero]
    decide +kernel
  have hline : LineAround past.toList ['+'] ['+'] := by
    refine ⟨[], ['+'], rfl, by decide, Or.inr ⟨(blankLines (UInt32.size - 2)).toList, ?_⟩, Or.inl rfl⟩
    exact (congrArg String.toList (blankLines_succ (UInt32.size - 2))).trans String.toList_append
  have hnone : lineText source 0 = none := if_pos rfl
  refine ⟨by rw [hcount]; decide, htokens, ⟨hline, by simp, by decide⟩, hnone, ?_⟩
  have hrejected : ((Program.ofTokens [⟨.plus, "+", .onLine 0 interactiveFile⟩,
      .endOfInput 0 interactiveFile] interactiveFile).map fun _ => ()).mapError (·.position.line) =
        .error 0 := by
    decide
  obtain ⟨e, h, hposition⟩ := Program.exists_eq_error_of_mapError hrejected
  refine ⟨e, by rw [Program.ofSource, htokens, h], by rw [hposition, hnone], fun path => ?_⟩
  rw [SyntaxError.display, hposition, hnone]
  rfl

/-- A text with returns at the ends of its lines, in which a statement goes on behind a comment of two lines. -/
def brokenLine : String := "int f() \x7b\r\n  return 1 /*\r\n */ + ;  \r\n\x7d"

/-- The statement is shown with its last line. -/
theorem tokenize_lineText_brokenLine : brokenLine.toList.count '\n' + 1 < UInt32.size ∧
    ∃ e, Program.ofSource brokenLine "" = .error e ∧
      e.display brokenLine "b" = "Error: UnexpectedToken (Unexpected token: `;`, did you miss a semicolon?)\n" ++
        "-> b\n  |\n3 | */ + ;\n  |\n" ∧
      ∃ t place text returns, t.StandsAt brokenLine.toList "" place ∧ e.Blames t ∧
        TextAround place.1 place.2 text returns ∧
        lineText brokenLine e.position.line = some (String.ofList text) := by
  have hlines : brokenLine.toList.count '\n' + 1 < UInt32.size := by decide
  have hshown : ((Program.ofSource brokenLine "").map fun _ => ()).mapError (·.display brokenLine "b") =
      .error ("Error: UnexpectedToken (Unexpected token: `;`, did you miss a semicolon?)\n" ++
        "-> b\n  |\n3 | */ + ;\n  |\n") := by
    decide +kernel
  obtain ⟨e, h, hdisplay⟩ := Program.exists_eq_error_of_mapError hshown
  obtain ⟨i, t, place, -, -, hstands, -, hblames, text, returns, htext, hline, -⟩ :=
    (tokenize_lineText brokenLine "" hlines).2 e h
  exact ⟨hlines, e, h, hdisplay, t, place, text, returns, hstands, hblames, htext, hline⟩

end LangCheck
