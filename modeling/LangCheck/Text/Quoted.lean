import LangCheck.Text.Printable

/-!
# Quoted texts

A text is shown in quotes with escapes, so that it fits on one line and every character of it can be
told apart.  A string literal of the source is read with a smaller set of escapes.
-/

namespace LangCheck.Text

/-- The letter that stands for a character behind a backslash, for the characters that have one. -/
def escapeLetter? : Char → Option Char
  | '\x00' => some '0'
  | '\t' => some 't'
  | '\n' => some 'n'
  | '\r' => some 'r'
  | '\\' => some '\\'
  | '"' => some '"'
  | _ => none

/-- The character that a letter stands for behind a backslash. -/
def ofEscapeLetter? : Char → Option Char
  | '0' => some '\x00'
  | 't' => some '\t'
  | 'n' => some '\n'
  | 'r' => some '\r'
  | '\\' => some '\\'
  | '"' => some '"'
  | _ => none

/-- The lower-case hexadecimal digits of a code point, without leading zeros. -/
def hexDigits (code : Nat) : List Char := Nat.toDigits 16 code

/-- A character inside a quoted text: a letter behind a backslash, the character itself if it has a
visible form, or else its code point between braces. -/
def quoteChar (c : Char) : List Char :=
  match escapeLetter? c with
  | some letter => ['\\', letter]
  | none => if isShown c then [c] else ['\\', 'u', '{'] ++ hexDigits c.toNat ++ ['}']

/-- The text in quotes, with escapes. -/
def quote (s : String) : String :=
  String.ofList ('"' :: s.toList.flatMap quoteChar ++ ['"'])

/-- The text that a string literal denotes, given what stands between its quotes.  A backslash
before a letter that denotes nothing stays as it is. -/
def unescape : List Char → List Char
  | '\\' :: c :: cs =>
    match ofEscapeLetter? c with
    | some d => d :: unescape cs
    | none => '\\' :: unescape (c :: cs)
  | c :: cs => c :: unescape cs
  | [] => []

/-- Reading a letter gives back the character that it was written for. -/
theorem ofEscapeLetter?_of_escapeLetter? {c d : Char} (h : escapeLetter? c = some d) :
    ofEscapeLetter? d = some c := by
  unfold escapeLetter? at h
  split at h <;> cases h <;> rfl

end LangCheck.Text
