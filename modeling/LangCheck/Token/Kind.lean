/-!
# Kinds of tokens

A kind tells what a token is to the grammar.  The reserved words and the symbols are kinds with a
fixed spelling; the two tables of spellings below are what the lexer reads them from.
-/

namespace LangCheck

/-- What a token is to the grammar. -/
inductive Kind where
  /-- The end of the input. -/
  | endOfInput
  /-- A malformed fragment, kept as a token for the parser to reject. -/
  | malformed
  | number
  | text
  | name
  | openBrace | closeBrace | openParen | closeParen
  | assign | equal | not | notEqual
  | less | lessEqual | greater | greaterEqual
  | or | and
  | semicolon | comma
  | plusPlus | minusMinus
  | plusAssign | minusAssign | starAssign | slashAssign | percentAssign
  | plus | minus | slash | star | percent
  | constWord | ifWord | elseWord | whileWord | forWord | returnWord | trueWord | falseWord
  | intWord | floatWord | doubleWord | stringWord | boolWord | voidWord
deriving DecidableEq, Repr, Inhabited

namespace Kind

/-- The word by which token listings call a kind. -/
def label : Kind → String
  | endOfInput => "EOF"
  | malformed => "ERROR"
  | number => "NUMBER"
  | text => "STRING"
  | name => "IDENTIFIER"
  | openBrace => "OPENCURLY"
  | closeBrace => "CLOSECURLY"
  | openParen => "OPENPAREN"
  | closeParen => "CLOSEPAREN"
  | assign => "ASSIGNMENT"
  | equal => "EQUALS"
  | not => "NOT"
  | notEqual => "NOTEQUALS"
  | less => "LESS"
  | lessEqual => "LESSEQUALS"
  | greater => "GREATER"
  | greaterEqual => "GREATEREQUALS"
  | or => "OR"
  | and => "AND"
  | semicolon => "SEMICOLON"
  | comma => "COMMA"
  | plusPlus => "PLUSPLUS"
  | minusMinus => "MINUSMINUS"
  | plusAssign => "PLUSEQUALS"
  | minusAssign => "MINUSEQUALS"
  | starAssign => "STAREQUALS"
  | slashAssign => "SLASHEQUALS"
  | percentAssign => "PERCENTEQUALS"
  | plus => "PLUS"
  | minus => "DASH"
  | slash => "SLASH"
  | star => "STAR"
  | percent => "PERCENT"
  | constWord => "CONST"
  | ifWord => "IF"
  | elseWord => "ELSE"
  | whileWord => "WHILE"
  | forWord => "FOR"
  | returnWord => "RETURN"
  | trueWord => "TRUE"
  | falseWord => "FALSE"
  | intWord => "INTTYPE"
  | floatWord => "FLOATTYPE"
  | doubleWord => "DOUBLETYPE"
  | stringWord => "STRINGTYPE"
  | boolWord => "BOOLTYPE"
  | voidWord => "VOIDTYPE"

/-- Whether the kind is a word that names a type. -/
def isTypeWord : Kind → Bool
  | intWord | floatWord | doubleWord | stringWord | boolWord | voidWord => true
  | _ => false

/-- The reserved words. -/
def reservedWords : List (String × Kind) :=
  [("const", constWord), ("if", ifWord), ("else", elseWord), ("while", whileWord),
    ("for", forWord), ("return", returnWord), ("true", trueWord), ("false", falseWord),
    ("int", intWord), ("float", floatWord), ("double", doubleWord), ("string", stringWord),
    ("bool", boolWord), ("void", voidWord)]

/-- The symbols, each after every symbol that it begins. -/
def symbols : List (String × Kind) :=
  [("\x7b", openBrace), ("\x7d", closeBrace), ("(", openParen), (")", closeParen),
    ("==", equal), ("!=", notEqual), ("!", not), ("=", assign),
    ("<=", lessEqual), ("<", less), (">=", greaterEqual), (">", greater),
    ("||", or), ("&&", and), (";", semicolon), (",", comma),
    ("++", plusPlus), ("--", minusMinus), ("+=", plusAssign), ("-=", minusAssign),
    ("*=", starAssign), ("/=", slashAssign), ("%=", percentAssign),
    ("+", plus), ("-", minus), ("/", slash), ("*", star), ("%", percent)]

/-- The kind of a word: that of the reserved word, or else a name. -/
def ofWord (word : String) : Kind := (reservedWords.lookup word).getD name

end Kind

end LangCheck
