import Tuplet.Token.Basic

/-!
# Lexemes

The lexical rules: which piece of text stands at the front of a non-empty
source. A piece is either a gap (white space or a comment) or the text of a
token. The rules only say how long the piece is and of which kind; cutting it
off is left to the scanner, so nothing can be lost between two pieces.

An opened comment or string that is never closed is one invalid piece that
reaches to the end of the source.
-/

namespace Tuplet

/-- Whether a character is white space. -/
def isBlank (char : Char) : Bool :=
  char = ' ' || char = '\r' || char = '\n' || char = '\t' || char = '\x0c'

/-- Whether a character may start a name. -/
def isNameStart (char : Char) : Bool := char.isAlpha || char = '_'

/-- Whether a character may continue a name. -/
def isNamePart (char : Char) : Bool := char.isAlphanum || char = '_'

/-- The kind and length of the piece at the front of a source. -/
structure Lexeme where
  /-- The kind of the token, or nothing for a gap. -/
  kind : Option TokenKind
  /-- How many characters belong to the piece besides its first one. -/
  extra : Nat
  deriving DecidableEq, Repr

namespace Lexeme

/-- A piece that is skipped. -/
def gap (extra : Nat) : Lexeme := ⟨none, extra⟩

/-- A piece that becomes a token. -/
def token (kind : TokenKind) (extra : Nat) : Lexeme := ⟨some kind, extra⟩

/-- How many characters a block comment has behind its opening, if it is closed. -/
def commentLength? : List Char → Option Nat
  | [] => none
  | '*' :: '/' :: _ => some 2
  | _ :: rest => (commentLength? rest).map (· + 1)

/-- How many characters a string has behind its opening quote, if it is closed. -/
def stringLength? : List Char → Option Nat
  | [] => none
  | '"' :: _ => some 1
  | _ :: rest => (stringLength? rest).map (· + 1)

/-- The kind of a word: a keyword, or a name. -/
def ofWord (word : List Char) : TokenKind :=
  if word = "return".toList then .returnWord
  else if word = "void".toList then .primitive .void
  else if word = "float".toList then .primitive .float
  else if word = "int".toList then .primitive .int
  else if word = "string".toList then .primitive .string
  else if word = "int'".toList then .intReference
  else .name

/-- A word: name characters and at most one reference marker behind them. -/
def word (first : Char) (rest : List Char) : Lexeme :=
  let body := rest.takeWhile isNamePart
  match rest.drop body.length with
  | '\'' :: _ => token (ofWord (first :: body ++ ['\''])) (body.length + 1)
  | _ => token (ofWord (first :: body)) body.length

/-- A number that starts with a digit: a float if a point and a digit follow its digits. -/
def number (rest : List Char) : Lexeme :=
  let whole := (rest.takeWhile Char.isDigit).length
  match rest.drop whole with
  | '.' :: fraction =>
      match (fraction.takeWhile Char.isDigit).length with
      | 0 => token .intLiteral whole
      | places => token .floatLiteral (whole + 1 + places)
  | _ => token .intLiteral whole

/-- A piece that starts with a point: a float if a digit follows. -/
def point (rest : List Char) : Lexeme :=
  match (rest.takeWhile Char.isDigit).length with
  | 0 => token .invalid 0
  | places => token .floatLiteral places

/-- A piece that starts with a slash: a comment or the division operator. -/
def slash (rest : List Char) : Lexeme :=
  match rest with
  | '/' :: comment => gap (1 + (comment.takeWhile (· ≠ '\n')).length)
  | '*' :: comment =>
      match commentLength? comment with
      | some length => gap (1 + length)
      | none => token .invalid rest.length
  | _ => token (.operator .div) 0

/-- A piece that starts with a quote: a string, or all there is. -/
def quote (rest : List Char) : Lexeme :=
  match stringLength? rest with
  | some length => token .stringLiteral length
  | none => token .invalid rest.length

/-- A piece that starts with anything else: punctuation, an operator or one invalid character. -/
def mark (first : Char) (rest : List Char) : Lexeme :=
  match first, rest with
  | '\'', '=' :: _ => token .assignReference 1
  | '¬', '/' :: _ => token (.operator .root) 1
  | ',', _ => token .comma 0
  | ';', _ => token .semicolon 0
  | '=', _ => token .assign 0
  | '+', _ => token (.operator .add) 0
  | '-', _ => token (.operator .sub) 0
  | '*', _ => token (.operator .mul) 0
  | '%', _ => token (.operator .mod) 0
  | '^', _ => token (.operator .exp) 0
  | '\x7b', _ => token .braceOpen 0
  | '\x7d', _ => token .braceClose 0
  | '(', _ => token .parenOpen 0
  | ')', _ => token .parenClose 0
  | _, _ => token .invalid 0

/-- The piece at the front of the source `first :: rest`. -/
def read (first : Char) (rest : List Char) : Lexeme :=
  if isBlank first then gap (rest.takeWhile isBlank).length
  else if isNameStart first then word first rest
  else if first.isDigit then number rest
  else if first = '.' then point rest
  else if first = '/' then slash rest
  else if first = '"' then quote rest
  else mark first rest

end Lexeme

end Tuplet
