import Tuplet.Token.Lexeme

/-!
# Names and literals

The shape rules on token texts that the grammar asks for. They are stricter
than the lexical rules because token sequences need not come from a scanner.
-/

namespace Tuplet

/--
Whether a text is a name of the language: a letter or underscore, then letters, digits and
underscores.
-/
def isValidName (text : String) : Bool :=
  match text.toList with
  | [] => false
  | first :: rest => isNameStart first && rest.all isNamePart

/-- Whether a text names a reference: something followed by the reference marker. -/
def isReferenceName (text : String) : Bool :=
  match text.toList with
  | [] | [_] => false
  | _ :: rest => rest.getLast? = some '\''

/-- Whether a token can name a type that values have. -/
def Token.isTypeName (token : Token) : Bool :=
  match token.kind with
  | .primitive type => type ≠ .void
  | .name => isValidName token.text
  | _ => false

/-- The type that a token names. -/
def Token.typeName (token : Token) : String :=
  match token.kind with
  | .primitive type => type.name
  | _ => token.text

/-- The number that a sequence of decimal digits spells. -/
def digitsValue (digits : List Char) : Nat :=
  digits.foldl (fun value digit => 10 * value + (digit.toNat - '0'.toNat)) 0

/-- The number that one or more decimal digits and nothing else spell. -/
def natLiteral? (digits : List Char) : Option Nat :=
  if digits ≠ [] ∧ digits.all Char.isDigit then some (digitsValue digits) else none

/-- A number as a 32-bit integer, if it is in range. -/
def toInt32? (value : Int) : Option Int32 :=
  if -2147483648 ≤ value ∧ value ≤ 2147483647 then some (Int32.ofInt value) else none

/-- The value of an integer literal: at most one minus sign, then digits, within 32 bits. -/
def intLiteral? (text : String) : Option Int32 :=
  match text.toList with
  | '-' :: digits => (natLiteral? digits).bind fun value => toInt32? (-value)
  | digits => (natLiteral? digits).bind fun value => toInt32? value

end Tuplet
