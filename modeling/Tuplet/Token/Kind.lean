import Tuplet.Operator

/-!
# Token kinds

Operators and type keywords carry the operator or the primitive type they stand
for, so a reader of tokens never has to look a meaning up again.
-/

namespace Tuplet

/-- What a token is. -/
inductive TokenKind where
  | returnWord
  | comma
  | semicolon
  | assign
  | assignReference
  | operator (op : Operator)
  | braceOpen
  | braceClose
  | parenOpen
  | parenClose
  | floatLiteral
  | intLiteral
  | stringLiteral
  | primitive (type : Primitive)
  | intReference
  | name
  | invalid
  | endOfInput
  deriving DecidableEq, Repr

namespace TokenKind

/-- The label a kind has in a token listing. -/
def label : TokenKind → String
  | returnWord => "Return"
  | comma => "Comma"
  | semicolon => "Semicolon"
  | assign => "AssignVal"
  | assignReference => "AssignRef"
  | operator .add => "Add"
  | operator .sub => "Sub"
  | operator .mul => "Mul"
  | operator .div => "Div"
  | operator .mod => "Mod"
  | operator .exp => "Exp"
  | operator .root => "Root"
  | braceOpen => "BraceOpen"
  | braceClose => "BraceClose"
  | parenOpen => "ParenOpen"
  | parenClose => "ParenClose"
  | floatLiteral => "LitFloat"
  | intLiteral => "LitInt"
  | stringLiteral => "LitString"
  | primitive .void => "TypeVoid"
  | primitive .float => "TypeFloat"
  | primitive .int => "TypeInt"
  | primitive .string => "TypeString"
  | intReference => "TypeIntRef"
  | name => "Name"
  | invalid => "Invalid"
  | endOfInput => "End"

/-- How an error message speaks of a kind: quoted source text where there is only one. -/
def describe : TokenKind → String
  | returnWord => "'return'"
  | comma => "','"
  | semicolon => "';'"
  | assign => "'='"
  | assignReference => "''='"
  | operator op => "'" ++ op.symbol ++ "'"
  | braceOpen => "'\x7b'"
  | braceClose => "'\x7d'"
  | parenOpen => "'('"
  | parenClose => "')'"
  | floatLiteral => "float literal"
  | intLiteral => "int literal"
  | stringLiteral => "string literal"
  | primitive type => "'" ++ type.name ++ "'"
  | intReference => "'int''"
  | name => "name"
  | invalid => "invalid token"
  | endOfInput => "end of input"

/-- Every kind once. -/
def all : List TokenKind :=
  [returnWord, comma, semicolon, assign, assignReference] ++ Operator.all.map operator ++
    [braceOpen, braceClose, parenOpen, parenClose, floatLiteral, intLiteral, stringLiteral] ++
    Primitive.all.map primitive ++ [intReference, name, invalid, endOfInput]

/-- The kind that `label` stands for in a token listing. -/
def ofLabel? (label : String) : Option TokenKind :=
  all.find? (·.label == label)

/-- The operator a token of this kind is, if it is one. -/
def operator? : TokenKind → Option Operator
  | operator op => some op
  | _ => none

/-- Whether a token of this kind is a literal. -/
def isLiteral : TokenKind → Bool
  | floatLiteral | intLiteral | stringLiteral => true
  | _ => false

end TokenKind

end Tuplet
