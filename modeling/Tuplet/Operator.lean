/-!
# Operators and primitive types

The closed vocabularies that tokens, syntax trees and lowering share: the seven
binary operators with their binding strength, and the four primitive types.
-/

namespace Tuplet

/-- A binary operator of the source language. -/
inductive Operator where
  | add | sub | mul | div | mod | exp | root
  deriving DecidableEq, Repr

namespace Operator

/-- How an operator is written in source text. -/
def symbol : Operator → String
  | add => "+"
  | sub => "-"
  | mul => "*"
  | div => "/"
  | mod => "%"
  | exp => "^"
  | root => "¬/"

/-- How strongly an operator binds; no two operators bind equally strongly. -/
def precedence : Operator → Nat
  | add => 8
  | sub => 7
  | mul => 9
  | div => 11
  | mod => 10
  | exp => 13
  | root => 12

/-- Every operator once. -/
def all : List Operator := [add, sub, mul, div, mod, exp, root]

/-- The operator written as `text`. -/
def ofSymbol? (text : String) : Option Operator :=
  all.find? (·.symbol == text)

end Operator

/-- A type that source text can name without a declaration. -/
inductive Primitive where
  | int | float | string | void
  deriving DecidableEq, Repr

namespace Primitive

/-- The keyword of a primitive type. -/
def name : Primitive → String
  | int => "int"
  | float => "float"
  | string => "string"
  | void => "void"

/-- Every primitive type once. -/
def all : List Primitive := [int, float, string, void]

/-- The primitive type called `name`. -/
def ofName? (name : String) : Option Primitive :=
  all.find? (·.name == name)

end Primitive

end Tuplet
