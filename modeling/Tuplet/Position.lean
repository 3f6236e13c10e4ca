/-!
# Positions

A position counts lines from one and columns from zero; a column is a number of
characters since the last line break.
-/

namespace Tuplet

/-- A place in a source text. -/
structure Position where
  line : Nat
  column : Nat
  deriving DecidableEq, Repr

namespace Position

/-- Where every source text starts. -/
def start : Position := ⟨1, 0⟩

/-- The position of what has no place in a source text. -/
def nowhere : Position := ⟨0, 0⟩

/-- The position behind a character. -/
def next (position : Position) (char : Char) : Position :=
  if char = '\n' then ⟨position.line + 1, 0⟩ else ⟨position.line, position.column + 1⟩

/-- The position behind a piece of text. -/
def after (position : Position) (text : List Char) : Position :=
  text.foldl next position

@[simp]
theorem after_nil (position : Position) : position.after [] = position := rfl

@[simp]
theorem after_cons (position : Position) (char : Char) (text : List Char) :
    position.after (char :: text) = (position.next char).after text := rfl

theorem after_append (position : Position) (left right : List Char) :
    position.after (left ++ right) = (position.after left).after right := by
  simp [after, List.foldl_append]

/-- A position as line and column. -/
def render (position : Position) : String :=
  toString position.line ++ ":" ++ toString position.column

end Position

end Tuplet
