import Tuplet.Position

/-!
# Errors and what is told of them

An error is a cause: a value that says what went wrong. Its category and its
message are functions of it. A remark is a line for a reader, at a place. It is
made for an error where the error comes up, and for a construct when an error
leaves it; the construct's remark has the category of the error. Remarks are
written to a log, which only grows, and a step that gives up hands its error on
beside the log. That the two agree is up to the steps.
-/

namespace Tuplet

/-- The kinds of things that can go wrong. -/
inductive Category where
  | grammar | unresolvedName | redeclaration | arity | unsupportedOperator | type
  | verification | backend | trap
  deriving DecidableEq, Repr

namespace Category

/-- The name of a category in a diagnostic. -/
def label : Category → String
  | grammar => "SyntaxError"
  | unresolvedName => "NameError"
  | redeclaration => "RedeclarationError"
  | arity => "ArityError"
  | unsupportedOperator => "OperatorError"
  | type => "TypeError"
  | verification => "VerificationError"
  | backend => "BackendError"
  | trap => "Trap"

end Category

/-- Values that say what went wrong. -/
class Fault (ε : Type) where
  category : ε → Category
  message : ε → String

/-- An error as a category and a message. -/
def Fault.render {ε : Type} [Fault ε] (error : ε) : String :=
  (Fault.category error).label ++ ": " ++ Fault.message error

/-- Constructs that an error can happen inside. -/
class Context (κ : Type) where
  message : κ → String

/-- A line that tells a reader of an error, at a place. -/
structure Remark (π : Type) where
  position : π
  category : Category
  message : String
  deriving DecidableEq, Repr

namespace Remark

variable {π ρ ε κ : Type} [Fault ε] [Context κ]

/-- What is told of an error. -/
def ofError (position : π) (error : ε) : Remark π :=
  ⟨position, Fault.category error, Fault.message error⟩

/-- What is told of a construct that an error has come up inside. -/
def ofContext (position : π) (error : ε) (context : κ) : Remark π :=
  ⟨position, Fault.category error, Context.message context⟩

/-- Changes the place of a remark. -/
def locate (place : π → ρ) (remark : Remark π) : Remark ρ :=
  { remark with position := place remark.position }

end Remark

/-- A remark at a position of a source text. -/
abbrev Diagnostic := Remark Position

namespace Diagnostic

/-- A diagnostic as text. -/
def render (diagnostic : Diagnostic) : String :=
  diagnostic.position.render ++ ": " ++ diagnostic.category.label ++ ": " ++ diagnostic.message

end Diagnostic

end Tuplet
