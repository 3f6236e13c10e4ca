import Tuplet.Syntax.Expression

/-!
# Reading statements

A statement is a return, a call, a declaration, an assignment, or a declaration
with an assignment in one. What it is shows at its second token at the latest.
Reference variables are recognised wherever they could stand, and refused.
-/

namespace Tuplet

namespace Grammar

/-- The value of an assignment behind its sign. -/
def assignedValue (target : Target) (tokens : List Token) : Reading tokens.length Node :=
  ((expression tokens).inside .assignedValue).map (.assign target)

/-- What may follow a declared name: a value, or nothing. -/
def declared (declaration : Declaration) (tokens : List Token) :
    Reading (tokens.length + 1) Node :=
  match tokens with
  | ⟨.assign, _, _⟩ :: rest => (assignedValue (.decl declaration) rest).behind.orNothing
  | ⟨.assignReference, text, position⟩ :: rest =>
      .fail .referenceUnsupported (⟨.assignReference, text, position⟩ :: rest)
  | tokens => .stay (.decl declaration) tokens

/-- What may follow a type or name that starts a statement. -/
def startedBy (first : Token) (tokens : List Token) : Reading (tokens.length + 1) Node :=
  match tokens with
  | [] => .fail .expectedAssignment []
  | second :: rest =>
      match second.kind with
      | .parenOpen =>
          if first.kind = .name then
            ((arguments rest).map (.call first.text)).behind.orNothing
          else .fail .expectedAssignment (second :: rest)
      | .name =>
          if isReferenceName second.text then .fail .referenceUnsupported (second :: rest)
          else (declared ⟨second.text, first.typeName⟩ rest).orNothing
      | .assign =>
          if first.kind = .name then
            (assignedValue (.var ⟨first.text, none⟩) rest).behind.orNothing
          else .fail (.assignmentToType first.text) (second :: rest)
      | .assignReference => .fail .referenceUnsupported (second :: rest)
      | _ => .fail .expectedAssignment (second :: rest)

/-- One or more returned values and the semicolon that ends them. -/
def returnedValues (tokens : List Token) : Reading tokens.length (List Node) :=
  ((expression tokens).inside .returnedValue).andThen fun first rest _ =>
    match rest with
    | ⟨.comma, _, _⟩ :: rest => ((returnedValues rest).map fun others => first :: others).behind
    | ⟨.semicolon, _, _⟩ :: rest => .take [first] rest
    | rest => .fail .expectedReturnEnd rest
termination_by tokens.length
decreasing_by all_goals (simp only [List.length_cons] at *; omega)

/-- What follows the word that starts a return. -/
def returned (tokens : List Token) : Reading tokens.length (List Node) :=
  match tokens with
  | ⟨.semicolon, _, _⟩ :: rest => .take [] rest
  | tokens => returnedValues tokens

/-- Whether a token speaks of a reference, which no statement may start with. -/
def isReference (token : Token) : Bool :=
  token.kind = .intReference || (token.kind = .name && isReferenceName token.text)

/-- A statement and the semicolon that ends it. -/
def statement (tokens : List Token) : Reading tokens.length Node :=
  match tokens with
  | [] => .fail (.expectedStatement .endOfInput) []
  | first :: rest =>
      if first.kind = .returnWord then ((returned rest).map .ret).behind
      else if isReference first then .fail .referenceUnsupported (first :: rest)
      else if first.isTypeName then
        (startedBy first rest).andThen fun node rest _ =>
          (expect .semicolon .expectedStatementEnd rest).map fun _ => node
      else .fail (.expectedStatement first.kind) (first :: rest)

end Grammar

end Tuplet
