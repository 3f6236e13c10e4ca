import Tuplet.Syntax.Name
import Tuplet.Syntax.Node
import Tuplet.Syntax.Reading

/-!
# Reading signatures

A signature is what a function returns, its name and its parameters. Return
types are `void`, one bare type, or a list of types in parentheses; the list may
be neither empty nor contain `void`.
-/

namespace Tuplet

namespace Grammar

/-- The type a token names inside a list of return types, the first of which is special. -/
def listedType (isFirst : Bool) (token : Token) : Except GrammarError String :=
  match token.kind with
  | .parenClose =>
      .error (if isFirst then .emptyReturnList else .expectedListedType .parenClose)
  | .primitive .void => .error .voidInReturnList
  | .primitive type => .ok type.name
  | .name => if isValidName token.text then .ok token.text else .error .invalidListedType
  | kind => .error (.expectedListedType kind)

/-- The rest of a list of return types and the parenthesis that closes it. -/
def returnList (isFirst : Bool) (tokens : List Token) : Reading tokens.length (List String) :=
  match tokens with
  | [] => .fail (.expectedListedType .endOfInput) []
  | token :: rest =>
      match listedType isFirst token with
      | .error error => .fail error (token :: rest)
      | .ok type =>
          match rest with
          | ⟨.comma, _, _⟩ :: rest =>
              ((returnList false rest).map fun types => type :: types).behind.behind
          | ⟨.parenClose, _, _⟩ :: rest => (Reading.take [type] rest).behind
          | rest => .fail .expectedReturnListEnd rest
termination_by tokens.length
decreasing_by all_goals (simp only [List.length_cons] at *; omega)

/-- The return types a single token stands for. -/
def bareReturns (token : Token) : Except GrammarError (List String) :=
  match token.kind with
  | .primitive .void => .ok []
  | .primitive type => .ok [type.name]
  | .name => if isValidName token.text then .ok [token.text] else .error .invalidReturnType
  | kind => .error (.expectedReturnType kind)

/-- What a function returns. -/
def returnTypes (tokens : List Token) : Reading tokens.length (List String) :=
  match tokens with
  | [] => .fail (.expectedReturnType .endOfInput) []
  | ⟨.parenOpen, _, _⟩ :: rest => (returnList true rest).behind
  | token :: rest =>
      match bareReturns token with
      | .error error => .fail error (token :: rest)
      | .ok types => .take types rest

/-- The name of a function. -/
def functionName (tokens : List Token) : Reading tokens.length String :=
  match tokens with
  | [] => .fail (.expectedFunctionName .endOfInput) []
  | token :: rest =>
      if token.kind ≠ .name then .fail (.expectedFunctionName token.kind) (token :: rest)
      else if isValidName token.text then .take token.text rest
      else .fail (.invalidFunctionName token.text) (token :: rest)

/-- One or more parameters and the parenthesis that closes them. -/
def parameterList (tokens : List Token) : Reading tokens.length (List Parameter) :=
  match tokens with
  | [] => .fail (.expectedParameterType .endOfInput) []
  | type :: rest =>
      if type.isTypeName then
        match rest with
        | [] => .fail .expectedParameterName []
        | name :: rest =>
            if name.kind = .name ∧ isValidName name.text then
              let param : Parameter := ⟨type.typeName, name.text⟩
              match rest with
              | ⟨.comma, _, _⟩ :: rest =>
                  ((parameterList rest).map fun params => param :: params).behind.behind.behind
              | ⟨.parenClose, _, _⟩ :: rest => (Reading.take [param] rest).behind.behind
              | rest => .fail .expectedParameterListEnd rest
            else .fail .expectedParameterName (name :: rest)
      else .fail (.expectedParameterType type.kind) (type :: rest)
termination_by tokens.length
decreasing_by all_goals (simp only [List.length_cons] at *; omega)

/-- The parameters of a function behind the parenthesis that opens them. -/
def parameters (tokens : List Token) : Reading tokens.length (List Parameter) :=
  match tokens with
  | ⟨.parenClose, _, _⟩ :: rest => .take [] rest
  | tokens => parameterList tokens

/-- A signature. -/
def signature (tokens : List Token) : Reading tokens.length Signature :=
  (returnTypes tokens).andThen fun returns rest _ =>
    (functionName rest).andThen fun name rest _ =>
      (expect .parenOpen .expectedParameterList rest).andThen fun _ rest _ =>
        (parameters rest).map fun params => ⟨name, returns, params⟩

end Grammar

end Tuplet
