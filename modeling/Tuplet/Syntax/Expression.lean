import Tuplet.Syntax.Name
import Tuplet.Syntax.Node
import Tuplet.Syntax.Reading

/-!
# Reading expressions

An expression is an operand followed by any number of operators with an operand
each. The links of such a chain are read flat and put together afterwards by
`Node.ofChain`: operators are taken from the left as long as they do not bind
weaker than the one behind them; the first one that does takes the tree of the
whole rest of the chain as its left operand, and what stands before it as its
right one.
-/

namespace Tuplet

namespace Node

/-- The tree of a chain of operators that starts with the operand `left`. -/
def ofChain (left : Node) : List (Operator × Node) → Node
  | [] => left
  | [(op, right)] => .binary op left right
  | (op, right) :: (next, operand) :: rest =>
      if next.precedence ≤ op.precedence then
        ofChain (.binary op left right) ((next, operand) :: rest)
      else
        .binary op (ofChain right ((next, operand) :: rest)) left

end Node

namespace Grammar

mutual

/-- An operand: an integer literal, a group, a call or a variable. -/
def operand (tokens : List Token) : Reading tokens.length Node :=
  match tokens with
  | [] => .fail (.expectedValue .endOfInput) []
  | token :: rest =>
      match token.kind with
      | .intLiteral =>
          match intLiteral? token.text with
          | some value => .take (.literal value) rest
          | none => .fail (.invalidInt token.text) (token :: rest)
      | .parenOpen =>
          (((expression rest).inside .group).andThen fun inner rest _ =>
            (expect .parenClose .expectedGroupEnd rest).map fun _ => .group inner).behind
      | .name =>
          if isReferenceName token.text then .fail .referenceUnsupported (token :: rest)
          else
            match rest with
            | ⟨.parenOpen, _, _⟩ :: rest => ((arguments rest).map (.call token.text)).behind.behind
            | rest => .take (.var ⟨token.text, none⟩) rest
      | .floatLiteral => .fail (.literalUnsupported .floatLiteral) (token :: rest)
      | .stringLiteral => .fail (.literalUnsupported .stringLiteral) (token :: rest)
      | kind => .fail (.expectedValue kind) (token :: rest)
termination_by 4 * tokens.length
decreasing_by all_goals (simp only [List.length_cons] at *; omega)

/-- The operators and operands behind the first operand of an expression. -/
def chain (tokens : List Token) : Reading (tokens.length + 1) (List (Operator × Node)) :=
  match tokens with
  | ⟨.operator op, _, _⟩ :: rest =>
      (((operand rest).inside .rightOperand).andMaybe fun right rest _ =>
        (chain rest).map fun links => (op, right) :: links).behind.orNothing
  | tokens => .stay [] tokens
termination_by 4 * tokens.length
decreasing_by all_goals (simp only [List.length_cons] at *; omega)

/-- An expression. -/
def expression (tokens : List Token) : Reading tokens.length Node :=
  (operand tokens).andMaybe fun first rest _ =>
    (chain rest).map fun links => first.ofChain links
termination_by 4 * tokens.length + 1
decreasing_by all_goals omega

/-- One or more arguments of a call and the parenthesis that closes them. -/
def argumentList (tokens : List Token) : Reading tokens.length (List Node) :=
  ((expression tokens).inside .argument).andThen fun first rest _ =>
    match rest with
    | ⟨.parenClose, _, _⟩ :: rest => .take [first] rest
    | ⟨.comma, _, _⟩ :: rest => ((argumentList rest).map fun others => first :: others).behind
    | rest => .fail .expectedArgumentsEnd rest
termination_by 4 * tokens.length + 2
decreasing_by all_goals first | omega | (simp only [List.length_cons] at *; omega)

/-- The arguments of a call behind the parenthesis that opens them. -/
def arguments (tokens : List Token) : Reading tokens.length (List Node) :=
  match tokens with
  | ⟨.parenClose, _, _⟩ :: rest => .take [] rest
  | tokens => argumentList tokens
termination_by 4 * tokens.length + 3
decreasing_by all_goals omega

end

end Grammar

end Tuplet
