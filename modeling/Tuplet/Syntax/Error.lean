import Tuplet.Diagnostic
import Tuplet.Token.Kind

/-!
# Grammar errors

What can be wrong with a token sequence, and the constructs it can be wrong in.
An error that was caused by a token of the wrong kind remembers that kind.
-/

namespace Tuplet

/-- A way in which tokens break the grammar. -/
inductive GrammarError where
  | unclosedBody
  | emptyReturnList
  | voidInReturnList
  | invalidListedType
  | expectedListedType (found : TokenKind)
  | expectedReturnListEnd
  | invalidReturnType
  | expectedReturnType (found : TokenKind)
  | expectedFunctionName (found : TokenKind)
  | invalidFunctionName (text : String)
  | expectedParameterList (found : TokenKind)
  | expectedParameterType (found : TokenKind)
  | expectedParameterName
  | expectedParameterListEnd
  | referenceUnsupported
  | expectedStatement (found : TokenKind)
  | assignmentToType (text : String)
  | expectedAssignment
  | expectedStatementEnd (found : TokenKind)
  | expectedReturnEnd
  | invalidInt (text : String)
  | literalUnsupported (kind : TokenKind)
  | expectedValue (found : TokenKind)
  | expectedGroupEnd (found : TokenKind)
  | expectedArgumentsEnd
  deriving DecidableEq, Repr

namespace GrammarError

/-- What a reader is told about a grammar error. -/
def message : GrammarError → String
  | unclosedBody => "expected '\x7d', got end of input"
  | emptyReturnList =>
      "no return types in a function return type list, perhaps you meant 'void'?"
  | voidInReturnList => "'void' included in a function return type list"
  | invalidListedType => "invalid type name in return type list"
  | expectedListedType found => "expected a return type, found " ++ found.describe
  | expectedReturnListEnd => "expected ',' or ')' in function return type list"
  | invalidReturnType => "invalid return type name"
  | expectedReturnType found => "expected return type, found " ++ found.describe
  | expectedFunctionName found =>
      "expected function name after return list, found " ++ found.describe
  | invalidFunctionName text => "invalid function name '" ++ text ++ "'"
  | expectedParameterList found =>
      "expected '(' opening function parameter list, found " ++ found.describe
  | expectedParameterType found =>
      "expected type name of a function parameter, found " ++ found.describe
  | expectedParameterName => "expected name of a function parameter"
  | expectedParameterListEnd =>
      "expected ')' to close function parameter list, or ',' to continue it"
  | referenceUnsupported => "reference variables are not supported yet"
  | expectedStatement found =>
      "expected a statement within function body, found " ++ found.describe
  | assignmentToType text => "cannot assign to type name '" ++ text ++ "'"
  | expectedAssignment => "expected assignment or declaration"
  | expectedStatementEnd found => "expected ';' closing statement, found " ++ found.describe
  | expectedReturnEnd => "expected ',' or ';' in return statement"
  | invalidInt text => "invalid int literal '" ++ text ++ "'"
  | literalUnsupported kind => kind.describe ++ " is not supported in expressions yet"
  | expectedValue found => "expected a value-reducible expression, found " ++ found.describe
  | expectedGroupEnd found =>
      "expected ')' to close a parenthesised expression, found " ++ found.describe
  | expectedArgumentsEnd => "expected ',' or ')' after an argument in a call"

instance : Fault GrammarError where
  category _ := .grammar
  message := message

end GrammarError

/-- A construct that a grammar error can happen inside. -/
inductive Construct where
  | function
  | signature
  | statement
  | assignedValue
  | returnedValue
  | rightOperand
  | group
  | argument
  deriving DecidableEq, Repr

namespace Construct

/-- What a reader is told about the construct around an error. -/
def message : Construct → String
  | function => "failed to parse function"
  | signature => "failed to parse function signature"
  | statement => "failed to parse statement"
  | assignedValue => "failed to parse right-hand side of assignment"
  | returnedValue => "expected a value-reducible expression in return statement"
  | rightOperand => "failed to parse right-hand side of a binary operation"
  | group => "failed to parse an expression within parentheses"
  | argument => "expected an argument expression or ')' in call"

instance : Context Construct := ⟨message⟩

end Construct

end Tuplet
