import Tuplet.Position
import Tuplet.Token.Kind

/-!
# Tokens

A token is a piece of source text together with its kind and the position it
starts at. A token sequence need not come from a source text.
-/

namespace Tuplet

/-- A piece of source text that means something to the grammar. -/
structure Token where
  kind : TokenKind
  text : String
  position : Position
  deriving DecidableEq, Repr

namespace Token

/-- A token as one line of a token listing. -/
def render (token : Token) : String :=
  token.position.render ++ " " ++ token.kind.label ++
    if token.text.isEmpty then "" else " `" ++ token.text ++ "`"

/--
The token that stands behind the last one of a sequence. Its column counts the
bytes of the last token's text, not its characters.
-/
def endOf (tokens : List Token) : Token :=
  match tokens.getLast? with
  | some last =>
      ⟨.endOfInput, "", last.position.line, last.position.column + last.text.utf8ByteSize⟩
  | none => ⟨.endOfInput, "", Position.start⟩

end Token

end Tuplet
