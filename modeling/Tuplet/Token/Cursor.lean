import Tuplet.Token.Basic

/-!
# Cursors

A cursor stands on a token of a sequence. Behind the last token it stands on
the end token, and stays there however often it is moved.
-/

namespace Tuplet

/-- A place in a token sequence. -/
structure Cursor where
  /-- The tokens from here on. -/
  rest : List Token
  /-- The token behind the last one. -/
  stop : Token
  deriving DecidableEq, Repr

namespace Cursor

/-- A cursor on the first token of a sequence. -/
def ofTokens (tokens : List Token) : Cursor := ⟨tokens, Token.endOf tokens⟩

/-- The token the cursor stands on. -/
def current (cursor : Cursor) : Token := cursor.rest.headD cursor.stop

/-- The token behind the current one. -/
def peek (cursor : Cursor) : Token := cursor.rest.tail.headD cursor.stop

/-- Moves to the next token, if there is one to leave. -/
def advance (cursor : Cursor) : Cursor := { cursor with rest := cursor.rest.tail }

/-- Whether the current token is of a kind. -/
def isAt (cursor : Cursor) (kind : TokenKind) : Bool := cursor.current.kind = kind

/-- Whether the current token ends the input. -/
def isExhausted (cursor : Cursor) : Bool := cursor.isAt .endOfInput

end Cursor

end Tuplet
