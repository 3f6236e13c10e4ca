import Tuplet.Token.Lexeme

/-!
# Scanning

Scanning never fails. A source is cut into pieces whose slices put together
are the source again; the pieces that are not gaps become tokens, each at the
position behind all that stands before it.
-/

namespace Tuplet

/-- A cut-off piece of source text. -/
structure Piece where
  /-- The kind of the token, or nothing for a gap. -/
  kind : Option TokenKind
  slice : List Char
  deriving DecidableEq, Repr

namespace Piece

/-- Cuts a source into its pieces. -/
def split : List Char → List Piece
  | [] => []
  | first :: rest =>
      let lexeme := Lexeme.read first rest
      ⟨lexeme.kind, first :: rest.take lexeme.extra⟩ :: split (rest.drop lexeme.extra)
termination_by source => source.length
decreasing_by simp only [List.length_cons, List.length_drop]; omega

/-- The text a token of this kind keeps of its slice: a string loses its quotes. -/
def textOf (kind : TokenKind) (slice : List Char) : String :=
  if kind = .stringLiteral then String.ofList slice.tail.dropLast else String.ofList slice

/-- The tokens among some pieces, the first of which stands at `position`. -/
def locate (position : Position) : List Piece → List Token
  | [] => []
  | piece :: rest =>
      let tokens := locate (position.after piece.slice) rest
      match piece.kind with
      | some kind => ⟨kind, textOf kind piece.slice, position⟩ :: tokens
      | none => tokens

end Piece

/-- The tokens of a source text. -/
def tokenize (source : String) : List Token :=
  Piece.locate Position.start (Piece.split source.toList)

end Tuplet
