import Tuplet.Syntax.Header
import Tuplet.Syntax.Statement

/-!
# Reading programs

A program is a sequence of functions, some of which are only declared. Reading
stops at the first item that fails and keeps the items before it.
-/

namespace Tuplet

namespace Grammar

/-- The statements of a function and the brace that closes them. -/
def body (tokens : List Token) : Reading tokens.length (List Node) :=
  match tokens with
  | [] => .fail .unclosedBody []
  | token :: rest =>
      match token.kind with
      | .braceClose => .take [] rest
      | .endOfInput => .fail .unclosedBody (token :: rest)
      | _ =>
          ((statement (token :: rest)).inside .statement).andThen fun first rest _ =>
            (body rest).map fun others => first :: others
termination_by tokens.length
decreasing_by all_goals omega

/-- What may follow a signature: a body, or a semicolon, or nothing. -/
def definition (header : Signature) (tokens : List Token) : Reading (tokens.length + 1) Node :=
  match tokens with
  | ⟨.braceOpen, _, _⟩ :: rest => ((body rest).map (.function header)).behind.orNothing
  | ⟨.semicolon, _, _⟩ :: rest => (Reading.take (.signature header) rest).orNothing
  | tokens => .stay (.signature header) tokens

/-- A function, or its signature alone where no body follows. -/
def function (tokens : List Token) : Reading tokens.length Node :=
  ((signature tokens).inside .signature).andMaybe fun header rest _ => definition header rest

end Grammar

/-- What comes of reading a whole program. -/
structure ProgramReading where
  /-- The items before the first error. -/
  items : List Node
  /-- The error that ended the reading, if one did. -/
  error? : Option GrammarError
  /-- The tokens where reading stopped. -/
  rest : List Token
  /-- The remarks that were made. -/
  log : ReadingLog

namespace ProgramReading

/-- What a reader is told, given the token behind the last one. -/
def diagnostics (reading : ProgramReading) (stop : Token) : List Diagnostic :=
  reading.log.diagnostics stop

end ProgramReading

namespace Grammar

/-- A program: functions until the input ends. -/
def program (tokens : List Token) : ProgramReading :=
  if headKind tokens = .endOfInput then ⟨[], none, tokens, []⟩
  else
    match (function tokens).inside .function with
    | .failed error rest log => ⟨[], some error, rest, log⟩
    | .done item rest _ log =>
        let reading := program rest
        { reading with items := item :: reading.items, log := log ++ reading.log }
termination_by tokens.length
decreasing_by all_goals omega

end Grammar

end Tuplet
