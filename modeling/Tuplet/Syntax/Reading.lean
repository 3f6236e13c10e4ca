import Tuplet.Syntax.Error
import Tuplet.Token.Cursor

/-!
# Readings

A reading is what comes of applying a rule of the grammar to a token sequence:
a value and the tokens behind it, or an error and the tokens it stopped at. It
also has a log of the remarks that were made on the way, each at the tokens
where reading stood when it was made. The number of tokens that a success leaves
is bounded in the type. Rules that consume at least one token are bounded by the
length of their input, so the recursion of the grammar ends without any other
argument.
-/

namespace Tuplet

/-- Remarks made while reading, each at the tokens where reading stood. -/
abbrev ReadingLog := List (Remark (List Token))

/-- The outcome of a rule; a success leaves fewer than `bound` tokens. -/
inductive Reading (bound : Nat) (α : Type) where
  | done (value : α) (rest : List Token) (shorter : rest.length < bound) (log : ReadingLog)
  | failed (error : GrammarError) (rest : List Token) (log : ReadingLog)

/-- The kind of the token a sequence starts with. -/
def headKind : List Token → TokenKind
  | [] => .endOfInput
  | token :: _ => token.kind

/-- The diagnostics of a log, given the token behind the last one. -/
def ReadingLog.diagnostics (log : ReadingLog) (stop : Token) : List Diagnostic :=
  log.map (·.locate fun tokens => (Cursor.mk tokens stop).current.position)

namespace Reading

variable {bound : Nat} {α β : Type}

/-- Stops at some tokens because of an error, and tells of it. -/
def fail (error : GrammarError) (tokens : List Token) : Reading bound α :=
  failed error tokens [.ofError tokens error]

/-- Reads nothing. -/
def stay (value : α) (tokens : List Token) : Reading (tokens.length + 1) α :=
  done value tokens (Nat.lt_succ_self _) []

/-- Reads one token. -/
def take (value : α) {token : Token} (rest : List Token) : Reading (token :: rest).length α :=
  done value rest (Nat.lt_succ_self _) []

/-- Forgets how few tokens are left. -/
def relax {large : Nat} (le : bound ≤ large) : Reading bound α → Reading large α
  | done value rest shorter log => done value rest (Nat.lt_of_lt_of_le shorter le) log
  | failed error rest log => failed error rest log

/-- Counts a token that was read before. -/
def behind {token : Token} {rest : List Token} (reading : Reading rest.length α) :
    Reading (token :: rest).length α :=
  reading.relax (Nat.le_succ _)

/-- Allows for nothing to have been read. -/
def orNothing (reading : Reading bound α) : Reading (bound + 1) α :=
  reading.relax (Nat.le_succ _)

/-- Puts the remarks that were made before a rule in front of its own. -/
def after (earlier : ReadingLog) : Reading bound α → Reading bound α
  | done value rest shorter log => done value rest shorter (earlier ++ log)
  | failed error rest log => failed error rest (earlier ++ log)

/-- Changes what was read. -/
def map (f : α → β) : Reading bound α → Reading bound β
  | done value rest shorter log => done (f value) rest shorter log
  | failed error rest log => failed error rest log

/-- Goes on behind a success with a rule that reads at least one token. -/
def andThen (reading : Reading bound α)
    (next : (value : α) → (rest : List Token) → rest.length < bound → Reading rest.length β) :
    Reading bound β :=
  match reading with
  | done value rest shorter log =>
      ((next value rest shorter).after log).relax (Nat.le_of_lt shorter)
  | failed error rest log => failed error rest log

/-- Goes on behind a success with a rule that may read nothing. -/
def andMaybe (reading : Reading bound α)
    (next : (value : α) → (rest : List Token) → rest.length < bound →
      Reading (rest.length + 1) β) :
    Reading bound β :=
  match reading with
  | done value rest shorter log => ((next value rest shorter).after log).relax shorter
  | failed error rest log => failed error rest log

/-- Tells of a construct that an error has come up inside. -/
def inside (construct : Construct) : Reading bound α → Reading bound α
  | done value rest shorter log => done value rest shorter log
  | failed error rest log => failed error rest (log ++ [.ofContext rest error construct])

/-- The tokens where reading stopped. -/
def rest : Reading bound α → List Token
  | done _ rest _ _ => rest
  | failed _ rest _ => rest

/-- What was read, or the error that prevented it. -/
def result : Reading bound α → Except GrammarError α
  | done value _ _ _ => .ok value
  | failed error _ _ => .error error

/-- The remarks that were made. -/
def log : Reading bound α → ReadingLog
  | done _ _ _ log => log
  | failed _ _ log => log

/-- What a reader is told, given the token behind the last one. -/
def diagnostics (stop : Token) (reading : Reading bound α) : List Diagnostic :=
  reading.log.diagnostics stop

end Reading

/-- Reads one token of a kind, or fails with an error about the kind found. -/
def expect (kind : TokenKind) (error : TokenKind → GrammarError) (tokens : List Token) :
    Reading tokens.length Unit :=
  match tokens with
  | [] => .fail (error .endOfInput) []
  | token :: rest =>
      if token.kind = kind then .take () rest
      else .fail (error token.kind) (token :: rest)

end Tuplet
