import Tuplet.Command

/-!
# The program

Reads the source file that the arguments name and prints what the command line
makes of it.
-/

open Tuplet.Command

/-- Reads a source file. -/
def readSource (path : String) : IO Source := do
  try
    return .ofBytes (← IO.FS.readBinFile path)
  catch
    | .noFileOrDirectory _ _ _ => return .missing
    | error => return .unreadable (toString error)

/-- Prints an outcome and gives its exit code. -/
def conclude (outcome : Outcome) : IO UInt32 := do
  IO.print outcome.output
  IO.eprint outcome.errors
  return outcome.exitCode

/-- The entry point of the program. -/
def main (args : List String) : IO UInt32 := do
  match Invocation.ofArguments? args with
  | none => conclude usageError
  | some invocation => conclude (invocation.onSource (← readSource invocation.path))
