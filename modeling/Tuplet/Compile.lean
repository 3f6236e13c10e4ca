import Tuplet.Lower.Item
import Tuplet.Run.Machine
import Tuplet.Syntax.Program
import Tuplet.Token.Scan

/-!
# Compiling

Compiling takes a source text all the way to a module and reports what came of
it. Items that were read before a grammar error are lowered all the same, and
lowering goes on with the log that reading has left.
-/

namespace Tuplet

/-- What came of compiling a source text. -/
structure Report where
  tokens : List Token
  items : List Node
  /-- The error that ended the reading of items, if one did. -/
  parseError : Option GrammarError
  /-- What came of each item. -/
  functions : List (Except LoweringError Nat)
  diagnostics : List Diagnostic
  module : Ir.Module

namespace Report

/-- How many items could not be lowered. -/
def failed (report : Report) : Nat :=
  report.functions.countP fun
    | .ok _ => false
    | .error _ => true

/-- Whether everything could be read and lowered. -/
def isOk (report : Report) : Bool := report.parseError.isNone && report.failed = 0

end Report

/-- Compiles a source text to a module of a name. -/
def compile (moduleName source : String) : Report :=
  let tokens := tokenize source
  let reading := Grammar.program tokens
  let start : LoweringState :=
    { LoweringState.new (.new moduleName) with
      log := reading.diagnostics (Token.endOf tokens) }
  let (functions, state) := Lowering.items start reading.items
  { tokens
    items := reading.items
    parseError := reading.error?
    functions
    diagnostics := state.log
    module := state.builder.module }

/-- The module name that is used when none is given. -/
def defaultModuleName : String := "adze"

/-- The function that is called when none is given. -/
def defaultEntry : String := "main"

/-- Why running a source text gave no value. -/
inductive SourceError where
  | notCompiled (diagnostics : Nat)
  | run (error : Run.RunError)
  deriving Repr

/-- What a reader is told when a source text could not be compiled. -/
def notCompiledMessage (diagnostics : Nat) : String :=
  "compilation failed with " ++ toString diagnostics ++ " diagnostics"

/-- Compiles a source text and calls one of its functions. -/
def runSource (moduleName source entry : String) (args : List Int32) :
    Except SourceError Run.Value :=
  let report := compile moduleName source
  if report.isOk then (report.module.call entry (args.map .int)).mapError .run
  else .error (.notCompiled report.diagnostics.length)

end Tuplet
