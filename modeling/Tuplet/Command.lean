import Tuplet.Compile
import Tuplet.Ir.Listing
import Tuplet.Syntax.Outline

/-!
# The command line

An invocation names a command, a source file and options. The arguments are
read before the file; one that cannot be read is a usage error, whatever the
file holds. A command shows its part of the compilation even if that failed.
-/

namespace Tuplet.Command

/-- A part of a compilation that can be shown. -/
inductive View where
  | tokens | tree | listing
  deriving DecidableEq, Repr

/-- What is done with a source file. -/
inductive Task where
  | inspect (view : View)
  | run
  deriving DecidableEq, Repr

namespace Task

/-- The task of a command. -/
def ofCommand? : String → Option Task
  | "tokens" => some (.inspect .tokens)
  | "ast" => some (.inspect .tree)
  | "ir" => some (.inspect .listing)
  | "run" => some .run
  | _ => none

end Task

/-- What the program was asked to do. -/
structure Invocation where
  task : Task
  moduleName : String
  entry : String
  path : String
  args : List Int32
  deriving DecidableEq, Repr

/-- An integer argument: at most one sign, then digits, within 32 bits. -/
def intArgument? (text : String) : Option Int32 :=
  match text.toList with
  | '+' :: digits => (natLiteral? digits).bind fun value => toInt32? value
  | _ => intLiteral? text

/-- What has been read of the arguments so far. -/
structure Partial where
  moduleName : Option String
  entry : Option String
  path : Option String
  deriving DecidableEq, Repr

/-- The value of an option, which must not look like an option itself. -/
def optionValue? (text : String) : Option String :=
  if text.startsWith "-" && text ≠ "-" then none else some text

/-- Sets the module name once. -/
def Partial.withModule? (read : Partial) (text : String) : Option Partial :=
  if read.moduleName.isSome then none
  else (optionValue? text).map fun value => { read with moduleName := some value }

/-- Sets the entry once, for a task that has one. -/
def Partial.withEntry? (read : Partial) (task : Task) (text : String) : Option Partial :=
  if task ≠ .run || read.entry.isSome then none
  else (optionValue? text).map fun value => { read with entry := some value }

/-- The invocation that has been read, once the source file is known. -/
def Partial.finish? (read : Partial) (task : Task) (args : List Int32) : Option Invocation :=
  read.path.map fun path =>
    ⟨task, read.moduleName.getD defaultModuleName, read.entry.getD defaultEntry, path, args⟩

/-- Reads arguments that are no options: the source file if it is missing, then integers. -/
def readValues? (task : Task) (read : Partial) : List String → Option Invocation
  | [] => read.finish? task []
  | text :: rest =>
      match read.path with
      | none => readValues? task { read with path := some text } rest
      | some _ =>
          if task = .run then do
            let args ← (text :: rest).mapM intArgument?
            read.finish? task args
          else none

/-- Reads arguments among which there may be options. -/
def readArguments? (task : Task) (read : Partial) : List String → Option Invocation
  | [] => read.finish? task []
  | "--" :: rest => readValues? task read rest
  | "--module" :: text :: rest => do readArguments? task (← read.withModule? text) rest
  | "--entry" :: text :: rest => do readArguments? task (← read.withEntry? task text) rest
  | text :: rest =>
      if read.path.isSome then readValues? task read (text :: rest)
      else if text.startsWith "-" && text ≠ "-" then none
      else readArguments? task { read with path := some text } rest

/-- Reads the arguments of the program. -/
def Invocation.ofArguments? : List String → Option Invocation
  | [] => none
  | command :: rest => do
      let task ← Task.ofCommand? command
      readArguments? task ⟨none, none, none⟩ rest

/-- What was found at the path of a source file. -/
inductive Source where
  | text (contents : String)
  | notText
  | missing
  | unreadable (reason : String)
  deriving DecidableEq, Repr

/-- A source file of some bytes. -/
def Source.ofBytes (bytes : ByteArray) : Source :=
  match String.fromUTF8? bytes with
  | some contents => .text contents
  | none => .notText

/-- What the program does in the end. -/
structure Outcome where
  exitCode : UInt32
  output : String
  errors : String
  deriving DecidableEq, Repr

namespace Outcome

/-- Ends well. -/
def success (output : String) : Outcome := ⟨0, output, ""⟩

/-- Ends with an error, after some output and some lines about what went wrong. -/
def failure (output notes error : String) : Outcome :=
  ⟨1, output, notes ++ "error: " ++ error ++ "\n"⟩

end Outcome

/-- What is shown of a compilation. -/
def View.render (report : Report) : View → String
  | .tokens => String.join (report.tokens.map fun token => token.render ++ "\n")
  | .tree => String.join (report.items.map Node.outline)
  | .listing => report.module.render ++ "\n"

/-- The diagnostics of a report, one on a line. -/
def renderDiagnostics (report : Report) : String :=
  String.join (report.diagnostics.map fun diagnostic => diagnostic.render ++ "\n")

/-- Carries a task out on the contents of the source file. -/
def Invocation.onText (invocation : Invocation) (contents : String) : Outcome :=
  let report := compile invocation.moduleName contents
  let shown := match invocation.task with
    | .inspect view => view.render report
    | .run => ""
  if report.isOk then
    match invocation.task with
    | .inspect _ => .success shown
    | .run =>
        match report.module.call invocation.entry (invocation.args.map .int) with
        | .ok value => .success (value.render ++ "\n")
        | .error error => .failure "" "" (Fault.render error)
  else
    .failure shown (renderDiagnostics report)
      (toString report.diagnostics.length ++ " diagnostics")

/-- Carries an invocation out. -/
def Invocation.onSource (invocation : Invocation) (source : Source) : Outcome :=
  let unreadable (reason : String) : Outcome :=
    .failure "" "" ("unable to read '" ++ invocation.path ++ "': " ++ reason)
  match source with
  | .text contents => invocation.onText contents
  | .notText => unreadable "stream did not contain valid UTF-8"
  | .missing => unreadable "No such file or directory (os error 2)"
  | .unreadable reason => unreadable reason

/-- How the program ends when it does not understand its arguments. -/
def usageError : Outcome :=
  ⟨2, "", "error: usage: (tokens | ast | ir | run) [--module NAME] [--entry NAME] FILE [INT...]\n"⟩

end Tuplet.Command
