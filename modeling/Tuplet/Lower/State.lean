import Tuplet.Ir.Verify
import Tuplet.Lower.Scope
import Tuplet.Syntax.Node

/-!
# The state of lowering

Lowering works on a builder and a scope of stack slots. While the body of a
function is lowered, the latest of its slots is remembered as well, so that
slots stand in front of all other instructions and in the order in which they
were made. A step that fails keeps what it has done to the state.

Remarks for the reader go to a log in the state. A step that gives up by itself
tells of its error; an error that comes from the builder or from a type name is
told of where it is passed on, and every construct around it adds a remark.
-/

namespace Tuplet

/-- A reason not to lower a syntax tree. -/
inductive LoweringError where
  | notAFunction (form : Form)
  | unknownType (name : String)
  | repeatedParameter (param function : String)
  | alreadyHasBody (function : String)
  | mismatchedDeclaration (function : String)
  | parameterTaken (param : String)
  | notAStatement (form : Form)
  | nameTaken (name : String)
  | notDeclared (name : String)
  | notAValue (form : Form)
  | unsupportedOperator (op : Operator)
  | unknownFunction (name : String)
  | argumentCount (function : String) (expected given : Nat)
  | noResult (function : String)
  | build (error : Ir.BuildError)
  | verify (error : Ir.VerifyError)
  deriving DecidableEq, Repr

namespace LoweringError

/-- The category of a reason not to lower. -/
def category : LoweringError → Category
  | unknownType _ | notDeclared _ | unknownFunction _ => .unresolvedName
  | repeatedParameter _ _ | alreadyHasBody _ | mismatchedDeclaration _ | parameterTaken _
  | nameTaken _ => .redeclaration
  | argumentCount _ _ _ => .arity
  | unsupportedOperator _ => .unsupportedOperator
  | notAFunction _ | notAStatement _ | notAValue _ | noResult _ => .type
  | build error => Fault.category error
  | verify error => Fault.category error

/-- What a reader is told about a reason not to lower. -/
def message : LoweringError → String
  | notAFunction form => "expected a function at top level, found " ++ form.describe
  | unknownType name => "unknown type '" ++ name ++ "'"
  | repeatedParameter param function =>
      "parameter '" ++ param ++ "' is declared twice in '" ++ function ++ "'"
  | alreadyHasBody function => "function '" ++ function ++ "' already has a body"
  | mismatchedDeclaration function =>
      "'" ++ function ++ "' does not match its earlier declaration"
  | parameterTaken param => "parameter '" ++ param ++ "' is already declared"
  | notAStatement form => form.describe ++ " cannot be used as a statement"
  | nameTaken name => "'" ++ name ++ "' is already declared"
  | notDeclared name => "'" ++ name ++ "' is not declared"
  | notAValue form => form.describe ++ " does not produce a value"
  | unsupportedOperator op => "operator '" ++ op.symbol ++ "' is not implemented"
  | unknownFunction name => "unknown function '" ++ name ++ "'"
  | argumentCount function expected given =>
      "'" ++ function ++ "' takes " ++ toString expected ++ " arguments but " ++
        toString given ++ " were given"
  | noResult function => "'" ++ function ++ "' returns void and has no value"
  | build error => Fault.message error
  | verify error => Fault.message error

instance : Fault LoweringError := ⟨category, message⟩

end LoweringError

/-- A construct that lowering can fail inside. -/
inductive LoweringContext where
  | function (name : String)
  | declaring (name : String)
  | statement (form : Form)
  | assignedValue
  | argument (position : Nat) (name : String)
  deriving DecidableEq, Repr

namespace LoweringContext

/-- What a reader is told about the construct around a failure. -/
def message : LoweringContext → String
  | function name => "failed to generate function '" ++ name ++ "'"
  | declaring name => "failed to declare '" ++ name ++ "'"
  | statement form => "failed to generate " ++ form.describe
  | assignedValue => "failed to generate right-hand side of assignment"
  | argument position name =>
      "failed to generate argument " ++ toString position ++ " of '" ++ name ++ "'"

instance : Context LoweringContext := ⟨message⟩

end LoweringContext

/-- A function whose body is being lowered. -/
structure Body where
  /-- The index of the function in the module. -/
  function : Nat
  /-- The latest stack slot of the body. -/
  lastSlot : Option Ir.Slot
  deriving DecidableEq, Repr

/-- What lowering works on. -/
structure LoweringState where
  builder : Ir.Builder
  scope : Scope Ir.Slot
  /-- The body that stack slots are made for. -/
  body : Option Body
  /-- What a reader has been told. -/
  log : List Diagnostic
  deriving DecidableEq, Repr

namespace LoweringState

/-- The state in which lowering into a builder starts if nothing has been told yet. -/
def new (builder : Ir.Builder) : LoweringState := ⟨builder, .empty, none, []⟩

/-- Tells a reader something. -/
def record (state : LoweringState) (remark : Diagnostic) : LoweringState :=
  { state with log := state.log ++ [remark] }

end LoweringState

/-- Steps of lowering; one that fails still says what the state has become. -/
abbrev Lowering := EStateM LoweringError LoweringState

namespace Lowering

variable {α : Type}

/-- Tells of an error and gives up because of it. -/
def fail (error : LoweringError) : Lowering α := do
  modify (·.record (.ofError .nowhere error))
  throw error

/-- Runs a step; if it gives up, something is told of its error before that is passed on. -/
def telling (remark : LoweringError → Diagnostic) (step : Lowering α) : Lowering α := fun state =>
  match step state with
  | .ok value state => .ok value state
  | .error error state => .error error (state.record (remark error))

/-- Tells of the error of a step that has not told of it. -/
def report (step : Lowering α) : Lowering α := telling (.ofError .nowhere) step

/-- Tells of a construct that the error of a step has come up inside. -/
def inside (context : LoweringContext) (step : Lowering α) : Lowering α :=
  telling (.ofContext .nowhere · context) step

/-- Does something with the builder, and tells of no error. -/
def attempt (operation : Ir.Build α) : Lowering α := fun state =>
  match operation state.builder with
  | .ok value builder => .ok value { state with builder }
  | .error error builder => .error (.build error) { state with builder }

/-- Does something with the builder. -/
def build (operation : Ir.Build α) : Lowering α := report (attempt operation)

/-- The type of the values that a type name stands for, if it stands for one. -/
def typeNamed (name : String) : Except LoweringError Ir.ValueType :=
  match Primitive.ofName? name with
  | none => .error (.unknownType name)
  | some type => (Ir.ValueType.ofPrimitive type).mapError .build

/-- The type of the values that a type name has to stand for. -/
def resolve (name : String) : Lowering Ir.ValueType :=
  report (match typeNamed name with
    | .ok type => pure type
    | .error error => throw error)

/-- The types that some type names stand for. -/
def resolveAll : List String → Lowering (List Ir.ValueType)
  | [] => pure []
  | name :: rest => do
      let type ← resolve name
      let types ← resolveAll rest
      pure (type :: types)

/-- Opens the body of a function: an entry block, and a frame for its names. -/
def openBody (function : Nat) : Lowering Unit := do
  build (Ir.Build.appendEntryBlock function)
  modify fun state => { state with scope := state.scope.push, body := some ⟨function, none⟩ }

/-- Closes the frame of a body, and turns to the body that was open before. -/
def closeBody (outer : Option Body) (state : LoweringState) : LoweringState :=
  match state.scope.pop with
  | .ok scope => { state with scope, body := outer }
  | .error _ => { state with body := outer }

/-- Runs a step in the body of a function, which is closed even if the step fails. -/
def inBody (function : Nat) (step : Lowering α) : Lowering α := do
  let outer := (← get).body
  openBody function
  fun state =>
    match step state with
    | .ok value state => .ok value (closeBody outer state)
    | .error error state => .error error (closeBody outer state)

/-- Makes a stack slot behind the latest one and binds a name to it. -/
def allocate (type : Ir.ValueType) (name : String) : Lowering Ir.Slot := do
  let slot ← build (Ir.Build.allocaAfter ((← get).body.bind (·.lastSlot)) type name)
  modify fun state =>
    { state with
      scope := state.scope.bind name slot
      body := state.body.map ({ · with lastSlot := some slot }) }
  pure slot

/-- The stack slot that a name stands for. -/
def slotOf (name : String) : Lowering Ir.Slot := do
  match (← get).scope.lookup name with
  | some slot => pure slot
  | none => fail (.notDeclared name)

end Lowering

end Tuplet
