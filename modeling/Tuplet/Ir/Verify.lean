import Tuplet.Ir.Builder
import Tuplet.Ir.Typing

/-!
# Verification

Verification checks that every block ends in a terminator and has no other one,
that every operand is defined before it is used, and that types agree. The
instructions of a function are checked in order; the first fault ends the check.
All operands of an instruction are checked before any type is asked for. A
function without a body has no faults.
-/

namespace Tuplet.Ir

/-- What can be wrong with a function. -/
inductive VerifyError where
  | missingTerminator (block function : String)
  | earlyTerminator (block function : String)
  | unknownParameter (index : Nat)
  | undefined (id : Nat)
  | invalidLoad (id : Nat)
  | invalidStore
  | storedType (expected : ValueType)
  | notIntegers (op : Arithmetic)
  | unknownCallee (callee : String)
  | argumentCount (callee : String) (given expected : Nat)
  | argumentType (param callee : String) (expected : ValueType)
  | indexOutOfRange (index : Nat)
  | returnType (expected : ValueType) (function : String)
  deriving DecidableEq, Repr

namespace VerifyError

/-- What a reader is told about a fault of a function. -/
def message : VerifyError → String
  | missingTerminator block function =>
      "block '" ++ block ++ "' in '" ++ function ++ "' does not end in a terminator"
  | earlyTerminator block function =>
      "terminator in the middle of block '" ++ block ++ "' in '" ++ function ++ "'"
  | unknownParameter index => "parameter " ++ toString index ++ " does not exist"
  | undefined id => "%" ++ toString id ++ " is used before it is defined"
  | invalidLoad id => "%" ++ toString id ++ " loads through an invalid pointer"
  | invalidStore => "store through an invalid pointer"
  | storedType expected => "stored value does not match slot type " ++ expected.render
  | notIntegers op => op.mnemonic ++ " expects integer operands"
  | unknownCallee callee => "call to unknown function '" ++ callee ++ "'"
  | argumentCount callee given expected =>
      "call to '" ++ callee ++ "' passes " ++ toString given ++ " arguments, expected " ++
        toString expected
  | argumentType param callee expected =>
      "argument '" ++ param ++ "' of '" ++ callee ++ "' expects " ++ expected.render
  | indexOutOfRange index => "extractvalue index " ++ toString index ++ " out of range"
  | returnType expected function =>
      "return does not match the declared return type " ++ expected.render ++ " of '" ++
        function ++ "'"

instance : Fault VerifyError where
  category _ := .verification
  message := message

end VerifyError

namespace Function

/-- Checks that an operand is available once the instructions `defined` have been run. -/
def checkOperand (function : Function) (defined : List Nat) :
    Operand → Except VerifyError Unit
  | .const _ => .ok ()
  | .param index =>
      if index < function.params.length then .ok () else .error (.unknownParameter index)
  | .instr id => if id ∈ defined then .ok () else .error (.undefined id)

/-- Checks that some operands are available, in order. -/
def checkOperands (function : Function) (defined : List Nat) :
    List Operand → Except VerifyError Unit
  | [] => .ok ()
  | operand :: rest => do
      function.checkOperand defined operand
      function.checkOperands defined rest

/-- The type of the slot that an operand points to, if a slot made it. -/
def slotType? (function : Function) : Operand → Option ValueType
  | .instr id =>
      match function.instruction? id with
      | some ⟨_, _, .alloca type⟩ => some type
      | _ => none
  | _ => none

end Function

namespace Module

/-- Checks that the types of arguments are those of the parameters, in order. -/
def checkArguments (module : Module) (function : Function) (callee : String) :
    List Operand → List Param → Except VerifyError Unit
  | arg :: args, param :: params => do
      if module.typeOf? function arg = some param.type then
        module.checkArguments function callee args params
      else .error (.argumentType param.name callee param.type)
  | _, _ => .ok ()

/-- Whether operands have the types that a function returns. -/
def returnsMatch (module : Module) (function : Function) (values : List Operand) : Bool :=
  match function.returns with
  | .void => values.isEmpty
  | .struct fields => values.map (module.typeOf? function) = fields.map some
  | _ => false

/-- Checks what an instruction does, once the instructions `defined` have been run. -/
def checkAction (module : Module) (function : Function) (defined : List Nat) (id : Nat) :
    Action → Except VerifyError Unit
  | .alloca _ => .ok ()
  | .load type pointer => do
      function.checkOperand defined pointer
      if function.slotType? pointer = some type then .ok () else .error (.invalidLoad id)
  | .store value pointer => do
      function.checkOperand defined value
      function.checkOperand defined pointer
      match function.slotType? pointer with
      | none => .error .invalidStore
      | some type =>
          if module.typeOf? function value = some type then .ok () else .error (.storedType type)
  | .arith op left right => do
      function.checkOperand defined left
      function.checkOperand defined right
      if module.typeOf? function left = some .int32 ∧ module.typeOf? function right = some .int32
      then .ok () else .error (.notIntegers op)
  | .call callee args => do
      function.checkOperands defined args
      match module.get? callee with
      | none => .error (.unknownCallee callee)
      | some target =>
          if target.params.length = args.length then
            module.checkArguments function callee args target.params
          else .error (.argumentCount callee args.length target.params.length)
  | .extract aggregate index => do
      function.checkOperand defined aggregate
      match module.typeOf? function aggregate with
      | some (.struct fields) =>
          if index < fields.length then .ok () else .error (.indexOutOfRange index)
      | _ => .error (.indexOutOfRange index)
  | .ret values => do
      function.checkOperands defined values
      if module.returnsMatch function values then .ok ()
      else .error (.returnType function.returns function.name)

/-- Checks the instructions of a block in order; gives all ids defined then. -/
def checkCode (module : Module) (function : Function) (block : String) (defined : List Nat) :
    List Instruction → Except VerifyError (List Nat)
  | [] => .ok defined
  | instruction :: rest => do
      if instruction.isTerminator && !rest.isEmpty then
        throw (.earlyTerminator block function.name)
      module.checkAction function defined instruction.id instruction.action
      module.checkCode function block (instruction.id :: defined) rest

/-- Checks blocks in order, once the instructions `defined` have been run. -/
def checkBlocks (module : Module) (function : Function) (defined : List Nat) :
    List Block → Except VerifyError Unit
  | [] => .ok ()
  | block :: rest => do
      if block.terminator?.isNone then throw (.missingTerminator block.name function.name)
      let defined ← module.checkCode function block.name defined block.code
      module.checkBlocks function defined rest

/-- Checks a function. -/
def verify (module : Module) (function : Function) : Except VerifyError Unit :=
  module.checkBlocks function [] function.blocks

end Module

/-- Checks the function at an index, which has to exist. -/
def Builder.verify (builder : Builder) (index : Nat) :
    Except (BuildError ⊕ VerifyError) Unit :=
  match builder.function? index with
  | none => .error (.inl (.danglingFunction index))
  | some function => (builder.module.verify function).mapError .inr

/-- An error of either of two sorts. -/
instance {ε δ : Type} [Fault ε] [Fault δ] : Fault (ε ⊕ δ) where
  category := Sum.elim Fault.category Fault.category
  message := Sum.elim Fault.message Fault.message

end Tuplet.Ir
