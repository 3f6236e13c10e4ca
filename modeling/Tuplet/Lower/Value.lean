import Tuplet.Lower.State

/-!
# Lowering values

An expression is lowered to the operand that holds its value once the emitted
instructions have run. Operands are lowered from left to right; what is wrong
with an operator or a call shows only after its operands, except that a call
looks its function up first.
-/

namespace Tuplet

/-- The instruction that computes an operator, if there is one. -/
def Operator.arithmetic? : Operator → Option Ir.Arithmetic
  | add => some .add
  | sub => some .sub
  | mul => some .mul
  | div => some .sdiv
  | mod => some .urem
  | exp | root => none

namespace Lowering

/-- The index of a function that is called with a number of arguments. -/
def callee (name : String) (given : Nat) : Lowering Nat := do
  let builder := (← get).builder
  match builder.module.index? name with
  | none => fail (.unknownFunction name)
  | some index =>
      if builder.paramCount index = given then pure index
      else fail (.argumentCount name (builder.paramCount index) given)

/-- Emits a call; its value is the first of the values returned, if there are any. -/
def emitCall (index : Nat) (name : String) (args : List Ir.Operand) :
    Lowering (Option Ir.Operand) := do
  match ← build (Ir.Build.call index args name) with
  | some aggregate => do
      let first ← build (Ir.Build.extract aggregate 0 "")
      pure (some first)
  | none => pure none

/-- Emits the instruction of an operator. -/
def emitOperator (op : Operator) (left right : Ir.Operand) : Lowering Ir.Operand :=
  match op.arithmetic? with
  | some arithmetic => build (Ir.Build.arith arithmetic left right "")
  | none => fail (.unsupportedOperator op)

mutual

/-- Lowers a node that has to have a value. -/
def value : Node → Lowering Ir.Operand
  | .literal number => pure (.const number)
  | .var use => do
      let slot ← slotOf use.name
      build (Ir.Build.load slot use.name)
  | .binary op left right => do
      let left ← value left
      let right ← value right
      emitOperator op left right
  | .call name args => do
      let index ← callee name args.length
      let operands ← arguments name 1 args
      match ← emitCall index name operands with
      | some operand => pure operand
      | none => fail (.noResult name)
  | .group inner => value inner
  | .assign _ _ => fail (.notAValue .assign)
  | .decl _ => fail (.notAValue .decl)
  | .signature _ => fail (.notAValue .signature)
  | .function _ _ => fail (.notAValue .function)
  | .ret _ => fail (.notAValue .ret)

/-- Lowers arguments of a call, the first of which is at a position. -/
def arguments (name : String) (position : Nat) : List Node → Lowering (List Ir.Operand)
  | [] => pure []
  | arg :: rest => do
      let operand ← inside (.argument position name) (value arg)
      let operands ← arguments name (position + 1) rest
      pure (operand :: operands)

end

/-- Lowers a call that need not have a value. -/
def call (name : String) (args : List Node) : Lowering (Option Ir.Operand) := do
  let index ← callee name args.length
  let operands ← arguments name 1 args
  emitCall index name operands

/-- Lowers nodes that have to have values, in order. -/
def values : List Node → Lowering (List Ir.Operand)
  | [] => pure []
  | node :: rest => do
      let operand ← value node
      let operands ← values rest
      pure (operand :: operands)

end Lowering

end Tuplet
