import Tuplet.Ir.Typing

/-!
# Listings

The text of a module. Operands are written with their types; an operand without
one is written with a question mark. Instructions without a result are written
without their id.
-/

namespace Tuplet.Ir

namespace Module

/-- An operand without its type. -/
def renderBare (function : Function) : Operand → String
  | .const value => toString value.toInt
  | .param index =>
      match function.params[index]? with
      | some param => "%" ++ param.name
      | none => "%arg" ++ toString index
  | .instr id => "%" ++ toString id

/-- An operand with its type. -/
def renderOperand (module : Module) (function : Function) (operand : Operand) : String :=
  ((module.typeOf? function operand).map ValueType.render).getD "?" ++ " " ++
    renderBare function operand

/-- Operands with their types, separated by commas. -/
def renderOperands (module : Module) (function : Function) (operands : List Operand) : String :=
  String.intercalate ", " (operands.map (module.renderOperand function))

/-- What a listing says a call returns: an unknown function returns nothing. -/
def callType (module : Module) (callee : String) : ValueType :=
  ((module.get? callee).map (·.returns)).getD .void

/-- What an instruction does, as text. -/
def renderAction (module : Module) (function : Function) : Action → String
  | .alloca type => "alloca " ++ type.render
  | .load type pointer => "load " ++ type.render ++ ", " ++ module.renderOperand function pointer
  | .store value pointer =>
      "store " ++ module.renderOperand function value ++ ", " ++
        module.renderOperand function pointer
  | .arith op left right =>
      op.mnemonic ++ " " ++ module.renderOperand function left ++ ", " ++
        module.renderOperand function right
  | .call callee args =>
      "call " ++ (module.callType callee).render ++ " @" ++ callee ++ "(" ++
        module.renderOperands function args ++ ")"
  | .extract aggregate index =>
      "extractvalue " ++ module.renderOperand function aggregate ++ ", " ++ toString index
  | .ret [] => "ret void"
  | .ret values =>
      "ret " ++ function.returns.render ++ " \x7b " ++ module.renderOperands function values ++
        " \x7d"

/-- Whether a listing shows the id of an instruction that does this. -/
def showsId (module : Module) : Action → Bool
  | .store _ _ | .ret _ => false
  | .call callee _ => module.callType callee ≠ .void
  | _ => true

/-- One line of a listing. -/
def renderInstruction (module : Module) (function : Function) (instruction : Instruction) :
    String :=
  (if module.showsId instruction.action then "%" ++ toString instruction.id ++ " = " else "") ++
    module.renderAction function instruction.action ++
    if instruction.name.isEmpty then "" else " ; " ++ instruction.name

/-- The lines of a block. -/
def renderBlock (module : Module) (function : Function) (block : Block) : String :=
  block.name ++ ":\n" ++
    String.join (block.code.map fun instruction =>
      "  " ++ module.renderInstruction function instruction ++ "\n")

/-- The parameters of a function with their types. -/
def renderParams (params : List Param) : String :=
  String.intercalate ", " (params.map fun param => param.type.render ++ " %" ++ param.name)

/-- What a listing says of a function before its body. -/
def renderHeader (function : Function) : String :=
  (if function.isDeclaration then "declare " else "define ") ++ function.returns.render ++ " @" ++
    function.name ++ "(" ++ renderParams function.params ++ ")"

/-- The lines of a function. -/
def renderFunction (module : Module) (function : Function) : String :=
  "\n" ++ renderHeader function ++
    if function.isDeclaration then "\n"
    else " \x7b\n" ++ String.join (function.blocks.map (module.renderBlock function)) ++ "\x7d\n"

/-- The text of a module. -/
def render (module : Module) : String :=
  "; module " ++ module.name ++ "\n" ++
    String.join (module.functions.map module.renderFunction)

end Module

end Tuplet.Ir
