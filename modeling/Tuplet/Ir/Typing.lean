import Tuplet.Ir.Module

/-!
# Types of operands

The type of an operand is read off the text of the function that uses it. Only
the extraction of a field asks for the type of another operand. Extractions that
lead back to themselves have no type; a chain that visits no instruction twice
is never longer than the function, which bounds the search.
-/

namespace Tuplet.Ir.Module

/-- The type of an operand, found within `depth` instructions. -/
def typeWithin (module : Module) (function : Function) : Nat → Operand → Option ValueType
  | _, .const _ => some .int32
  | _, .param index => function.params[index]?.map (·.type)
  | 0, .instr _ => none
  | depth + 1, .instr id =>
      match function.instruction? id with
      | none => none
      | some instruction =>
          match instruction.action with
          | .alloca _ => some .pointer
          | .load type _ => some type
          | .store _ _ => none
          | .arith _ _ _ => some .int32
          | .call callee _ =>
              match module.get? callee with
              | some target => if target.returns = .void then none else some target.returns
              | none => none
          | .extract aggregate index =>
              match typeWithin module function depth aggregate with
              | some (.struct fields) => fields[index]?
              | _ => none
          | .ret _ => none

/-- The type of an operand inside a function; nothing if it dangles or has no value. -/
def typeOf? (module : Module) (function : Function) (operand : Operand) : Option ValueType :=
  module.typeWithin function function.code.length operand

end Tuplet.Ir.Module
