import Tuplet.Lower.Value

/-!
# Lowering statements

The target of an assignment is lowered before its value, so a name that is
declared there is already known in the value. A name is taken as long as any
frame binds it.
-/

namespace Tuplet

namespace Lowering

/-- Makes a stack slot for a declared name, which has to be new. -/
def declaration (declared : Declaration) : Lowering Ir.Slot := do
  if ((← get).scope.lookup declared.name).isSome then fail (.nameTaken declared.name)
  else
    let type ← resolve declared.type
    allocate type declared.name

/-- The stack slot that an assignment writes to. -/
def target : Target → Lowering Ir.Slot
  | .decl declared => declaration declared
  | .var use => slotOf use.name

/-- Lowers an assignment. -/
def assignment (assigned : Target) (node : Node) : Lowering Unit := do
  let slot ← target assigned
  let operand ← inside .assignedValue (value node)
  build (Ir.Build.store slot operand)

/-- Lowers a node that has to be a statement. -/
def statement : Node → Lowering Unit
  | .decl declared => do let _ ← declaration declared
  | .assign assigned node => assignment assigned node
  | .call name args => do let _ ← call name args
  | .ret nodes => do
      let operands ← values nodes
      build (Ir.Build.ret operands)
  | node => fail (.notAStatement node.form)

/-- Lowers statements in order. -/
def statements : List Node → Lowering Unit
  | [] => pure ()
  | node :: rest => do
      inside (.statement node.form) (statement node)
      statements rest

/-- Gives parameters of a function, the first of which is at a position, slots of their own. -/
def parameters (function position : Nat) : List Parameter → Lowering Unit
  | [] => pure ()
  | param :: rest => do
      if ((← get).scope.lookup param.name).isSome then fail (.parameterTaken param.name)
      else
        let type ← resolve param.type
        let slot ← allocate type param.name
        let operand ← build (Ir.Build.param function position)
        build (Ir.Build.store slot operand)
        parameters function (position + 1) rest

end Lowering

end Tuplet
