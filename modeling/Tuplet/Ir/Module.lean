import Tuplet.Ir.Type

/-!
# Modules of the intermediate language

A module is a sequence of functions, a function a sequence of blocks, a block a
sequence of instructions. Nothing about them is assumed: names may repeat, ids
may repeat or dangle, blocks may lack an end. Where a name or an id is looked
up, its first occurrence counts.
-/

namespace Tuplet.Ir

/-- An arithmetic instruction. -/
inductive Arithmetic where
  | add | sub | mul | sdiv | urem
  deriving DecidableEq, Repr

namespace Arithmetic

/-- The name of an arithmetic instruction. -/
def mnemonic : Arithmetic → String
  | add => "add"
  | sub => "sub"
  | mul => "mul"
  | sdiv => "sdiv"
  | urem => "urem"

/-- Every arithmetic instruction once. -/
def all : List Arithmetic := [add, sub, mul, sdiv, urem]

/-- The arithmetic instruction called `mnemonic`. -/
def ofMnemonic? (mnemonic : String) : Option Arithmetic :=
  all.find? (·.mnemonic == mnemonic)

end Arithmetic

/-- What an instruction works on. -/
inductive Operand where
  | const (value : Int32)
  /-- A parameter of the function, by its index. -/
  | param (index : Nat)
  /-- The result of an instruction, by its id. -/
  | instr (id : Nat)
  deriving DecidableEq, Repr

/-- What an instruction does. -/
inductive Action where
  | alloca (type : ValueType)
  | load (type : ValueType) (pointer : Operand)
  | store (value pointer : Operand)
  | arith (op : Arithmetic) (left right : Operand)
  | call (callee : String) (args : List Operand)
  | extract (aggregate : Operand) (index : Nat)
  | ret (values : List Operand)
  deriving DecidableEq, Repr

/-- An instruction. -/
structure Instruction where
  id : Nat
  name : String
  action : Action
  deriving DecidableEq, Repr

/-- Whether an instruction ends its block. -/
def Instruction.isTerminator (instruction : Instruction) : Bool :=
  match instruction.action with
  | .ret _ => true
  | _ => false

/-- A named sequence of instructions. -/
structure Block where
  name : String
  code : List Instruction
  deriving DecidableEq, Repr

/-- The instruction that ends a block, if it ends in a terminator. -/
def Block.terminator? (block : Block) : Option Instruction :=
  block.code.getLast?.filter (·.isTerminator)

/-- A parameter of a function. -/
structure Param where
  type : ValueType
  name : String
  deriving DecidableEq, Repr

/-- A function. -/
structure Function where
  name : String
  params : List Param
  returns : ValueType
  blocks : List Block
  /-- The id of the next instruction that is made for this function. -/
  nextId : Nat
  deriving DecidableEq, Repr

namespace Function

/-- Whether a function has no body. -/
def isDeclaration (function : Function) : Bool := function.blocks.isEmpty

/-- All instructions of a function in order. -/
def code (function : Function) : List Instruction := function.blocks.flatMap (·.code)

/-- The instruction with an id. -/
def instruction? (function : Function) (id : Nat) : Option Instruction :=
  function.code.find? (·.id == id)

end Function

/-- A module. -/
structure Module where
  name : String
  functions : List Function
  deriving DecidableEq, Repr

namespace Module

/-- The function of a name. -/
def get? (module : Module) (name : String) : Option Function :=
  module.functions.find? (·.name == name)

/-- Where the function of a name stands in the module. -/
def index? (module : Module) (name : String) : Option Nat :=
  module.functions.findIdx? (·.name == name)

end Module

end Tuplet.Ir
