import Tuplet.Diagnostic
import Tuplet.Ir.Module
import Tuplet.Operator

/-!
# Building modules

A builder owns a module and an insertion point, which is the function that was
last given an entry block. Ordinary instructions go to the end of that
function's last block. Stack slots go to the start of its first block, or right
behind a slot that is already there. An operation that fails leaves the module
as it was, except that an id which was taken for an instruction stays taken.
-/

namespace Tuplet.Ir

/-- A stack slot: the instruction that makes it, and the type of what it holds. -/
structure Slot where
  id : Nat
  type : ValueType
  deriving DecidableEq, Repr

/-- A misuse of a builder. -/
inductive BuildError where
  | danglingFunction (index : Nat)
  | noInsertionPoint
  | noBlocks (function : String)
  | noEntryBlock (function : String)
  | alreadyDeclared (function : String)
  | noParameter (function : String) (index : Nat)
  | outsideEntryBlock
  | stringUnsupported
  | voidHasNoValues
  deriving DecidableEq, Repr

namespace BuildError

/-- The category of a misuse. -/
def category : BuildError → Category
  | alreadyDeclared _ => .redeclaration
  | stringUnsupported | voidHasNoValues => .type
  | _ => .backend

/-- What a reader is told about a misuse. -/
def message : BuildError → String
  | danglingFunction index => "dangling function reference " ++ toString index
  | noInsertionPoint => "no insertion point"
  | noBlocks function => "function '" ++ function ++ "' has no blocks"
  | noEntryBlock function => "function '" ++ function ++ "' has no entry block"
  | alreadyDeclared function => "function '" ++ function ++ "' is already declared"
  | noParameter function index => "'" ++ function ++ "' has no parameter " ++ toString index
  | outsideEntryBlock => "allocation cursor is not in the entry block"
  | stringUnsupported => "string values are not supported yet"
  | voidHasNoValues => "'void' is not a value type"

instance : Fault BuildError := ⟨category, message⟩

end BuildError

/-- The type of the values of a primitive type. -/
def ValueType.ofPrimitive : Primitive → Except BuildError ValueType
  | .int => .ok .int32
  | .float => .ok .float32
  | .string => .error .stringUnsupported
  | .void => .error .voidHasNoValues

namespace Block

/-- Puts an instruction at the end of the last of some blocks. -/
def appendToLast (instruction : Instruction) : List Block → List Block
  | [] => []
  | [block] => [{ block with code := block.code ++ [instruction] }]
  | block :: next :: rest => block :: appendToLast instruction (next :: rest)

/-- Puts an instruction right behind the first one with an id. -/
def insertAfter (id : Nat) (instruction : Instruction) :
    List Instruction → Option (List Instruction)
  | [] => none
  | first :: rest =>
      if first.id = id then some (first :: instruction :: rest)
      else (insertAfter id instruction rest).map (first :: ·)

/-- Puts an instruction behind a slot, or in front of everything. -/
def insertSlot (after : Option Slot) (instruction : Instruction) (code : List Instruction) :
    Option (List Instruction) :=
  match after with
  | some slot => insertAfter slot.id instruction code
  | none => some (instruction :: code)

end Block

/-- A module under construction. -/
structure Builder where
  module : Module
  /-- The function that instructions are put into. -/
  cursor : Option Nat
  deriving DecidableEq, Repr

/-- Operations on a builder; one that fails still says what the builder has become. -/
abbrev Build := EStateM BuildError Builder

namespace Builder

/-- A builder of a module without functions. -/
def new (name : String) : Builder := ⟨⟨name, []⟩, none⟩

/-- The function at an index. -/
def function? (builder : Builder) (index : Nat) : Option Function :=
  builder.module.functions[index]?

/-- Puts a function in the place of the one at an index. -/
def setFunction (builder : Builder) (index : Nat) (function : Function) : Builder :=
  { builder with module.functions := builder.module.functions.set index function }

/-- How many parameters the function at an index has. -/
def paramCount (builder : Builder) (index : Nat) : Nat :=
  ((builder.function? index).map (·.params.length)).getD 0

/-- Whether the function at an index has a body. -/
def hasBody (builder : Builder) (index : Nat) : Bool :=
  ((builder.function? index).map (!·.isDeclaration)).getD false

/-- Whether the block that instructions are put into has ended. -/
def isTerminated (builder : Builder) : Bool :=
  match builder.cursor.bind builder.function? with
  | some function => (function.blocks.getLast?.bind Block.terminator?).isSome
  | none => false

end Builder

namespace Build

/-- The function at an index, which has to exist. -/
def function (index : Nat) : Build Function := do
  match (← get).function? index with
  | some function => pure function
  | none => throw (.danglingFunction index)

/-- The function that instructions are put into, and its index. -/
def current : Build (Nat × Function) := do
  let builder ← get
  match builder.cursor with
  | none => throw .noInsertionPoint
  | some index =>
      match builder.function? index with
      | some function => pure (index, function)
      | none => throw .noInsertionPoint

/-- Takes an id for an instruction of the current function. -/
def makeInstruction (name : String) (action : Action) :
    Build (Nat × Function × Instruction) := do
  let (index, function) ← current
  let taken := { function with nextId := function.nextId + 1 }
  modify (·.setFunction index taken)
  pure (index, taken, ⟨function.nextId, name, action⟩)

/-- Puts an instruction at the end of the current function and gives its id. -/
def emit (name : String) (action : Action) : Build Nat := do
  let (index, function, instruction) ← makeInstruction name action
  if function.blocks.isEmpty then throw (.noBlocks function.name)
  modify (·.setFunction index
    { function with blocks := Block.appendToLast instruction function.blocks })
  pure instruction.id

/-- Declares a function. -/
def declare (name : String) (params : List Param) (returns : List ValueType) : Build Nat := do
  let builder ← get
  if (builder.module.index? name).isSome then throw (.alreadyDeclared name)
  let function : Function := ⟨name, params, .ofReturns returns, [], 0⟩
  set { builder with module.functions := builder.module.functions ++ [function] }
  pure builder.module.functions.length

/-- A parameter of the function at an index. -/
def param (index position : Nat) : Build Operand := do
  let function ← Build.function index
  if position < function.params.length then pure (.param position)
  else throw (.noParameter function.name position)

/-- Gives a function an entry block and moves the insertion point there. -/
def appendEntryBlock (index : Nat) : Build Unit := do
  let function ← Build.function index
  let entered := { function with blocks := function.blocks ++ [⟨"entry", []⟩] }
  modify fun builder => { builder.setFunction index entered with cursor := some index }

/-- Makes a stack slot behind another one, or in front of everything. -/
def allocaAfter (after : Option Slot) (type : ValueType) (name : String) : Build Slot := do
  let (index, function, instruction) ← makeInstruction name (.alloca type)
  match function.blocks with
  | [] => throw (.noEntryBlock function.name)
  | entry :: others =>
      match Block.insertSlot after instruction entry.code with
      | none => throw .outsideEntryBlock
      | some code =>
          modify (·.setFunction index
            { function with blocks := { entry with code } :: others })
          pure ⟨instruction.id, type⟩

/-- Reads a stack slot. -/
def load (slot : Slot) (name : String) : Build Operand := do
  pure (.instr (← emit name (.load slot.type (.instr slot.id))))

/-- Writes a stack slot. -/
def store (slot : Slot) (value : Operand) : Build Unit := do
  let _ ← emit "" (.store value (.instr slot.id))

/-- Computes with two integers. -/
def arith (op : Arithmetic) (left right : Operand) (name : String) : Build Operand := do
  pure (.instr (← emit name (.arith op left right)))

/-- Calls the function at an index; there is no result if it returns nothing. -/
def call (index : Nat) (args : List Operand) (name : String) : Build (Option Operand) := do
  let callee ← Build.function index
  let id ← emit name (.call callee.name args)
  pure (if callee.returns = .void then none else some (.instr id))

/-- Takes a field of an aggregate. -/
def extract (aggregate : Operand) (index : Nat) (name : String) : Build Operand := do
  pure (.instr (← emit name (.extract aggregate index)))

/-- Returns some values. -/
def ret (values : List Operand) : Build Unit := do
  let _ ← emit "" (.ret values)

end Build

end Tuplet.Ir
