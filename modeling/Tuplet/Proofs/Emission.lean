import Tuplet.Proofs.LoweringLog
import Tuplet.Proofs.WellFormed

/-!
# What lowering adds to a body

While a body is lowered, the function at the insertion point always consists of
stack slots followed by other instructions, and lowering only adds to both. A
draft is such a pair. An emission says what a step adds to the draft it starts
from and what comes of the step; what has been added stays when a step fails.

Of everything else, a step sees the profiles of the functions that have been
declared and the frames of names around the body.
-/

namespace Tuplet

/-- The part of a body that has been lowered. -/
structure Draft where
  /-- The stack slots, in the order in which they were made, and their names. -/
  slots : List (String × Ir.Slot)
  /-- The other instructions. -/
  code : List Ir.Instruction

namespace Draft

/-- Nothing has been lowered. -/
def empty : Draft := ⟨[], []⟩

instance : Append Draft :=
  ⟨fun draft added => ⟨draft.slots ++ added.slots, draft.code ++ added.code⟩⟩

/-- The id of the next instruction. -/
def next (draft : Draft) : Nat := draft.slots.length + draft.code.length

/-- The instruction that makes a slot. -/
def slotInstruction (slot : String × Ir.Slot) : Ir.Instruction :=
  ⟨slot.2.id, slot.1, .alloca slot.2.type⟩

/-- All instructions in order. -/
def instructions (draft : Draft) : List Ir.Instruction :=
  draft.slots.map slotInstruction ++ draft.code

/-- The latest slot. -/
def lastSlot (draft : Draft) : Option Ir.Slot := draft.slots.getLast?.map (·.2)

/-- A function with a draft as its body. -/
def fill (draft : Draft) (function : Ir.Function) : Ir.Function :=
  { function with blocks := [⟨"entry", draft.instructions⟩], nextId := draft.next }

@[simp] theorem slots_append (draft added : Draft) :
    (draft ++ added).slots = draft.slots ++ added.slots := rfl

@[simp] theorem code_append (draft added : Draft) :
    (draft ++ added).code = draft.code ++ added.code := rfl

@[simp] theorem slots_empty : empty.slots = [] := rfl

@[simp] theorem code_empty : empty.code = [] := rfl

@[ext]
theorem ext {draft other : Draft} (slots : draft.slots = other.slots)
    (code : draft.code = other.code) : draft = other := by
  cases draft
  cases other
  simp_all

@[simp] theorem append_empty (draft : Draft) : draft ++ empty = draft := by ext <;> simp

@[simp] theorem empty_append (draft : Draft) : empty ++ draft = draft := by ext <;> simp

theorem append_assoc (draft added more : Draft) :
    draft ++ added ++ more = draft ++ (added ++ more) := by
  ext <;> simp

end Draft

/-- What a body is lowered among. -/
structure Surroundings where
  /-- The profiles of the functions that have been declared. -/
  profile? : String → Option Profile
  /-- The frames of names around the body. -/
  frames : List (List (String × Ir.Slot))

/-- A step that adds to a draft. -/
def Emission (α : Type) := Draft → Draft × Except LoweringFailure α

namespace Emission

variable {α : Type}

instance : Monad Emission where
  pure value := fun _ => (.empty, .ok value)
  bind step next := fun draft =>
    match step draft with
    | (added, .error failure) => (added, .error failure)
    | (added, .ok value) =>
        (added ++ (next value (draft ++ added)).1, (next value (draft ++ added)).2)

/-- Gives up because of an error. -/
def fail (error : LoweringError) : Emission α := fun _ => (.empty, .error (.because error))

/-- Puts a construct around a failure. -/
def inside (context : LoweringContext) (step : Emission α) : Emission α := fun draft =>
  ((step draft).1, (step draft).2.mapError (·.inside context))

/-- The slot that a name stands for. -/
def slot? (around : Surroundings) (name : String) : Emission (Option Ir.Slot) := fun draft =>
  (.empty, .ok ((Scope.mk (draft.slots.reverse :: around.frames)).lookup name))

/-- Adds an instruction and gives its id. -/
def emit (name : String) (action : Ir.Action) : Emission Nat := fun draft =>
  (⟨[], [⟨draft.next, name, action⟩]⟩, .ok draft.next)

/-- Adds the instruction that writes a slot. -/
def store (slot : Ir.Slot) (operand : Ir.Operand) : Emission Unit := do
  let _ ← emit "" (.store operand (.instr slot.id))

/-- Adds a slot for a name. -/
def allocate (type : Ir.ValueType) (name : String) : Emission Ir.Slot := fun draft =>
  (⟨[(name, ⟨draft.next, type⟩)], []⟩, .ok ⟨draft.next, type⟩)

/-- The type of the values that a type name stands for. -/
def resolve (name : String) : Emission Ir.ValueType :=
  match Primitive.ofName? name with
  | none => fail (.unknownType name)
  | some type =>
      match Ir.ValueType.ofPrimitive type with
      | .ok type => pure type
      | .error error => fail (.build error)

/-- The slot that a name has to stand for. -/
def slotOf (around : Surroundings) (name : String) : Emission Ir.Slot := do
  match ← slot? around name with
  | some slot => pure slot
  | none => fail (.notDeclared name)

/-- The profile of a function that is called with a number of arguments. -/
def callee (around : Surroundings) (name : String) (given : Nat) : Emission Profile :=
  match around.profile? name with
  | none => fail (.unknownFunction name)
  | some profile =>
      if profile.params.length = given then pure profile
      else fail (.argumentCount name profile.params.length given)

/-- Adds a call and the extraction of its first value, if it has any. -/
def emitCall (profile : Profile) (name : String) (args : List Ir.Operand) :
    Emission (Option Ir.Operand) := do
  let id ← emit name (.call name args)
  if profile.returns = [] then pure none
  else do
    let first ← emit "" (.extract (.instr id) 0)
    pure (some (.instr first))

/-- Adds the instruction of an operator. -/
def emitOperator (op : Operator) (left right : Ir.Operand) : Emission Ir.Operand :=
  match op.arithmetic? with
  | some arithmetic => do
      let id ← emit "" (.arith arithmetic left right)
      pure (.instr id)
  | none => fail (.unsupportedOperator op)

mutual

/-- What lowering a node that has to have a value adds. -/
def value (around : Surroundings) : Node → Emission Ir.Operand
  | .literal number => pure (.const number)
  | .var use => do
      let slot ← slotOf around use.name
      let id ← emit use.name (.load slot.type (.instr slot.id))
      pure (.instr id)
  | .binary op left right => do
      let left ← value around left
      let right ← value around right
      emitOperator op left right
  | .call name args => do
      let profile ← callee around name args.length
      let operands ← arguments around name 1 args
      match ← emitCall profile name operands with
      | some operand => pure operand
      | none => fail (.noResult name)
  | .group inner => value around inner
  | .assign _ _ => fail (.notAValue .assign)
  | .decl _ => fail (.notAValue .decl)
  | .signature _ => fail (.notAValue .signature)
  | .function _ _ => fail (.notAValue .function)
  | .ret _ => fail (.notAValue .ret)

/-- What lowering the arguments of a call adds, the first of which is at a position. -/
def arguments (around : Surroundings) (name : String) (position : Nat) :
    List Node → Emission (List Ir.Operand)
  | [] => pure []
  | arg :: rest => do
      let operand ← inside (.argument position name) (value around arg)
      let operands ← arguments around name (position + 1) rest
      pure (operand :: operands)

end

/-- What lowering a call that need not have a value adds. -/
def call (around : Surroundings) (name : String) (args : List Node) :
    Emission (Option Ir.Operand) := do
  let profile ← callee around name args.length
  let operands ← arguments around name 1 args
  emitCall profile name operands

/-- What lowering nodes that have to have values adds. -/
def values (around : Surroundings) : List Node → Emission (List Ir.Operand)
  | [] => pure []
  | node :: rest => do
      let operand ← value around node
      let operands ← values around rest
      pure (operand :: operands)

/-- What lowering a declaration adds. -/
def declaration (around : Surroundings) (declared : Declaration) : Emission Ir.Slot := do
  if (← slot? around declared.name).isSome then fail (.nameTaken declared.name)
  else
    let type ← resolve declared.type
    allocate type declared.name

/-- What lowering the target of an assignment adds. -/
def target (around : Surroundings) : Target → Emission Ir.Slot
  | .decl declared => declaration around declared
  | .var use => slotOf around use.name

/-- What lowering a statement adds. -/
def statement (around : Surroundings) : Node → Emission Unit
  | .decl declared => do let _ ← declaration around declared
  | .assign assigned node => do
      let slot ← target around assigned
      let operand ← inside .assignedValue (value around node)
      store slot operand
  | .call name args => do let _ ← call around name args
  | .ret nodes => do
      let operands ← values around nodes
      let _ ← emit "" (.ret operands)
  | node => fail (.notAStatement node.form)

/-- What lowering statements adds. -/
def statements (around : Surroundings) : List Node → Emission Unit
  | [] => pure ()
  | node :: rest => do
      inside (.statement node.form) (statement around node)
      statements around rest

/-- What giving parameters slots of their own adds, the first of which is at a position. -/
def parameters (around : Surroundings) (position : Nat) : List Parameter → Emission Unit
  | [] => pure ()
  | param :: rest => do
      if (← slot? around param.name).isSome then fail (.parameterTaken param.name)
      else
        let type ← resolve param.type
        let slot ← allocate type param.name
        store slot (.param position)
        parameters around (position + 1) rest

/-- What lowering a body adds. -/
def body (around : Surroundings) (params : List Parameter) (nodes : List Node) : Emission Unit := do
  parameters around 0 params
  statements around nodes

end Emission

end Tuplet
