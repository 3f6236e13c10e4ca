import Tuplet.Run.Value

/-!
# Frames

A frame is one call of a function in progress: the instructions it has yet to
run, the values its instructions have had so far, and the contents of its stack
slots. Where an id occurs more than once, the latest entry counts. A step runs
one instruction. Calls are not run here: the frame says what it wants to call
and which instruction the result belongs to.
-/

namespace Tuplet.Run

open Ir

/-- A call of a function in progress. -/
structure Frame where
  /-- The name of the function. -/
  name : String
  args : List Value
  /-- The instructions still to be run. -/
  code : List Instruction
  /-- What instructions have evaluated to, latest first. -/
  values : List (Nat × Value)
  /-- What stack slots hold, if anything yet, latest first. -/
  slots : List (Nat × Option Value)
  deriving Repr

/-- A frame that waits for a call to return. -/
structure Caller where
  frame : Frame
  /-- The id of the instruction that called. -/
  result : Nat
  deriving Repr

/-- What a step of a frame leads to. -/
inductive Progress where
  | next (frame : Frame)
  | call (callee : String) (args : List Value) (caller : Caller)
  | ret (value : Value)
  deriving Repr

/-- Whether a step from a frame with some code has left less of it. -/
def Progress.Shortens (code : List Instruction) : Progress → Prop
  | next frame => frame.code.length < code.length
  | call _ _ caller => caller.frame.code.length < code.length
  | ret _ => True

namespace Frame

/-- The frame of a call that is about to start. -/
def start (function : Function) (args : List Value) : Frame :=
  ⟨function.name, args, function.code, [], []⟩

/-- Records what an instruction evaluates to. -/
def define (frame : Frame) (id : Nat) (value : Value) : Frame :=
  { frame with values := (id, value) :: frame.values }

/-- Records what a stack slot holds. -/
def setSlot (frame : Frame) (id : Nat) (content : Option Value) : Frame :=
  { frame with slots := (id, content) :: frame.slots }

/-- The value of an operand. -/
def eval (frame : Frame) : Operand → Except RunError Value
  | .const value => .ok (.int value)
  | .param index =>
      match frame.args[index]? with
      | some value => .ok value
      | none => .error (.parameterOutOfRange index)
  | .instr id =>
      match frame.values.lookup id with
      | some value => .ok value
      | none => .error (.noValue id)

/-- The values of some operands, in order. -/
def evalAll (frame : Frame) : List Operand → Except RunError (List Value)
  | [] => .ok []
  | operand :: rest => do
      let value ← frame.eval operand
      let values ← frame.evalAll rest
      pure (value :: values)

/-- The id of the slot that an operand points to. -/
def slotId : Operand → Except RunError Nat
  | .instr id => .ok id
  | _ => .error .notASlot

/-- What the slot of an id holds. -/
def content (frame : Frame) (id : Nat) : Except RunError (Option Value) :=
  match frame.slots.lookup id with
  | some content => .ok content
  | none => .error (.unknownSlot id)

/-- Runs an instruction in a frame that has moved past it. -/
def perform (frame : Frame) (id : Nat) : Action → Except RunError Progress
  | .alloca _ => .ok (.next (frame.setSlot id none))
  | .load _ pointer => do
      let slot ← slotId pointer
      match ← frame.content slot with
      | some value => pure (.next (frame.define id value))
      | none => throw (.uninitialised slot)
  | .store value pointer => do
      let value ← frame.eval value
      let slot ← slotId pointer
      let _ ← frame.content slot
      pure (.next (frame.setSlot slot (some value)))
  | .arith op left right => do
      let left ← (← frame.eval left).toInt
      let right ← (← frame.eval right).toInt
      let value ← op.eval left right
      pure (.next (frame.define id (.int value)))
  | .call callee args => do
      let args ← frame.evalAll args
      pure (.call callee args ⟨frame, id⟩)
  | .extract aggregate index => do
      let value ← (← frame.eval aggregate).field index
      pure (.next (frame.define id value))
  | .ret values => do
      let values ← frame.evalAll values
      pure (.ret (.ofReturns values))

/-- Runs the next instruction of a frame. -/
def step (frame : Frame) : Except RunError Progress :=
  match frame.code with
  | [] => .error (.noReturn frame.name)
  | instruction :: rest => { frame with code := rest }.perform instruction.id instruction.action

theorem code_perform {frame : Frame} {id : Nat} {action : Action} {progress : Progress}
    {code : List Instruction} (shorter : frame.code.length < code.length)
    (performed : frame.perform id action = .ok progress) : progress.Shortens code := by
  cases action <;>
    simp only [perform, bind, Except.bind, pure, Except.pure, throw, throwThe,
      MonadExceptOf.throw] at performed <;>
    (repeat' split at performed) <;>
    first
      | (obtain rfl := Except.ok.inj performed; trivial)
      | simp at performed

/-- Every step leaves fewer instructions to be run. -/
theorem code_step {frame : Frame} {progress : Progress} (stepped : frame.step = .ok progress) :
    progress.Shortens frame.code := by
  unfold step at stepped
  split at stepped
  · simp at stepped
  · rename_i instruction rest codeEq
    exact code_perform (by simp [codeEq]) stepped

end Frame

end Tuplet.Run
