import Mathlib.Logic.Function.Basic
import Tuplet.Proofs.Lookup
import Tuplet.Proofs.Recursion

/-!
# The machine and a direct evaluator

A second account of what calling a function does, which knows neither frames nor
a stack. A call has its arguments and two maps of its own, one for the values of
instructions and one for stack slots, both empty at first. It goes through the
instructions of its function in order, and where one of them is a call, the
evaluator is used again, one level deeper. Levels are counted from the outermost
call, and a call that would be level `maxFrames` overflows the stack.

`Module.call_eq_evaluate` says that the machine gives the same answer for every
module, whether or not anything about it has been verified. The lists in which a
frame keeps its values and slots are read as maps, and then running a frame to
its end is executing its instructions.
-/

namespace Tuplet.Run

open Ir

/-- What a call works with: its arguments, the values of its instructions, and its slots. -/
structure Locals where
  args : List Value
  values : Nat → Option Value
  slots : Nat → Option (Option Value)

namespace Locals

/-- What a call starts with. -/
def fresh (args : List Value) : Locals := ⟨args, fun _ => none, fun _ => none⟩

def define (locals : Locals) (id : Nat) (value : Value) : Locals :=
  { locals with values := Function.update locals.values id (some value) }

def fillSlot (locals : Locals) (id : Nat) (content : Option Value) : Locals :=
  { locals with slots := Function.update locals.slots id (some content) }

/-- The value of an operand. -/
def read (locals : Locals) : Operand → Except RunError Value
  | .const value => .ok (.int value)
  | .param index =>
      if bounded : index < locals.args.length then .ok (locals.args.get ⟨index, bounded⟩)
      else .error (.parameterOutOfRange index)
  | .instr id => (locals.values id).elim (.error (.noValue id)) .ok

/-- The slot that an operand points to, and what it holds. -/
def slot (locals : Locals) : Operand → Except RunError (Nat × Option Value)
  | .instr id => (locals.slots id).elim (.error (.unknownSlot id)) fun content => .ok (id, content)
  | _ => .error .notASlot

end Locals

/-- Goes through the instructions of a function, where `invoke` answers its calls. -/
def execute (invoke : Invoke) (function : String) :
    List Instruction → Locals → Except RunError Value
  | [], _ => .error (.noReturn function)
  | ⟨id, _, .alloca _⟩ :: rest, locals => execute invoke function rest (locals.fillSlot id none)
  | ⟨id, _, .load _ pointer⟩ :: rest, locals => do
      match ← locals.slot pointer with
      | (_, some value) => execute invoke function rest (locals.define id value)
      | (slot, none) => throw (.uninitialised slot)
  | ⟨_, _, .store value pointer⟩ :: rest, locals => do
      let value ← locals.read value
      let (slot, _) ← locals.slot pointer
      execute invoke function rest (locals.fillSlot slot (some value))
  | ⟨id, _, .arith op left right⟩ :: rest, locals => do
      let left ← (← locals.read left).toInt
      let right ← (← locals.read right).toInt
      let value ← op.eval left right
      execute invoke function rest (locals.define id (.int value))
  | ⟨id, _, .call callee args⟩ :: rest, locals => do
      let args ← args.mapM locals.read
      let value ← invoke callee args
      execute invoke function rest (locals.define id value)
  | ⟨id, _, .extract aggregate index⟩ :: rest, locals => do
      let value ← (← locals.read aggregate).field index
      execute invoke function rest (locals.define id value)
  | ⟨_, _, .ret values⟩ :: _, locals => do
      let values ← values.mapM locals.read
      pure (.ofReturns values)

end Tuplet.Run

namespace Tuplet.Ir.Module

open Run

/-- Calls a function of a module while `depth` calls are open already. -/
def evaluate (module : Module) (depth : Nat) (name : String) (args : List Value) :
    Except RunError Value :=
  match module.get? name with
  | none => .error (.unknownFunction name)
  | some function =>
      if function.isDeclaration then .error (.noBody name)
      else if function.params.length ≠ args.length then
        .error (.argumentCount name function.params.length args.length)
      else if maxFrames ≤ depth then .error (.stackOverflow name)
      else execute (module.evaluate (depth + 1)) function.name function.code (.fresh args)
termination_by maxFrames - depth

end Tuplet.Ir.Module

namespace Tuplet.Run

open Ir

namespace Frame

/-- What a frame knows, as maps. -/
def locals (frame : Frame) : Locals :=
  ⟨frame.args, fun id => frame.values.lookup id, fun id => frame.slots.lookup id⟩

variable (frame : Frame)

theorem lookup_cons_eq_update {α : Type} (entries : List (Nat × α)) (key : Nat) (value : α) :
    (fun id => List.lookup id ((key, value) :: entries)) =
      Function.update (fun id => List.lookup id entries) key (some value) := by
  funext id
  by_cases same : id = key
  · subst same
    simp
  · rw [Function.update_of_ne same, Lookup.lookup_cons_of_ne same]

@[simp]
theorem locals_define (id : Nat) (value : Value) :
    (frame.define id value).locals = frame.locals.define id value := by
  simp only [define, locals, Locals.define, lookup_cons_eq_update]

@[simp]
theorem locals_setSlot (id : Nat) (content : Option Value) :
    (frame.setSlot id content).locals = frame.locals.fillSlot id content := by
  simp only [setSlot, locals, Locals.fillSlot, lookup_cons_eq_update]

theorem eval_eq_read (operand : Operand) : frame.eval operand = frame.locals.read operand := by
  cases operand with
  | const value => rfl
  | param index =>
      by_cases bounded : index < frame.args.length
      · simp [eval, Locals.read, locals, bounded]
      · simp [eval, Locals.read, locals, bounded]
  | instr id => cases found : frame.values.lookup id <;> simp [eval, Locals.read, locals, found]

theorem evalAll_eq_mapM (operands : List Operand) :
    frame.evalAll operands = operands.mapM frame.locals.read := by
  induction operands with
  | nil => rfl
  | cons operand rest ih => simp only [evalAll, List.mapM_cons, eval_eq_read, ih]

/-- Looking a slot up comes in two steps for a frame. -/
theorem slot_eq (pointer : Operand) :
    frame.locals.slot pointer =
      (do let id ← slotId pointer
          let content ← frame.content id
          pure (id, content)) := by
  cases pointer with
  | const value => rfl
  | param index => rfl
  | instr id =>
      cases found : frame.slots.lookup id <;>
        simp [Locals.slot, locals, slotId, content, found]

/-- Running a frame to its end is executing the instructions that it has left. -/
theorem finish_withCode (invoke : Invoke) (code : List Instruction) :
    (frame.withCode code).finish invoke = execute invoke frame.name code frame.locals := by
  induction code generalizing frame with
  | nil =>
      rw [finish_eq]
      rfl
  | cons instruction rest ih =>
      rcases instruction with ⟨id, label, action⟩
      -- A step that goes on leaves the rest to a frame that has the same name.
      have afterValue (value : Value) :
          ((frame.withCode rest).define id value).finish invoke =
            execute invoke frame.name rest (frame.locals.define id value) := by
        rw [← locals_define]
        exact ih (frame.define id value)
      have afterSlot (slot : Nat) (content : Option Value) :
          ((frame.withCode rest).setSlot slot content).finish invoke =
            execute invoke frame.name rest (frame.locals.fillSlot slot content) := by
        rw [← locals_setSlot]
        exact ih (frame.setSlot slot content)
      have sameLocals : (frame.withCode rest).locals = frame.locals := rfl
      rw [finish_cons]
      cases action with
      | alloca type => exact afterSlot id none
      | load type pointer =>
          simp only [perform, execute, ← sameLocals, slot_eq, bind_assoc]
          refine bind_congr fun slot => bind_congr fun content => ?_
          cases content with
          | none => rfl
          | some value => exact afterValue value
      | store value pointer =>
          simp only [perform, execute, ← sameLocals, slot_eq, eval_eq_read, bind_assoc]
          exact bind_congr fun stored => bind_congr fun slot => bind_congr fun _ =>
            afterSlot slot (some stored)
      | arith op left right =>
          simp only [perform, execute, eval_eq_read, sameLocals, bind_assoc]
          exact bind_congr fun _ => bind_congr fun _ => bind_congr fun _ => bind_congr fun _ =>
            bind_congr fun value => afterValue (.int value)
      | call callee args =>
          simp only [perform, execute, evalAll_eq_mapM, sameLocals, bind_assoc]
          exact bind_congr fun values => bind_congr fun value => afterValue value
      | extract aggregate index =>
          simp only [perform, execute, eval_eq_read, sameLocals, bind_assoc]
          exact bind_congr fun _ => bind_congr fun value => afterValue value
      | ret values =>
          simp only [perform, execute, evalAll_eq_mapM, sameLocals, bind_assoc]
          rfl

theorem finish_start (invoke : Invoke) (function : Function) (args : List Value) :
    (start function args).finish invoke =
      execute invoke function.name function.code (.fresh args) :=
  (start function args).finish_withCode invoke function.code

end Frame

end Tuplet.Run

namespace Tuplet.Ir.Module

open Run

theorem evaluate_eq_invoke (module : Module) (depth : Nat) :
    module.evaluate depth = module.invoke (maxFrames - depth) := by
  induction left : maxFrames - depth generalizing depth with
  | zero =>
      have full : maxFrames ≤ depth := by omega
      funext name args
      unfold evaluate invoke
      cases module.get? name with
      | none => rfl
      | some function => simp only [full, if_true]
  | succ room ih =>
      have fits : ¬ maxFrames ≤ depth := by omega
      have deeper : module.evaluate (depth + 1) = module.invoke room := ih (depth + 1) (by omega)
      funext name args
      unfold evaluate invoke
      cases module.get? name with
      | none => rfl
      | some function =>
          simp only [fits, if_false, deeper, Frame.finish_start]

/-- The machine answers every call as the evaluator does that has no stack. -/
theorem call_eq_evaluate (module : Module) (name : String) (args : List Value) :
    module.call name args = module.evaluate 0 name args := by
  rw [call_eq_invoke, evaluate_eq_invoke]
  rfl

end Tuplet.Ir.Module
