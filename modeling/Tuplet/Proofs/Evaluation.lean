import Tuplet.Proofs.Arithmetic
import Tuplet.Proofs.BodyOrder
import Tuplet.Proofs.Recursion

/-!
# Lowered nodes have the values they mean

The code that a node emits is run straight through, whatever is behind it.
Either it leads to a frame in which the operand of the node has the value that
the node means, or it fails as the node does. On the way, instructions get values
and nothing else changes, so that the operands of nodes that have been evaluated
before keep theirs.

Names stand for contents in an environment and for slots in a draft. A frame
simulates an environment if the slots hold those contents. Slots that are yet to
be allocated hold nothing.
-/

namespace Tuplet

open Ir (Instruction Operand Slot ValueType)
open Run (Frame Invoke Progress RunError Value)

theorem Node.running_bind {α β : Type} (computed : Except RunError α)
    (next : α → Except RunError β) :
    running (computed >>= next) = running computed >>= fun value => running (next value) := by
  cases computed <;> rfl

namespace Run

/-- The progress with other instructions to be run. -/
def Progress.withCode (code : List Instruction) : Progress → Progress
  | .next frame => .next (frame.withCode code)
  | .call callee args caller => .call callee args ⟨caller.frame.withCode code, caller.result⟩
  | .ret value => .ret value

namespace Frame

variable {α β : Type} {invoke : Invoke} {frame middle after : Frame}
  {code more : List Instruction} {id : Nat} {name : String}

@[simp] theorem eval_withCode (frame : Frame) (code : List Instruction) (operand : Operand) :
    (frame.withCode code).eval operand = frame.eval operand := by
  cases operand <;> rfl

@[simp] theorem evalAll_withCode (frame : Frame) (code : List Instruction)
    (operands : List Operand) :
    (frame.withCode code).evalAll operands = frame.evalAll operands := by
  induction operands with
  | nil => rfl
  | cons operand rest ih => simp [evalAll, ih]

/-- What an instruction does has nothing to do with what is behind it. -/
theorem perform_withCode (frame : Frame) (code : List Instruction) (id : Nat)
    (action : Ir.Action) :
    (frame.withCode code).perform id action =
      frame.perform id action >>= fun progress => .ok (progress.withCode code) := by
  have content (slot : Nat) : (frame.withCode code).content slot = frame.content slot := rfl
  cases action with
  | alloca type => rfl
  | load type pointer =>
      simp only [perform, content, bind_assoc]
      refine congrArg _ (funext fun slot => congrArg _ (funext fun held => ?_))
      cases held <;> rfl
  | _ =>
      simp only [perform, content, eval_withCode, evalAll_withCode, bind_assoc]
      rfl

/-- A frame runs through some code and is another one then. -/
def Reaches (invoke : Invoke) (frame : Frame) (code : List Instruction) (after : Frame) : Prop :=
  ∀ rest, (frame.withCode (code ++ rest)).finish invoke = (after.withCode rest).finish invoke

/-- A frame fails in some code. -/
def Fails (invoke : Invoke) (frame : Frame) (code : List Instruction) (error : RunError) : Prop :=
  ∀ rest, (frame.withCode (code ++ rest)).finish invoke = .error error

theorem Reaches.refl (frame : Frame) : frame.Reaches invoke [] frame := fun _ => rfl

theorem Reaches.trans (first : frame.Reaches invoke code middle)
    (second : middle.Reaches invoke more after) : frame.Reaches invoke (code ++ more) after := by
  intro rest
  rw [List.append_assoc, first, second]

theorem Reaches.fails {error : RunError} (first : frame.Reaches invoke code middle)
    (second : middle.Fails invoke more error) : frame.Fails invoke (code ++ more) error := by
  intro rest
  rw [List.append_assoc, first, second]

theorem Fails.append {error : RunError} (fails : frame.Fails invoke code error)
    (more : List Instruction) : frame.Fails invoke (code ++ more) error := by
  intro rest
  rw [List.append_assoc, fails]

theorem finish_singleton (invoke : Invoke) (frame : Frame) (instruction : Instruction)
    (rest : List Instruction) :
    (frame.withCode ([instruction] ++ rest)).finish invoke =
      frame.perform instruction.id instruction.action >>= fun progress =>
        (progress.withCode rest).finish invoke := by
  rw [List.singleton_append, finish_cons, perform_withCode, bind_assoc]
  rfl

theorem reaches_of_perform {instruction : Instruction}
    (performed : frame.perform instruction.id instruction.action = .ok (.next after)) :
    frame.Reaches invoke [instruction] after := by
  intro rest
  rw [finish_singleton, performed]
  rfl

theorem fails_of_perform {instruction : Instruction} {error : RunError}
    (performed : frame.perform instruction.id instruction.action = .error error) :
    frame.Fails invoke [instruction] error := by
  intro rest
  rw [finish_singleton, performed]
  rfl

/-- In some code, a frame does what has a result in a program, and something holds then. -/
def Meets (invoke : Invoke) (frame : Frame) (code : List Instruction)
    (result : Except Problem α) (Post : α → Frame → Prop) : Prop :=
  match result with
  | .ok value => ∃ after, frame.Reaches invoke code after ∧ Post value after
  | .error problem => ∃ error, frame.Fails invoke code error ∧ problem.Matches error

variable {Post : α → Frame → Prop} {result : Except Problem α}

theorem Meets.mono {Other : α → Frame → Prop} (meets : frame.Meets invoke code result Post)
    (implies : ∀ value after, Post value after → Other value after) :
    frame.Meets invoke code result Other := by
  cases result with
  | ok value => exact meets.imp fun after reached => ⟨reached.1, implies value after reached.2⟩
  | error problem => exact meets

theorem Meets.bind {Other : β → Frame → Prop} {next : α → Except Problem β}
    (first : frame.Meets invoke code result Post)
    (second : ∀ value middle, Post value middle → middle.Meets invoke more (next value) Other) :
    frame.Meets invoke (code ++ more) (result >>= next) Other := by
  cases result with
  | error problem => exact first.imp fun error fails => ⟨fails.1.append more, fails.2⟩
  | ok value =>
      obtain ⟨middle, reached, post⟩ := first
      have second := second value middle post
      rw [Result.ok_bind]
      unfold Meets at second ⊢
      split at second
      · exact second.imp fun after other => ⟨reached.trans other.1, other.2⟩
      · exact second.imp fun error fails => ⟨reached.fails fails.1, fails.2⟩

theorem Meets.map {Other : β → Frame → Prop} {function : α → β}
    (meets : frame.Meets invoke code result Post)
    (implies : ∀ value after, Post value after → Other (function value) after) :
    frame.Meets invoke code (result >>= fun value => pure (function value)) Other := by
  cases result with
  | ok value => exact meets.imp fun after reached => ⟨reached.1, implies value after reached.2⟩
  | error problem => exact meets

/-- What a program goes on with is what is behind the code. -/
theorem Meets.agrees {next : α → Except Problem Value} {rest : List Instruction}
    (meets : frame.Meets invoke code result Post)
    (continued : ∀ value after, Post value after →
      Agrees (next value) ((after.withCode rest).finish invoke)) :
    Agrees (result >>= next) ((frame.withCode (code ++ rest)).finish invoke) := by
  cases result with
  | ok value =>
      obtain ⟨after, reached, post⟩ := meets
      rw [reached rest]
      exact continued value after post
  | error problem =>
      obtain ⟨error, fails, matching⟩ := meets
      rw [fails rest]
      exact .error matching

/-- An instruction that goes wrong or goes on does what can go wrong in the same way. -/
theorem meets_running {instruction : Instruction} {computed : Except RunError α}
    {next : α → Frame}
    (performed : frame.perform instruction.id instruction.action =
      computed >>= fun value => .ok (.next (next value))) :
    frame.Meets invoke [instruction] (Node.running computed)
      fun value after => after = next value := by
  cases computed with
  | ok value => exact ⟨next value, reaches_of_perform performed, rfl⟩
  | error error => exact ⟨error, fails_of_perform performed, .run error⟩

theorem meets_load {slot : Nat} {type : ValueType} {content : Option Value}
    (held : frame.slots.lookup slot = some content) (read : String) :
    frame.Meets invoke [⟨id, name, .load type (.instr slot)⟩]
      (content.elim (.error (.uninitialised read)) .ok)
      fun value after => after = frame.define id value := by
  have performed : frame.perform id (.load type (.instr slot)) =
      content.elim (.error (.uninitialised slot)) fun value =>
        .ok (.next (frame.define id value)) := by
    simp only [perform, slotId, Frame.content, held, Result.ok_bind]
    cases content <;> rfl
  cases content with
  | some value => exact ⟨_, reaches_of_perform performed, rfl⟩
  | none => exact ⟨_, fails_of_perform performed, .uninitialised read slot⟩

theorem meets_arith {op : Operator} {arithmetic : Ir.Arithmetic} {left right : Operand}
    {leftValue rightValue : Value} (computable : op.arithmetic? = some arithmetic)
    (leftEvaluated : frame.eval left = .ok leftValue)
    (rightEvaluated : frame.eval right = .ok rightValue) :
    frame.Meets invoke [⟨id, name, .arith arithmetic left right⟩]
      (do
        let value ← op.compute (← Node.running leftValue.toInt) (← Node.running rightValue.toInt)
        pure (.int value))
      fun value after => after = frame.define id value := by
  have meaning : (do
        let value ← op.compute (← Node.running leftValue.toInt) (← Node.running rightValue.toInt)
        pure (.int value)) =
      Node.running (do
        let value ← arithmetic.eval (← leftValue.toInt) (← rightValue.toInt)
        pure (Value.int value)) := by
    simp only [Node.running_bind, Operator.compute_eq computable]
    rfl
  rw [meaning]
  apply meets_running
  simp [perform, leftEvaluated, rightEvaluated]

theorem meets_extract {aggregate : Operand} {index : Nat} {value : Value}
    (evaluated : frame.eval aggregate = .ok value) :
    frame.Meets invoke [⟨id, name, .extract aggregate index⟩] (Node.running (value.field index))
      fun part after => after = frame.define id part := by
  apply meets_running
  simp [perform, evaluated]

theorem reaches_store {slot : Nat} {operand : Operand} {content : Option Value} {value : Value}
    (held : frame.slots.lookup slot = some content) (evaluated : frame.eval operand = .ok value) :
    frame.Reaches invoke [⟨id, name, .store operand (.instr slot)⟩]
      (frame.setSlot slot (some value)) := by
  apply reaches_of_perform
  simp [perform, slotId, Frame.content, held, evaluated]

theorem meets_call {call : Answers} {callee : String} {operands : List Operand}
    {args : List Value} (agrees : Agrees (call callee args) (invoke callee args))
    (evaluated : frame.evalAll operands = .ok args) :
    frame.Meets invoke [⟨id, name, .call callee operands⟩] (call callee args)
      fun value after => after = frame.define id value := by
  have finished (rest : List Instruction) :
      (frame.withCode ([⟨id, name, .call callee operands⟩] ++ rest)).finish invoke =
        invoke callee args >>= fun value =>
          ((frame.define id value).withCode rest).finish invoke := by
    rw [finish_singleton]
    simp only [perform, evaluated, Result.ok_bind, Result.pure_eq_ok]
    rfl
  generalize call callee args = answer at agrees ⊢
  generalize invoke callee args = answered at agrees finished
  cases agrees with
  | ok value => exact ⟨frame.define id value, finished, rfl⟩
  | error matching => exact ⟨_, finished, matching⟩

/-- Nothing has changed but that instructions from an id on may have values. -/
structure Keeps (bound : Nat) (frame after : Frame) : Prop where
  args : after.args = frame.args
  slots : after.slots = frame.slots
  values : ∀ id < bound, after.values.lookup id = frame.values.lookup id

theorem Keeps.refl (bound : Nat) (frame : Frame) : Keeps bound frame frame :=
  ⟨rfl, rfl, fun _ _ => rfl⟩

theorem Keeps.trans {bound later : Nat} (first : Keeps bound frame middle)
    (second : Keeps later middle after) (above : bound ≤ later) : Keeps bound frame after where
  args := second.args.trans first.args
  slots := second.slots.trans first.slots
  values id below := (second.values id (by omega)).trans (first.values id below)

theorem Keeps.define {bound : Nat} (keeps : Keeps bound frame after) (above : bound ≤ id)
    (value : Value) : Keeps bound frame (after.define id value) where
  args := keeps.args
  slots := keeps.slots
  values other below :=
    (Lookup.lookup_cons_of_ne (by omega) value after.values).trans (keeps.values other below)

@[simp]
theorem eval_define (frame : Frame) (value : Value) :
    (frame.define id value).eval (.instr id) = .ok value := by
  simp [eval, define]

/-- Operands that can be read behind a draft keep their values. -/
theorem Keeps.eval_eq {draft : Draft} {function : Ir.Function} {operand : Operand}
    (keeps : Keeps draft.next frame after) (sequential : draft.Sequential function)
    (holds : draft.Holds function operand) : after.eval operand = frame.eval operand := by
  cases operand with
  | const value => rfl
  | param index => simp only [eval, keeps.args]
  | instr id =>
      have below : id < draft.next := List.mem_range.mp (sequential.valid.subset holds)
      simp only [eval, keeps.values id below]

/-- The slots of a frame hold what an environment says that names stand for. -/
def Binds (frame : Frame) (draft : Draft) (environment : Environment) : Prop :=
  ∀ name slot, draft.slot? name = some slot →
    ∃ content, environment.lookup name = some content ∧
      frame.slots.lookup slot.id = some content

variable {draft : Draft} {environment : Environment}

theorem Binds.of_slots_eq (binds : frame.Binds draft environment)
    (same : after.slots = frame.slots) : after.Binds draft environment := by
  unfold Binds
  rw [same]
  exact binds

theorem Binds.extend (binds : frame.Binds draft environment) (code : List Instruction) :
    frame.Binds (draft.extend code) environment := by
  unfold Binds
  rw [Draft.slot?_extend]
  exact binds

end Frame

end Run

namespace Node

variable {table : FunctionTable} {call : Answers} {invoke : Invoke} {function : Ir.Function}
  {environment : Environment}

mutual

/-- The code of a node leads to its value, or fails as the node does. -/
theorem Emits.meets (agrees : ∀ name args, Agrees (call name args) (invoke name args)) :
    ∀ {node : Node} {draft : Draft} {code : List Instruction} {operand : Operand} {frame : Frame},
      node.Emits table draft code operand → draft.Sequential function →
        frame.Binds draft environment →
        frame.Meets invoke code (node.eval call environment) fun value after =>
          after.eval operand = .ok value ∧ frame.Keeps draft.next after
  | .literal value, draft, _, _, frame, .literal _, _, _ => by
      rw [eval]
      exact ⟨frame, .refl frame, rfl, .refl draft.next frame⟩
  | .var use, draft, _, _, frame, .var declared, _, binds => by
      obtain ⟨content, bound, held⟩ := binds use.name _ declared
      have meaning : (Node.var use).eval call environment =
          content.elim (.error (.uninitialised use.name)) .ok := by
        rw [eval, bound]
        cases content <;> rfl
      rw [meaning]
      refine (Frame.meets_load held use.name).mono ?_
      rintro value _ rfl
      exact ⟨frame.eval_define value, (Frame.Keeps.refl _ frame).define (Nat.le_refl _) value⟩
  | .binary op left right, draft, _, _, frame, .binary computable leftEmits rightEmits,
      sequential, binds => by
      obtain ⟨leftSequential, leftReadable⟩ := leftEmits.sequential sequential
      rw [eval, List.append_assoc]
      refine (leftEmits.meets agrees sequential binds).bind ?_
      rintro leftValue middle ⟨leftHeld, leftKeeps⟩
      refine (rightEmits.meets agrees leftSequential
        ((binds.of_slots_eq leftKeeps.slots).extend _)).bind ?_
      rintro rightValue last ⟨rightHeld, rightKeeps⟩
      have leftHeld : last.eval _ = .ok leftValue :=
        (rightKeeps.eval_eq leftSequential leftReadable).trans leftHeld
      have keeps := leftKeeps.trans rightKeeps (by simp)
      refine (Frame.meets_arith computable leftHeld rightHeld).mono ?_
      rintro value _ rfl
      exact ⟨last.eval_define value, keeps.define (by simp) value⟩
  | .call name args, draft, _, _, frame, .call declared count returns arguments,
      sequential, binds => by
      rw [eval]
      refine (arguments.meets agrees sequential binds).bind ?_
      rintro values middle ⟨held, keeps⟩
      rw [callCode, if_neg returns, ← List.singleton_append]
      refine (Frame.meets_call (agrees name values) held).bind ?_
      rintro result _ rfl
      refine (Frame.meets_extract (middle.eval_define result)).mono ?_
      rintro part _ rfl
      exact ⟨Frame.eval_define _ part, (keeps.define (by simp) result).define
        (by simp [Nat.add_assoc]) part⟩
  | .group inner, _, _, _, frame, .group emits, sequential, binds => by
      rw [eval]
      exact emits.meets agrees sequential binds

theorem EmitsAll.meets (agrees : ∀ name args, Agrees (call name args) (invoke name args)) :
    ∀ {nodes : List Node} {draft : Draft} {code : List Instruction} {operands : List Operand}
      {frame : Frame},
      EmitsAll table draft nodes code operands → draft.Sequential function →
        frame.Binds draft environment →
        frame.Meets invoke code (evalAll call environment nodes) fun values after =>
          after.evalAll operands = .ok values ∧ frame.Keeps draft.next after
  | [], draft, _, _, frame, .nil, _, _ => by
      rw [evalAll]
      exact ⟨frame, .refl frame, rfl, .refl draft.next frame⟩
  | _ :: _, draft, _, _, frame, .cons first rest, sequential, binds => by
      obtain ⟨firstSequential, readable⟩ := first.sequential sequential
      rw [evalAll]
      refine (first.meets agrees sequential binds).bind ?_
      rintro value middle ⟨held, keeps⟩
      refine (rest.meets agrees firstSequential
        ((binds.of_slots_eq keeps.slots).extend _)).map ?_
      rintro values last ⟨restHeld, restKeeps⟩
      refine ⟨?_, keeps.trans restKeeps (by simp)⟩
      rw [Frame.evalAll, restKeeps.eval_eq firstSequential readable, held, restHeld]
      rfl

end

end Node

end Tuplet
