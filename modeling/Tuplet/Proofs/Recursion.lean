import Tuplet.Proofs.Result
import Tuplet.Run.Machine

/-!
# Calls as recursion

The machine keeps the frames of unfinished calls on a stack. The same runs can
be described without one: a frame runs to its end on its own, and a call is
answered by a function that the frame is given. `Module.invoke` ties the knot:
it answers calls by running frames, with room for one frame less each time.

`Machine.run_eq` says that a machine does the same. The callers that wait are
what is left to be done once the current frame has returned.
-/

namespace Tuplet.Run

open Ir

/-- Something that answers calls. -/
abbrev Invoke := String → List Value → Except RunError Value

namespace Frame

/-- The frame with other instructions to be run. -/
def withCode (frame : Frame) (code : List Instruction) : Frame := { frame with code }

/-- Runs a frame until it returns, where `invoke` answers its calls. -/
def finish (invoke : Invoke) (frame : Frame) : Except RunError Value :=
  match _ : frame.step with
  | .error error => .error error
  | .ok (.next next) => next.finish invoke
  | .ok (.call callee args caller) =>
      match invoke callee args with
      | .error error => .error error
      | .ok value => (caller.frame.define caller.result value).finish invoke
  | .ok (.ret value) => .ok value
termination_by frame.code.length
decreasing_by
  all_goals exact code_step ‹_›

end Frame

namespace Progress

/-- Goes on from where a step of a frame has led. -/
def finish (invoke : Invoke) : Progress → Except RunError Value
  | next frame => frame.finish invoke
  | call callee args caller => do
      let value ← invoke callee args
      (caller.frame.define caller.result value).finish invoke
  | ret value => .ok value

/-- These instructions are left to be run. -/
def Leaves (code : List Instruction) : Progress → Prop
  | next frame => frame.code = code
  | call _ _ caller => caller.frame.code = code
  | ret _ => True

end Progress

namespace Frame

/-- Performing an instruction does not touch the ones that are still to be run. -/
theorem leaves_of_perform {frame : Frame} {id : Nat} {action : Action} {progress : Progress}
    (performed : frame.perform id action = .ok progress) : progress.Leaves frame.code := by
  cases action <;> simp only [perform, Result.bind_eq_ok_iff, Result.pure_eq_ok] at performed
  case alloca type =>
    obtain rfl := Except.ok.inj performed
    rfl
  case load type pointer =>
    obtain ⟨slot, _, content, _, performed⟩ := performed
    cases content with
    | none => simp at performed
    | some value =>
        obtain rfl := Except.ok.inj performed
        rfl
  case store value pointer =>
    obtain ⟨stored, _, slot, _, content, _, performed⟩ := performed
    obtain rfl := Except.ok.inj performed
    rfl
  case arith op left right =>
    obtain ⟨_, _, _, _, _, _, _, _, value, _, performed⟩ := performed
    obtain rfl := Except.ok.inj performed
    rfl
  case call callee args =>
    obtain ⟨values, _, performed⟩ := performed
    obtain rfl := Except.ok.inj performed
    rfl
  case extract aggregate index =>
    obtain ⟨_, _, value, _, performed⟩ := performed
    obtain rfl := Except.ok.inj performed
    rfl
  case ret values =>
    obtain ⟨results, _, performed⟩ := performed
    obtain rfl := Except.ok.inj performed
    trivial

theorem finish_eq (invoke : Invoke) (frame : Frame) :
    frame.finish invoke = frame.step >>= Progress.finish invoke := by
  rw [finish]
  split <;> rename_i stepped <;> simp only [stepped, Result.ok_bind, Progress.finish]
  · rfl
  · rename_i callee args caller
    cases invoke callee args <;> rfl

theorem finish_cons (invoke : Invoke) (frame : Frame) (instruction : Instruction)
    (rest : List Instruction) :
    (frame.withCode (instruction :: rest)).finish invoke =
      (frame.withCode rest).perform instruction.id instruction.action >>=
        Progress.finish invoke := by
  rw [finish_eq]
  rfl

end Frame

end Tuplet.Run

namespace Tuplet.Ir.Module

open Run

/-- Calls a function of a module when `room` more frames may be open at a time. -/
def invoke (module : Module) (room : Nat) (name : String) (args : List Value) :
    Except RunError Value :=
  match module.get? name with
  | none => .error (.unknownFunction name)
  | some function =>
      if function.isDeclaration then .error (.noBody name)
      else if function.params.length ≠ args.length then
        .error (.argumentCount name function.params.length args.length)
      else
        match room with
        | 0 => .error (.stackOverflow name)
        | room + 1 => (Frame.start function args).finish (module.invoke room)

variable {module : Module} {function : Function} {name : String} {args : List Value}

theorem invoke_unknown (room : Nat) (unknown : module.get? name = none) :
    module.invoke room name args = .error (.unknownFunction name) := by
  unfold invoke
  rw [unknown]

theorem invoke_declaration (room : Nat) (found : module.get? name = some function)
    (declared : function.isDeclaration = true) :
    module.invoke room name args = .error (.noBody name) := by
  unfold invoke
  simp [found, declared]

theorem invoke_wrongCount (room : Nat) (found : module.get? name = some function)
    (body : function.isDeclaration = false) (count : function.params.length ≠ args.length) :
    module.invoke room name args =
      .error (.argumentCount name function.params.length args.length) := by
  unfold invoke
  simp [found, body, count]

theorem invoke_full (found : module.get? name = some function)
    (body : function.isDeclaration = false) (count : function.params.length = args.length) :
    module.invoke 0 name args = .error (.stackOverflow name) := by
  unfold invoke
  simp [found, body, count]

theorem invoke_succ (room : Nat) (found : module.get? name = some function)
    (body : function.isDeclaration = false) (count : function.params.length = args.length) :
    module.invoke (room + 1) name args =
      (Frame.start function args).finish (module.invoke room) := by
  rw [invoke]
  simp [found, body, count]

end Tuplet.Ir.Module

namespace Tuplet.Run

open Ir

/-- Once a call has returned a value, lets the callers that wait for it run to their ends. -/
def resume (module : Module) : List Caller → Value → Except RunError Value
  | [], value => .ok value
  | caller :: callers, value => do
      let value ← (caller.frame.define caller.result value).finish
        (module.invoke (maxFrames - (callers.length + 1)))
      resume module callers value

namespace Status

/-- What comes of a status when no stack is kept. -/
def outcome (module : Module) : Status → Except RunError Value
  | running machine => do
      let value ← machine.current.finish (module.invoke (maxFrames - machine.height))
      resume module machine.callers value
  | finished value => .ok value

end Status

namespace Machine

/-- Entering a call comes to what answering it and resuming the callers comes to. -/
theorem outcome_enter (module : Module) (callers : List Caller) (callee : String)
    (args : List Value) :
    (enter module callers callee args).map .running >>= Status.outcome module =
      module.invoke (maxFrames - callers.length) callee args >>= resume module callers := by
  unfold enter Module.invoke
  cases module.get? callee with
  | none => rfl
  | some function =>
      by_cases declared : function.isDeclaration
      · simp [declared, Except.map]
      by_cases count : function.params.length = args.length
      · by_cases full : maxFrames ≤ callers.length
        · have noRoom : maxFrames - callers.length = 0 := by omega
          simp [declared, count, full, noRoom, Except.map]
        · obtain ⟨room, roomEq⟩ : ∃ room, maxFrames - callers.length = room + 1 :=
            ⟨maxFrames - callers.length - 1, by omega⟩
          have roomAbove : maxFrames - (callers.length + 1) = room := by omega
          simp [declared, count, full, roomEq, roomAbove, Except.map, Status.outcome, height]
      · simp [declared, count, Except.map]

/-- Every step keeps what comes of a machine. -/
theorem outcome_step (module : Module) (machine : Machine) :
    machine.step module >>= Status.outcome module =
      Status.outcome module (.running machine) := by
  simp only [Status.outcome, Frame.finish_eq, step]
  cases machine.current.step with
  | error error => rfl
  | ok progress =>
      cases progress with
      | next frame => rfl
      | ret value =>
          cases callersEq : machine.callers with
          | nil => rfl
          | cons caller callers => rfl
      | call callee args caller =>
          -- The frame that calls is the first of the callers that are resumed afterwards.
          simp only [outcome_enter, Result.ok_bind, Progress.finish, bind_assoc]
          rfl

/-- A machine runs its current frame to the end, and then the callers that wait for it. -/
theorem run_eq (module : Module) (machine : Machine) :
    machine.run module = Status.outcome module (.running machine) := by
  fun_induction run module machine with
  | case1 machine error stepped =>
      rw [← outcome_step, stepped]
      rfl
  | case2 machine value stepped =>
      rw [← outcome_step, stepped]
      rfl
  | case3 machine next stepped ih =>
      rw [← outcome_step, stepped, ih]
      rfl

end Machine

end Tuplet.Run

namespace Tuplet.Ir.Module

open Run

theorem call_eq_invoke (module : Module) (name : String) (args : List Value) :
    module.call name args = module.invoke maxFrames name args := by
  have entered := Machine.outcome_enter module [] name args
  cases opened : Machine.enter module [] name args with
  | error error =>
      rw [opened] at entered
      simpa [call, opened, resume, Except.map] using entered
  | ok machine =>
      rw [opened] at entered
      simpa [call, opened, resume, Except.map, Machine.run_eq] using entered

end Tuplet.Ir.Module
