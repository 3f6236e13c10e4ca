import Tuplet.Run.Frame

/-!
# The machine

A machine runs a call on a stack of frames: the current frame, and below it the
callers that wait. At most `maxFrames` frames are open at a time. That bound is
also why every run ends: a frame never goes back, so each of its instructions
can open at most one frame above it, and only so many frames fit above each
other. `Machine.weight` counts this, and every step makes it smaller.
-/

namespace Tuplet.Run

open Ir

/-- How many frames may be open at a time. -/
def maxFrames : Nat := 512

/-- A stack of frames. -/
structure Machine where
  current : Frame
  /-- The frames that wait, innermost first. -/
  callers : List Caller
  deriving Repr

/-- What a step of a machine leads to. -/
inductive Status where
  | running (machine : Machine)
  | finished (value : Value)
  deriving Repr

namespace Machine

/-- How many frames are open. -/
def height (machine : Machine) : Nat := machine.callers.length + 1

/-- Opens a frame for a call above the callers that wait. -/
def enter (module : Module) (callers : List Caller) (name : String) (args : List Value) :
    Except RunError Machine :=
  match module.get? name with
  | none => .error (.unknownFunction name)
  | some function =>
      if function.isDeclaration then .error (.noBody name)
      else if function.params.length ≠ args.length then
        .error (.argumentCount name function.params.length args.length)
      else if maxFrames ≤ callers.length then .error (.stackOverflow name)
      else .ok ⟨Frame.start function args, callers⟩

/-- Gives a value back to the innermost caller, or to the outside. -/
def leave (callers : List Caller) (value : Value) : Status :=
  match callers with
  | [] => .finished value
  | caller :: callers => .running ⟨caller.frame.define caller.result value, callers⟩

/-- Runs the next instruction. -/
def step (module : Module) (machine : Machine) : Except RunError Status :=
  match machine.current.step with
  | .error error => .error error
  | .ok (.next frame) => .ok (.running { machine with current := frame })
  | .ok (.ret value) => .ok (leave machine.callers value)
  | .ok (.call callee args caller) =>
      (enter module (caller :: machine.callers) callee args).map .running

/-- The length of the longest function of a module. -/
def longest (module : Module) : Nat :=
  module.functions.foldr (fun function bound => max function.code.length bound) 0

/-- How much an instruction weighs in a frame above which `room` more frames fit. -/
def instructionWeight (module : Module) : Nat → Nat
  | 0 => 1
  | room + 1 => longest module * instructionWeight module room + 2

theorem instructionWeight_pos (module : Module) (room : Nat) :
    0 < instructionWeight module room := by
  cases room <;> simp [instructionWeight]

/-- How much a frame weighs that has `below` frames below it. -/
def frameWeight (module : Module) (below : Nat) (frame : Frame) : Nat :=
  frame.code.length * instructionWeight module (maxFrames - 1 - below) + 1

/-- How much the callers that wait weigh. -/
def callersWeight (module : Module) : List Caller → Nat
  | [] => 0
  | caller :: below =>
      frameWeight module below.length caller.frame + callersWeight module below

/-- A number that every step makes smaller. -/
def weight (module : Module) (machine : Machine) : Nat :=
  frameWeight module machine.callers.length machine.current +
    callersWeight module machine.callers

theorem length_le_longest {module : Module} {function : Function}
    (member : function ∈ module.functions) : function.code.length ≤ longest module := by
  unfold longest
  generalize module.functions = functions at member
  induction functions with
  | nil => simp at member
  | cons first rest ih =>
      rw [List.foldr_cons]
      rcases List.mem_cons.1 member with rfl | member
      · exact Nat.le_max_left _ _
      · exact Nat.le_trans (ih member) (Nat.le_max_right _ _)

theorem enter_ok {module : Module} {callers : List Caller} {name : String} {args : List Value}
    {machine : Machine} (entered : enter module callers name args = .ok machine) :
    callers.length < maxFrames ∧ machine.callers = callers ∧
      machine.current.code.length ≤ longest module := by
  unfold enter at entered
  split at entered
  · simp at entered
  · rename_i function found
    have member : function ∈ module.functions := List.mem_of_find?_eq_some found
    split at entered
    · simp at entered
    · split at entered
      · simp at entered
      · split at entered
        · simp at entered
        · obtain rfl := Except.ok.inj entered
          exact ⟨by omega, rfl, length_le_longest member⟩

theorem weight_enter_lt {module : Module} {name : String} {args : List Value}
    {machine next : Machine} {caller : Caller}
    (shorter : caller.frame.code.length < machine.current.code.length)
    (entered : enter module (caller :: machine.callers) name args = .ok next) :
    next.weight module < machine.weight module := by
  obtain ⟨room, callersEq, short⟩ := enter_ok entered
  obtain ⟨above, aboveEq⟩ : ∃ above, maxFrames - 1 - machine.callers.length = above + 1 :=
    ⟨maxFrames - 1 - machine.callers.length - 1, by simp only [List.length_cons] at room; omega⟩
  have aboveEq' : maxFrames - 1 - (machine.callers.length + 1) = above := by omega
  simp only [weight, frameWeight, callersEq, callersWeight, List.length_cons, aboveEq, aboveEq']
  have opened := Nat.mul_le_mul_right (instructionWeight module above) short
  have spent := Nat.mul_le_mul_right (instructionWeight module (above + 1)) shorter
  rw [Nat.succ_mul] at spent
  have price : instructionWeight module (above + 1) =
    longest module * instructionWeight module above + 2 := rfl
  omega

theorem weight_leave_lt {module : Module} {machine next : Machine} {value : Value}
    (left : leave machine.callers value = .running next) :
    next.weight module < machine.weight module := by
  unfold leave at left
  split at left
  · simp at left
  · rename_i caller callers callersEq
    obtain rfl := Status.running.inj left
    simp only [weight, frameWeight, callersEq, callersWeight, Frame.define]
    omega

/-- Every step makes the machine lighter. -/
theorem weight_step_lt {module : Module} {machine next : Machine}
    (stepped : machine.step module = .ok (.running next)) :
    next.weight module < machine.weight module := by
  unfold step at stepped
  split at stepped
  · simp at stepped
  · rename_i frame progressed
    obtain rfl := Status.running.inj (Except.ok.inj stepped)
    have shorter := Frame.code_step progressed
    simp only [Progress.Shortens] at shorter
    have spent := Nat.mul_le_mul_right
      (instructionWeight module (maxFrames - 1 - machine.callers.length)) shorter
    rw [Nat.succ_mul] at spent
    have price := instructionWeight_pos module (maxFrames - 1 - machine.callers.length)
    simp only [weight, frameWeight]
    omega
  · exact weight_leave_lt (Except.ok.inj stepped)
  · rename_i callee args caller progressed
    cases entered : enter module (caller :: machine.callers) callee args with
    | error error => simp [entered, Except.map] at stepped
    | ok machine' =>
        simp only [entered, Except.map, Except.ok.injEq, Status.running.injEq] at stepped
        subst stepped
        exact weight_enter_lt (Frame.code_step progressed) entered

/-- Runs until the outermost call returns. -/
def run (module : Module) (machine : Machine) : Except RunError Value :=
  match _ : machine.step module with
  | .error error => .error error
  | .ok (.finished value) => .ok value
  | .ok (.running next) => next.run module
termination_by machine.weight module
decreasing_by exact weight_step_lt ‹_›

end Machine

end Tuplet.Run

namespace Tuplet.Ir.Module

open Run

/-- Calls a function of a module. -/
def call (module : Module) (name : String) (args : List Value) : Except RunError Value := do
  let machine ← Machine.enter module [] name args
  machine.run module

end Tuplet.Ir.Module
