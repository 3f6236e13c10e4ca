import Mathlib.Algebra.Group.Nat.Defs
import Mathlib.Logic.Function.Iterate
import Tuplet.Proofs.Result
import Tuplet.Run.Machine

/-!
# Runs end on a bounded stack

A machine is run in a loop whose turns are its steps. This file counts the turns
one by one, for any module: call graphs may be cyclic, ids may repeat, blocks may
lack a return. The number of frames never exceeds `maxFrames`, because a frame is
only opened where there is room for it. A turn does not always shorten the stack
or the code of the current frame, but it always makes the machine lighter, so the
weight that a machine starts with bounds the number of turns. With `length` the
length of the longest function, that is at most `(length + 2) ^ maxFrames`,
whatever the arguments are.
-/

namespace Tuplet.Run.Machine

open Ir

variable {module : Module} {machine next : Machine}

/-- One more turn of the loop. An error or a value has ended it. -/
def turn (module : Module) : Except RunError Status → Except RunError Status
  | .ok (.running machine) => machine.step module
  | ended => ended

/-- What the loop of a call has come to after a number of turns. -/
def afterTurns (module : Module) (name : String) (args : List Value) (turns : Nat) :
    Except RunError Status :=
  (turn module)^[turns] ((enter module [] name args).map .running)

theorem height_enter {callers : List Caller} {name : String} {args : List Value}
    (entered : enter module callers name args = .ok machine) : machine.height ≤ maxFrames := by
  rcases enter_ok entered with ⟨room, callersEq, _⟩
  simp only [height, callersEq]
  omega

theorem height_step (bounded : machine.height ≤ maxFrames)
    (stepped : machine.step module = .ok (.running next)) : next.height ≤ maxFrames := by
  simp only [step] at stepped
  cases progressed : machine.current.step with
  | error error => simp [progressed] at stepped
  | ok progress =>
      simp only [progressed] at stepped
      cases progress with
      | next frame =>
          simp only [Except.ok.injEq, Status.running.injEq] at stepped
          subst next
          exact bounded
      | ret value =>
          cases callersEq : machine.callers with
          | nil => simp [callersEq, leave] at stepped
          | cons caller callers =>
              simp only [callersEq, leave, Except.ok.injEq, Status.running.injEq] at stepped
              subst next
              simp only [height, callersEq, List.length_cons] at bounded ⊢
              omega
      | call callee args caller =>
          cases entered : enter module (caller :: machine.callers) callee args with
          | error error => simp [entered, Except.map] at stepped
          | ok opened =>
              simp only [entered, Except.map, Except.ok.injEq, Status.running.injEq] at stepped
              subst next
              exact height_enter entered

theorem afterTurns_zero (module : Module) (name : String) (args : List Value) :
    afterTurns module name args 0 = (enter module [] name args).map .running := rfl

theorem afterTurns_succ (module : Module) (name : String) (args : List Value) (turns : Nat) :
    afterTurns module name args (turns + 1) = turn module (afterTurns module name args turns) :=
  Function.iterate_succ_apply' _ _ _

/-- Whatever state the loop passes through, its stack is bounded. -/
theorem height_afterTurns {name : String} {args : List Value} {turns : Nat}
    (running : afterTurns module name args turns = .ok (.running machine)) :
    machine.height ≤ maxFrames := by
  induction turns generalizing machine with
  | zero =>
      rw [afterTurns_zero] at running
      cases entered : enter module [] name args with
      | error error => simp [entered, Except.map] at running
      | ok opened =>
          simp only [entered, Except.map, Except.ok.injEq, Status.running.injEq] at running
          subst machine
          exact height_enter entered
  | succ turns ih =>
      rw [afterTurns_succ] at running
      cases before : afterTurns module name args turns with
      | error error => simp [before, turn] at running
      | ok status =>
          rw [before] at running
          cases status with
          | finished value => simp [turn] at running
          | running previous => exact height_step (ih before) running

theorem weight_pos (module : Module) (machine : Machine) : 0 < machine.weight module := by
  simp only [weight, frameWeight]
  omega

/-- A running machine ends within as many turns as it weighs. -/
theorem exists_turns_run (module : Module) (machine : Machine) :
    ∃ turns ≤ machine.weight module,
      (turn module)^[turns] (.ok (.running machine)) = (machine.run module).map .finished := by
  fun_induction run module machine with
  | case1 machine error stepped =>
      exact ⟨1, weight_pos module machine, by simp [turn, stepped, Except.map]⟩
  | case2 machine value stepped =>
      exact ⟨1, weight_pos module machine, by simp [turn, stepped, Except.map]⟩
  | case3 machine next stepped ih =>
      rcases ih with ⟨turns, few, ended⟩
      have lighter := weight_step_lt stepped
      refine ⟨turns + 1, by omega, ?_⟩
      rw [Function.iterate_succ_apply, ← ended, ← stepped]
      rfl

theorem instructionWeight_le (module : Module) (room : Nat) :
    instructionWeight module room ≤ (longest module + 2) ^ room := by
  induction room with
  | zero => simp [instructionWeight]
  | succ room ih =>
      have positive : 0 < (longest module + 2) ^ room := Nat.pow_pos (by omega)
      calc instructionWeight module (room + 1)
          = longest module * instructionWeight module room + 2 := rfl
        _ ≤ longest module * (longest module + 2) ^ room + 2 * (longest module + 2) ^ room :=
            Nat.add_le_add (Nat.mul_le_mul_left _ ih) (by omega)
        _ = (longest module + 2) ^ (room + 1) := by
            rw [← Nat.add_mul, Nat.pow_succ, Nat.mul_comm]

/-- The outermost call of a module weighs no more than an instruction below a full stack. -/
theorem weight_enter_le {name : String} {args : List Value}
    (entered : enter module [] name args = .ok machine) :
    machine.weight module ≤ (longest module + 2) ^ maxFrames := by
  rcases enter_ok entered with ⟨_, callersEq, short⟩
  have opened := Nat.mul_le_mul_right (instructionWeight module (maxFrames - 1)) short
  calc machine.weight module
      ≤ longest module * instructionWeight module (maxFrames - 1) + 2 := by
        simp only [weight, frameWeight, callersEq, callersWeight, List.length_nil, Nat.sub_zero]
        omega
    _ = instructionWeight module (maxFrames - 1 + 1) := rfl
    _ ≤ (longest module + 2) ^ maxFrames := instructionWeight_le module _

end Tuplet.Run.Machine

namespace Tuplet.Ir.Module

open Run Run.Machine

/--
The loop of any call comes to an end, with the value or the error that the call
returns, and never has more frames open than fit.
-/
theorem call_terminates (module : Module) (name : String) (args : List Value) :
    (∃ turns ≤ (longest module + 2) ^ maxFrames,
        afterTurns module name args turns = (module.call name args).map .finished) ∧
      ∀ turns machine, afterTurns module name args turns = .ok (.running machine) →
        machine.height ≤ maxFrames := by
  constructor
  · cases entered : enter module [] name args with
    | error error => exact ⟨0, Nat.zero_le _, by simp [afterTurns, call, entered, Except.map]⟩
    | ok machine =>
        rcases exists_turns_run module machine with ⟨turns, few, ended⟩
        refine ⟨turns, Nat.le_trans few (weight_enter_le entered), ?_⟩
        simpa [afterTurns, call, entered, Except.map] using ended
  · intro turns machine running
    exact height_afterTurns running

/-- A function that does nothing but call itself. -/
def spinning : Module :=
  ⟨"spinning", [⟨"spin", [], .void, [⟨"entry", [⟨0, "", .call "spin" []⟩]⟩], 1⟩]⟩

theorem call_terminates_spinning :
    ∃ machine, afterTurns spinning "spin" [] 3 = .ok (.running machine) ∧ machine.height = 4 ∧
      machine.height ≤ maxFrames :=
  ⟨_, rfl, rfl, (call_terminates spinning "spin" []).2 3 _ rfl⟩

end Tuplet.Ir.Module
