import Tuplet.Proofs.Emitted
import Tuplet.Proofs.Verification

/-!
# The order of instructions in a body

Of what verification asks for, lowering grants by itself that operands are
available where they are read. Left over are the place of the return and the
agreement of types. `verify_fill_iff` says so for drafts that have been made in
sequence, and everything that nodes emit keeps drafts that way.
-/

namespace Tuplet

open Ir (Function Instruction Module Operand Slot ValueType)

namespace Ir.Function

/-- Instructions read only operands that are available, once the instructions `defined` are run. -/
def Ordered (function : Function) (defined : List Nat) : List Instruction → Prop
  | [] => True
  | instruction :: rest =>
      (∀ operand ∈ instruction.action.operands, function.Available defined operand) ∧
        function.Ordered (instruction.id :: defined) rest

variable {function : Function}

theorem ordered_append {defined : List Nat} {code more : List Instruction} :
    function.Ordered defined (code ++ more) ↔
      function.Ordered defined code ∧
        function.Ordered ((code.map (·.id)).reverse ++ defined) more := by
  induction code generalizing defined with
  | nil => simp [Ordered]
  | cons instruction rest ih => simp [Ordered, ih, and_assoc]

theorem Ordered.mono {defined more : List Nat} {code : List Instruction}
    (ordered : function.Ordered defined code) (subset : defined ⊆ more) :
    function.Ordered more code := by
  induction code generalizing defined more with
  | nil => trivial
  | cons instruction rest ih =>
      refine ⟨?_, ih ordered.2 (List.cons_subset_cons _ subset)⟩
      intro operand member
      exact (ordered.1 operand member).mono subset

end Ir.Function

/-- Code ends in a return and has no other one. -/
def Ended (code : List Instruction) : Prop :=
  ∃ front last, code = front ++ [last] ∧ last.isTerminator = true ∧
    ∀ instruction ∈ front, instruction.isTerminator = false

@[simp]
theorem not_ended_nil : ¬ Ended [] := by
  rintro ⟨front, last, split, _⟩
  simp at split

theorem ended_cons_iff {instruction : Instruction} {rest : List Instruction} :
    Ended (instruction :: rest) ↔
      rest = [] ∧ instruction.isTerminator = true ∨
        instruction.isTerminator = false ∧ Ended rest := by
  constructor
  · rintro ⟨front, last, split, ends, quiet⟩
    cases front with
    | nil =>
        obtain ⟨rfl, rfl⟩ := List.cons.inj split
        exact .inl ⟨rfl, ends⟩
    | cons first others =>
        obtain ⟨rfl, rfl⟩ := List.cons.inj split
        rw [List.forall_mem_cons] at quiet
        exact .inr ⟨quiet.1, others, last, rfl, ends, quiet.2⟩
  · rintro (⟨rfl, ends⟩ | ⟨first, others, last, rfl, ends, quiet⟩)
    · exact ⟨[], instruction, rfl, ends, by simp⟩
    · exact ⟨instruction :: others, last, rfl, ends, List.forall_mem_cons.mpr ⟨first, quiet⟩⟩

namespace Ir.Module

variable {module : Module} {function : Function}

/-- The types of the parts of all instructions agree. -/
def AllAgree (module : Module) (function : Function) (code : List Instruction) : Prop :=
  ∀ instruction ∈ code, module.TypesAgree function instruction.action

@[simp]
theorem allAgree_append {code more : List Instruction} :
    module.AllAgree function (code ++ more) ↔
      module.AllAgree function code ∧ module.AllAgree function more := by
  simp [AllAgree, or_imp, forall_and]

@[simp]
theorem allAgree_nil : module.AllAgree function [] := by simp [AllAgree]

@[simp]
theorem allAgree_cons {instruction : Instruction} {code : List Instruction} :
    module.AllAgree function (instruction :: code) ↔
      module.TypesAgree function instruction.action ∧ module.AllAgree function code := by
  simp [AllAgree]

theorem typesAgree_ret_iff {profile : Profile} {values : List Operand}
    (fits : profile.Fits function) :
    module.TypesAgree function (.ret values) ↔
      values.map (module.typeOf? function) = profile.returns.map some := by
  simp only [TypesAgree, fits.returns]
  cases profile.returns <;> simp [ValueType.ofReturns]

/-- Code in order is admissible and has an end exactly if types agree and it has no other end. -/
theorem admissible_iff {defined : List Nat} {code : List Instruction}
    (ordered : function.Ordered defined code) :
    (module.Admissible function defined code ∧
        ∃ last ∈ code.getLast?, last.isTerminator = true) ↔
      Ended code ∧ module.AllAgree function code := by
  induction code generalizing defined with
  | nil => simp
  | cons instruction rest ih =>
      obtain ⟨available, restOrdered⟩ := ordered
      have here : (∀ operand ∈ instruction.action.operands,
          function.Available defined operand) ↔ True := iff_true_intro available
      simp only [Admissible, here, true_and, ended_cons_iff, allAgree_cons]
      cases rest with
      | nil => simp [Admissible, and_comm]
      | cons second others =>
          have ih := ih restOrdered
          simp only [List.getLast?_cons_cons, reduceCtorEq, imp_false, Bool.not_eq_true,
            false_and, false_or] at ih ⊢
          grind

theorem admissible_slots_iff {defined : List Nat} {slots : List (String × Slot)}
    {code : List Instruction} :
    module.Admissible function defined (slots.map Draft.slotInstruction ++ code) ↔
      module.Admissible function ((slots.map (·.2.id)).reverse ++ defined) code := by
  induction slots generalizing defined with
  | nil => simp
  | cons slot rest ih =>
      simp [Admissible, Draft.slotInstruction, Instruction.isTerminator, Action.operands,
        TypesAgree, ih]

end Ir.Module

namespace Draft

/-- The ids of all instructions of a draft. -/
def ids (draft : Draft) : List Nat := draft.instructions.map (·.id)

theorem ids_eq (draft : Draft) :
    draft.ids = draft.slots.map (·.2.id) ++ draft.code.map (·.id) := by
  simp [ids, instructions, Function.comp_def, slotInstruction]

/-- The instructions of a draft have been made one by one, from operands that were available. -/
structure Sequential (function : Function) (draft : Draft) : Prop where
  valid : draft.Valid
  ordered : function.Ordered (draft.slots.map (·.2.id)) draft.code

variable {function : Function} {draft : Draft}

theorem sequential_empty : empty.Sequential function := ⟨valid_empty, trivial⟩

/-- A draft has come to a return exactly if its code has, since slots are no returns. -/
theorem isEnded_iff (draft : Draft) :
    draft.isEnded = true ↔ ∃ last ∈ draft.code.getLast?, last.isTerminator = true := by
  unfold isEnded Ir.Block.terminator? instructions
  cases codeEq : draft.code with
  | nil =>
      simp only [List.append_nil, List.getLast?_map, List.getLast?_nil]
      cases draft.slots.getLast? <;> simp [slotInstruction, Instruction.isTerminator]
  | cons first rest =>
      cases last? : (first :: rest).getLast? <;> simp_all [List.getLast?_append]

/-- A function that has been made in sequence is verified exactly if it ends and types agree. -/
theorem Sequential.verify_fill_iff {module : Module} {declared : Function}
    (sequential : draft.Sequential (draft.fill declared)) :
    module.verify (draft.fill declared) = .ok () ↔
      Ended draft.code ∧ module.AllAgree (draft.fill declared) draft.code := by
  have single : (draft.fill declared).blocks = [⟨"entry", draft.instructions⟩] := rfl
  have ends : (Ir.Block.mk "entry" draft.instructions).terminator?.isSome = true ↔
      ∃ last ∈ draft.code.getLast?, last.isTerminator = true := draft.isEnded_iff
  have ordered := sequential.ordered.mono (List.subset_reverse.mpr (List.Subset.refl _))
  rw [Module.verify_eq_ok_iff single, ends, instructions, Module.admissible_slots_iff,
    List.append_nil, and_comm, Module.admissible_iff ordered]

/-- An operand can be read behind a draft. -/
def Holds (function : Function) (draft : Draft) (operand : Operand) : Prop :=
  function.Available draft.ids operand

theorem Holds.extend {operand : Operand} (holds : draft.Holds function operand)
    (code : List Instruction) : (draft.extend code).Holds function operand := by
  apply Function.Available.mono holds
  simp [ids_eq]

theorem holds_slot {name : String} {slot : Slot} (found : draft.slot? name = some slot) :
    draft.Holds function (.instr slot.id) :=
  List.mem_map.mpr ⟨_, mem_of_slot? found, rfl⟩

theorem Sequential.emit {name : String} {action : Ir.Action}
    (sequential : draft.Sequential function)
    (holds : ∀ operand ∈ action.operands, draft.Holds function operand) :
    (draft.extend [⟨draft.next, name, action⟩]).Sequential function where
  valid := sequential.valid.emit name action
  ordered := by
    rw [slots_extend, code_extend, Function.ordered_append]
    refine ⟨sequential.ordered, ?_, trivial⟩
    intro operand member
    apply Function.Available.mono (holds operand member)
    rw [ids_eq]
    simp

theorem Sequential.allocate {name : String} {type : ValueType}
    (sequential : draft.Sequential function) :
    (draft.allocate name type).Sequential function where
  valid := sequential.valid.allocate type name
  ordered := by
    rw [slots_allocate, code_allocate]
    apply sequential.ordered.mono
    simp

theorem holds_next {name : String} {action : Ir.Action} :
    (draft.extend [⟨draft.next, name, action⟩]).Holds function (.instr draft.next) := by
  simp [Holds, Function.Available, ids, instructions]

theorem Sequential.call {name : String} {args : List Operand} (profile : Profile)
    (sequential : draft.Sequential function)
    (holds : ∀ operand ∈ args, draft.Holds function operand) :
    (draft.extend (callCode profile draft.next name args)).Sequential function := by
  have called : (draft.extend [⟨draft.next, name, .call name args⟩]).Sequential function :=
    sequential.emit holds
  have extracted : ((draft.extend [⟨draft.next, name, .call name args⟩]).extend
      [⟨_, "", .extract (.instr draft.next) 0⟩]).Sequential function :=
    called.emit (by simpa [Ir.Action.operands] using holds_next)
  unfold callCode
  split
  · exact called
  · simpa using extracted

theorem holds_callCode {profile : Profile} {name : String} {args : List Operand}
    (returns : profile.returns ≠ []) :
    (draft.extend (callCode profile draft.next name args)).Holds function
      (.instr (draft.next + 1)) := by
  simp [Holds, Function.Available, ids, instructions, callCode, returns]

end Draft

namespace Node

variable {table : FunctionTable} {function : Function}

mutual

/-- A node with a value keeps a draft in sequence, and its operand can be read behind it. -/
theorem Emits.sequential : ∀ {node : Node} {draft : Draft} {code : List Instruction}
    {operand : Operand}, node.Emits table draft code operand → draft.Sequential function →
      (draft.extend code).Sequential function ∧ (draft.extend code).Holds function operand
  | .literal _, _, _, _, .literal _, sequential => by
      rw [Draft.extend_nil]
      exact ⟨sequential, trivial⟩
  | .var _, _, _, _, .var found, sequential => by
      refine ⟨sequential.emit ?_, Draft.holds_next⟩
      simpa [Ir.Action.operands] using Draft.holds_slot found
  | .binary _ _ _, _, _, _, .binary _ leftEmits rightEmits, sequential => by
      obtain ⟨leftSequential, leftHolds⟩ := leftEmits.sequential sequential
      obtain ⟨rightSequential, rightHolds⟩ := rightEmits.sequential leftSequential
      rw [Draft.extend_extend] at rightSequential rightHolds
      rw [← Draft.extend_extend]
      refine ⟨rightSequential.emit ?_, Draft.holds_next⟩
      simp only [Ir.Action.operands, List.forall_mem_cons]
      exact ⟨by rw [← Draft.extend_extend]; exact leftHolds.extend _, rightHolds, by simp⟩
  | .call _ _, _, _, _, .call _ _ returns arguments, sequential => by
      obtain ⟨argsSequential, argsHold⟩ := arguments.sequential sequential
      rw [← Draft.extend_extend]
      exact ⟨argsSequential.call _ argsHold, Draft.holds_callCode returns⟩
  | .group _, _, _, _, .group emits, sequential => emits.sequential sequential

theorem EmitsAll.sequential : ∀ {nodes : List Node} {draft : Draft} {code : List Instruction}
    {operands : List Operand}, EmitsAll table draft nodes code operands →
      draft.Sequential function → (draft.extend code).Sequential function ∧
        ∀ operand ∈ operands, (draft.extend code).Holds function operand
  | [], _, _, _, .nil, sequential => by
      rw [Draft.extend_nil]
      exact ⟨sequential, by simp⟩
  | _ :: _, _, _, _, .cons first rest, sequential => by
      obtain ⟨firstSequential, firstHolds⟩ := first.sequential sequential
      obtain ⟨restSequential, restHolds⟩ := rest.sequential firstSequential
      rw [← Draft.extend_extend]
      exact ⟨restSequential, List.forall_mem_cons.mpr ⟨firstHolds.extend _, restHolds⟩⟩

end

theorem EmitsTarget.code_eq {draft after : Draft} {assigned : Target} {slot : Slot}
    (emits : EmitsTarget draft assigned slot after) : after.code = draft.code := by
  cases emits <;> simp

theorem EmitsTarget.sequential {draft after : Draft} {assigned : Target} {slot : Slot}
    (emits : EmitsTarget draft assigned slot after) (sequential : draft.Sequential function) :
    after.Sequential function ∧ after.Holds function (.instr slot.id) := by
  cases emits with
  | var found => exact ⟨sequential, Draft.holds_slot found⟩
  | decl unused known =>
      refine ⟨sequential.allocate, ?_⟩
      simp [Draft.Holds, Function.Available, Draft.ids_eq]

theorem EmitsStatement.sequential {draft after : Draft} {node : Node}
    (emits : node.EmitsStatement table draft after) (sequential : draft.Sequential function) :
    after.Sequential function := by
  cases emits with
  | decl target => exact (target.sequential sequential).1
  | assign target emits =>
      obtain ⟨targetSequential, slotHolds⟩ := target.sequential sequential
      obtain ⟨valueSequential, valueHolds⟩ := emits.sequential targetSequential
      rw [← Draft.extend_extend]
      apply valueSequential.emit
      simp only [Ir.Action.operands, List.forall_mem_cons]
      exact ⟨valueHolds, slotHolds.extend _, by simp⟩
  | call declared count arguments =>
      obtain ⟨argsSequential, argsHold⟩ := arguments.sequential sequential
      rw [← Draft.extend_extend]
      exact argsSequential.call _ argsHold
  | ret emits =>
      obtain ⟨valuesSequential, valuesHold⟩ := emits.sequential sequential
      rw [← Draft.extend_extend]
      exact valuesSequential.emit valuesHold

theorem EmitsStatements.sequential {draft after : Draft} {nodes : List Node}
    (emits : EmitsStatements table draft nodes after) (sequential : draft.Sequential function) :
    after.Sequential function := by
  induction emits with
  | nil => exact sequential
  | cons first _ ih => exact ih (first.sequential sequential)

theorem EmitsParameters.sequential {draft after : Draft} {position : Nat}
    {params : List Parameter} (emits : EmitsParameters draft position params after)
    (inRange : position + params.length ≤ function.params.length)
    (sequential : draft.Sequential function) : after.Sequential function := by
  induction emits with
  | nil => exact sequential
  | @cons draft _ position param type _ unused known _ ih =>
      simp only [List.length_cons] at inRange
      apply ih (by omega)
      have target : EmitsTarget draft (.decl ⟨param.name, param.type⟩) ⟨draft.next, type⟩
          (draft.allocate param.name type) := .decl unused known
      obtain ⟨allocated, slotHolds⟩ := target.sequential sequential
      apply allocated.emit
      simp only [Ir.Action.operands, List.forall_mem_cons]
      refine ⟨?_, slotHolds, by simp⟩
      exact (show position < function.params.length by omega)

end Node

end Tuplet
