import Tuplet.Proofs.BodyOrder

/-!
# The end of a body

Only return statements emit returns, and only declarations emit no code at all.
Verification wants a body to have a single return, at its end. On the side of
the statements this means that there is a return, unless the function may end
without one, and that only declarations stand behind it.
-/

namespace Tuplet

open Ir (Function Instruction Module Operand Slot)

/-- Code has no return. -/
def Quiet (code : List Instruction) : Prop :=
  ∀ instruction ∈ code, instruction.isTerminator = false

@[simp]
theorem quiet_nil : Quiet [] := by simp [Quiet]

@[simp]
theorem quiet_append {code more : List Instruction} :
    Quiet (code ++ more) ↔ Quiet code ∧ Quiet more := by
  simp [Quiet, or_imp, forall_and]

@[simp]
theorem quiet_cons {instruction : Instruction} {code : List Instruction} :
    Quiet (instruction :: code) ↔ instruction.isTerminator = false ∧ Quiet code := by
  simp [Quiet]

theorem Quiet.ended_append_iff {code more : List Instruction} (quiet : Quiet code) :
    Ended (code ++ more) ↔ Ended more := by
  induction code with
  | nil => rfl
  | cons instruction rest ih =>
      rw [quiet_cons] at quiet
      simp [ended_cons_iff, quiet.1, ih quiet.2]

theorem ended_cons_of_isTerminator {last : Instruction} {more : List Instruction}
    (ends : last.isTerminator = true) : Ended (last :: more) ↔ more = [] := by
  simp [ended_cons_iff, ends]

theorem ended_append_singleton_iff {code : List Instruction} {last : Instruction}
    (ends : last.isTerminator = true) : Ended (code ++ [last]) ↔ Quiet code := by
  constructor
  · rintro ⟨front, other, split, _, quiet⟩
    obtain ⟨rfl, _⟩ := List.append_inj' split rfl
    exact quiet
  · intro quiet
    exact ⟨code, last, rfl, ends, quiet⟩

/-- An action that only computes a value: it makes no slot, writes none and does not return. -/
def Ir.Action.computes : Action → Bool
  | alloca _ | store _ _ | ret _ => false
  | _ => true

/-- Code only computes values. -/
def Computes (code : List Instruction) : Prop :=
  ∀ instruction ∈ code, instruction.action.computes = true

@[simp]
theorem computes_nil : Computes [] := by simp [Computes]

@[simp]
theorem computes_append {code more : List Instruction} :
    Computes (code ++ more) ↔ Computes code ∧ Computes more := by
  simp [Computes, or_imp, forall_and]

@[simp]
theorem computes_cons {instruction : Instruction} {code : List Instruction} :
    Computes (instruction :: code) ↔ instruction.action.computes = true ∧ Computes code := by
  simp [Computes]

theorem Computes.quiet {code : List Instruction} (computes : Computes code) : Quiet code := by
  intro instruction member
  have computes := computes instruction member
  unfold Instruction.isTerminator
  split
  · simp_all [Ir.Action.computes]
  · rfl

theorem computes_callCode (profile : Profile) (id : Nat) (name : String) (args : List Operand) :
    Computes (callCode profile id name args) := by
  unfold callCode
  split <;> simp [Ir.Action.computes]

namespace Node

variable {table : FunctionTable}

mutual

/-- Nodes with values only compute them. -/
theorem Emits.computes : ∀ {node : Node} {draft : Draft} {code : List Instruction}
    {operand : Operand}, node.Emits table draft code operand → Computes code
  | .literal _, _, _, _, .literal _ => computes_nil
  | .var _, _, _, _, .var _ => by simp [Ir.Action.computes]
  | .binary _ _ _, _, _, _, .binary _ leftEmits rightEmits => by
      simp [Ir.Action.computes, leftEmits.computes, rightEmits.computes]
  | .call _ _, _, _, _, .call _ _ _ arguments => by
      simp [arguments.computes, computes_callCode]
  | .group _, _, _, _, .group emits => emits.computes

theorem EmitsAll.computes : ∀ {nodes : List Node} {draft : Draft} {code : List Instruction}
    {operands : List Operand}, EmitsAll table draft nodes code operands → Computes code
  | [], _, _, _, .nil => computes_nil
  | _ :: _, _, _, _, .cons first rest => by simp [first.computes, rest.computes]

end

theorem EmitsParameters.quiet {draft after : Draft} {position : Nat} {params : List Parameter}
    (emits : EmitsParameters draft position params after) (quiet : Quiet draft.code) :
    Quiet after.code := by
  induction emits with
  | nil => exact quiet
  | cons _ _ _ ih => exact ih (by simpa [Instruction.isTerminator] using quiet)

/-- What code a statement adds: a return, or code without one, or nothing if it is a declaration. -/
inductive Adds : Node → List Instruction → Prop
  | decl (declared : Declaration) : Adds (.decl declared) []
  | ret {values : List Node} {front : List Instruction} {last : Instruction}
      (quiet : Quiet front) (ends : last.isTerminator = true) :
      Adds (.ret values) (front ++ [last])
  | other {node : Node} {code : List Instruction} (noReturn : ¬ node.IsReturn)
      (noDeclaration : ¬ node.IsDeclaration) (quiet : Quiet code) (something : code ≠ []) :
      Adds node code

theorem EmitsStatement.adds {draft after : Draft} {node : Node}
    (emits : node.EmitsStatement table draft after) :
    ∃ code, after.code = draft.code ++ code ∧ node.Adds code := by
  cases emits with
  | decl target => exact ⟨[], by simp [target.code_eq], .decl _⟩
  | assign target emits =>
      refine ⟨_, by rw [Draft.code_extend, target.code_eq], .other id id ?_ (by simp)⟩
      simp [emits.computes.quiet, Instruction.isTerminator]
  | call declared count arguments =>
      refine ⟨_, Draft.code_extend _ _, .other id id (Computes.quiet ?_) (by simp [callCode])⟩
      simp [arguments.computes, computes_callCode]
  | ret emits => exact ⟨_, Draft.code_extend _ _, .ret emits.computes.quiet rfl⟩

/-- What code statements add shows whether and where they return. -/
theorem EmitsStatements.adds {draft after : Draft} {nodes : List Node}
    (emits : EmitsStatements table draft nodes after) :
    ∃ code, after.code = draft.code ++ code ∧
      (code = [] ↔ ∀ node ∈ nodes, node.IsDeclaration) ∧
        (Quiet code ↔ ∀ node ∈ nodes, ¬ node.IsReturn) ∧
          (Ended code ↔
            nodes.Pairwise (fun earlier later => earlier.IsReturn → later.IsDeclaration) ∧
              ∃ node ∈ nodes, node.IsReturn) := by
  induction emits with
  | nil => exact ⟨[], by simp, by simp, by simp, by simp⟩
  | @cons draft middle after node rest first _ ih =>
      obtain ⟨more, moreAdded, nothing, quiet, ended⟩ := ih
      obtain ⟨code, added, adds⟩ := first.adds
      refine ⟨code ++ more, by rw [moreAdded, added, List.append_assoc], ?_⟩
      cases adds with
      | decl declared => simp [nothing, quiet, ended, IsDeclaration, IsReturn]
      | @ret values front last frontQuiet ends =>
          have onlyDeclarations : (∀ node ∈ rest, node.IsDeclaration) →
              rest.Pairwise fun earlier later => earlier.IsReturn → later.IsDeclaration :=
            fun all => List.pairwise_of_forall_mem_list fun _ _ later member _ => all later member
          refine ⟨by simp [IsDeclaration], by simp [IsReturn, ends], ?_⟩
          rw [List.append_assoc, frontQuiet.ended_append_iff, List.singleton_append,
            ended_cons_of_isTerminator ends, nothing, List.pairwise_cons]
          simpa [IsReturn] using onlyDeclarations
      | other noReturn noDeclaration codeQuiet something =>
          refine ⟨by simp [noDeclaration, something], by simp [noReturn, codeQuiet, quiet], ?_⟩
          rw [codeQuiet.ended_append_iff, ended]
          simp [noReturn]

theorem EmitsStatements.quiet {draft after : Draft} {nodes : List Node}
    (emits : EmitsStatements table draft nodes after) (quiet : Quiet draft.code)
    (noReturn : ∀ node ∈ nodes, ¬ node.IsReturn) : Quiet after.code := by
  obtain ⟨code, added, _, codeQuiet, _⟩ := emits.adds
  rw [added, quiet_append]
  exact ⟨quiet, codeQuiet.mpr noReturn⟩

end Node

theorem Quiet.isEnded {draft : Draft} (quiet : Quiet draft.code) : draft.isEnded = false := by
  rw [Bool.eq_false_iff, Ne, draft.isEnded_iff]
  rintro ⟨last, isLast, ends⟩
  simp [quiet last (List.mem_of_getLast? isLast)] at ends

theorem Ended.isEnded {draft : Draft} (ended : Ended draft.code) : draft.isEnded = true := by
  obtain ⟨front, last, split, ends, _⟩ := ended
  exact draft.isEnded_iff.mpr ⟨last, by simp [split], ends⟩

/-- A finished body is ended exactly if it returns, or need not, and nothing else follows. -/
theorem Draft.finished_iff {table : FunctionTable} {module : Module} {function : Function}
    {known : Known} {header : Signature} {start draft : Draft} {nodes : List Node}
    (fits : known.toProfile.Fits function) (startQuiet : Quiet start.code)
    (emits : Node.EmitsStatements table start nodes draft) :
    Ended (draft.finished header).code ∧ module.AllAgree function (draft.finished header).code ↔
      module.AllAgree function draft.code ∧
        nodes.Pairwise (fun earlier later => earlier.IsReturn → later.IsDeclaration) ∧
          ((∃ node ∈ nodes, node.IsReturn) ∨ header.returns = [] ∧ known.returns = []) := by
  obtain ⟨code, added, _, quiet, ended⟩ := emits.adds
  have endedDraft : Ended draft.code ↔ Ended code := by
    rw [added, startQuiet.ended_append_iff]
  have quietDraft : Quiet draft.code ↔ Quiet code := by
    rw [added, quiet_append, and_iff_right startQuiet]
  by_cases isVoid : header.returns = []
  · cases isEnded : draft.isEnded with
    | true =>
        have returns : ∃ node ∈ nodes, node.IsReturn := by
          by_contra noReturn
          push Not at noReturn
          simp [(emits.quiet startQuiet noReturn).isEnded] at isEnded
        have unchanged : draft.finished header = draft := by simp [Draft.finished, isEnded]
        rw [unchanged, endedDraft, ended, and_iff_left returns, and_comm]
        simp [returns]
    | false =>
        have closed : (draft.finished header).code =
            draft.code ++ [⟨draft.next, "", .ret []⟩] := by
          simp [Draft.finished, Signature.isVoid, isVoid, isEnded]
        rw [closed, ended_append_singleton_iff rfl, quietDraft, quiet, Module.allAgree_append,
          Module.allAgree_cons, Module.typesAgree_ret_iff fits]
        constructor
        · rintro ⟨noReturn, agree, nothing, _⟩
          have nothing : known.returns = [] := by simpa using nothing.symm
          exact ⟨agree, List.pairwise_of_forall_mem_list
            fun earlier member _ _ isReturn => absurd isReturn (noReturn earlier member),
            .inr ⟨isVoid, nothing⟩⟩
        · rintro ⟨agree, pairwise, returns⟩
          have noReturn : ¬ ∃ node ∈ nodes, node.IsReturn := by
            intro returns
            simp [(endedDraft.mpr (ended.mpr ⟨pairwise, returns⟩)).isEnded] at isEnded
          have nothing : known.returns = [] := (returns.resolve_left noReturn).2
          push Not at noReturn
          exact ⟨noReturn, agree, by simp [nothing], by simp⟩
  · have unchanged : draft.finished header = draft := by
      simp [Draft.finished, Signature.isVoid, isVoid]
    rw [unchanged, endedDraft, ended, and_comm]
    simp [isVoid]

end Tuplet
