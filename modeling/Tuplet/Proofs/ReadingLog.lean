import Tuplet.Proofs.Telling
import Tuplet.Syntax.Program

/-!
# What reading tells

A rule of the grammar that succeeds has told nothing, also of what it has looked
at on the way. One that fails has told of its error first, and then of each
construct that the error has left, all at the tokens where it has stopped. Rules
are made of each other in a few ways, each of which keeps this.
-/

namespace Tuplet

/-- An error of the grammar and what it has come up inside. -/
abbrev GrammarFailure := Failure GrammarError Construct

namespace Reading

variable {bound large : Nat} {α β : Type} {reading : Reading bound α}

/-- A reading tells of how it has failed where it has stopped, and of nothing else. -/
inductive Candid : Reading bound α → Prop
  | done (value : α) (rest : List Token) (shorter : rest.length < bound) :
      Candid (.done value rest shorter [])
  | failed (failure : GrammarFailure) (rest : List Token) :
      Candid (.failed failure.cause rest (failure.remarks rest))

theorem candid_fail (error : GrammarError) (tokens : List Token) :
    (fail error tokens : Reading bound α).Candid :=
  .failed (.because error) tokens

theorem candid_stay (value : α) (tokens : List Token) : (stay value tokens).Candid :=
  .done value tokens _

theorem candid_take (value : α) {token : Token} (rest : List Token) :
    (take value rest : Reading (token :: rest).length α).Candid :=
  .done value rest _

namespace Candid

theorem relax (candid : reading.Candid) (le : bound ≤ large) : (reading.relax le).Candid := by
  cases candid with
  | done value rest shorter => exact .done value rest _
  | failed failure rest => exact .failed failure rest

theorem behind {token : Token} {rest : List Token} {reading : Reading rest.length α}
    (candid : reading.Candid) : (reading.behind : Reading (token :: rest).length α).Candid :=
  candid.relax _

theorem orNothing (candid : reading.Candid) : reading.orNothing.Candid :=
  candid.relax _

theorem map (candid : reading.Candid) (change : α → β) : (reading.map change).Candid := by
  cases candid with
  | done value rest shorter => exact .done (change value) rest shorter
  | failed failure rest => exact .failed failure rest

/-- The error of a rule is told of before the construct that it leaves. -/
theorem inside (candid : reading.Candid) (construct : Construct) :
    (reading.inside construct).Candid := by
  cases candid with
  | done value rest shorter => exact .done value rest shorter
  | failed failure rest =>
      rw [Reading.inside, ← Failure.remarks_inside]
      exact .failed (failure.inside construct) rest

/-- Where nothing was told before a rule, what it tells is all that is told. -/
theorem after_nil (candid : reading.Candid) : (reading.after []).Candid := by
  cases candid with
  | done value rest shorter => exact .done value rest shorter
  | failed failure rest => exact .failed failure rest

theorem andThen (candid : reading.Candid)
    {next : (value : α) → (rest : List Token) → rest.length < bound → Reading rest.length β}
    (goesOn : ∀ value rest shorter, (next value rest shorter).Candid) :
    (reading.andThen next).Candid := by
  cases candid with
  | done value rest shorter =>
      exact (goesOn value rest shorter).after_nil.relax (Nat.le_of_lt shorter)
  | failed failure rest => exact .failed failure rest

theorem andMaybe (candid : reading.Candid)
    {next : (value : α) → (rest : List Token) → rest.length < bound →
      Reading (rest.length + 1) β}
    (goesOn : ∀ value rest shorter, (next value rest shorter).Candid) :
    (reading.andMaybe next).Candid := by
  cases candid with
  | done value rest shorter => exact (goesOn value rest shorter).after_nil.relax shorter
  | failed failure rest => exact .failed failure rest

end Candid

end Reading

open Reading (candid_fail candid_stay candid_take)

theorem candid_expect (kind : TokenKind) (error : TokenKind → GrammarError)
    (tokens : List Token) : (expect kind error tokens).Candid := by
  cases tokens with
  | nil => exact candid_fail _ _
  | cons token rest =>
      rw [expect]
      split
      · exact candid_take () rest
      · exact candid_fail _ _

namespace Grammar

-- The rules of expressions use each other on fewer tokens, or on the same ones in one direction.
mutual

theorem candid_operand (tokens : List Token) : (operand tokens).Candid := by
  have ofGroup (rest : List Token) (shorter : rest.length < tokens.length) :
      (expression rest).Candid := candid_expression rest
  have ofCall (rest : List Token) (shorter : rest.length < tokens.length) :
      (arguments rest).Candid := candid_arguments rest
  rw [operand.eq_def]
  split
  · exact candid_fail _ _
  · rename_i token rest
    split
    · split
      · exact candid_take _ rest
      · exact candid_fail _ _
    · apply Reading.Candid.behind
      apply ((ofGroup rest (by simp)).inside .group).andThen
      intro inner left _
      exact (candid_expect _ _ left).map _
    · split
      · exact candid_fail _ _
      · split
        · exact ((ofCall _ (by simp only [List.length_cons]; omega)).map _).behind.behind
        · exact candid_take _ _
    · exact candid_fail _ _
    · exact candid_fail _ _
    · exact candid_fail _ _
termination_by 4 * tokens.length
decreasing_by all_goals omega

theorem candid_chain (tokens : List Token) : (chain tokens).Candid := by
  have ofOperand (rest : List Token) (shorter : rest.length < tokens.length) :
      (operand rest).Candid := candid_operand rest
  have ofLinks (rest : List Token) (shorter : rest.length < tokens.length) :
      (chain rest).Candid := candid_chain rest
  rw [chain.eq_def]
  split
  · rename_i op _ _ rest
    apply Reading.Candid.orNothing
    apply Reading.Candid.behind
    apply ((ofOperand rest (by simp)).inside .rightOperand).andMaybe
    intro right left shorter
    exact (ofLinks left (by simp only [List.length_cons]; omega)).map _
  · exact candid_stay [] _
termination_by 4 * tokens.length
decreasing_by all_goals omega

theorem candid_expression (tokens : List Token) : (expression tokens).Candid := by
  rw [expression]
  apply (candid_operand tokens).andMaybe
  intro first rest shorter
  exact (candid_chain rest).map _
termination_by 4 * tokens.length + 1
decreasing_by all_goals omega

theorem candid_argumentList (tokens : List Token) : (argumentList tokens).Candid := by
  have ofOthers (rest : List Token) (shorter : rest.length < tokens.length) :
      (argumentList rest).Candid := candid_argumentList rest
  rw [argumentList]
  apply ((candid_expression tokens).inside .argument).andThen
  intro first rest shorter
  split
  · exact candid_take _ _
  · rename_i shorter
    simp only [List.length_cons] at shorter
    exact ((ofOthers _ (by omega)).map _).behind
  · exact candid_fail _ _
termination_by 4 * tokens.length + 2
decreasing_by all_goals omega

theorem candid_arguments (tokens : List Token) : (arguments tokens).Candid := by
  have ofList : (argumentList tokens).Candid := candid_argumentList tokens
  rw [arguments.eq_def]
  split
  · exact candid_take _ _
  · exact ofList
termination_by 4 * tokens.length + 3
decreasing_by all_goals omega

end

theorem candid_assignedValue (target : Target) (tokens : List Token) :
    (assignedValue target tokens).Candid :=
  ((candid_expression tokens).inside .assignedValue).map _

theorem candid_declared (declaration : Declaration) (tokens : List Token) :
    (declared declaration tokens).Candid := by
  rw [declared.eq_def]
  split
  · exact (candid_assignedValue _ _).behind.orNothing
  · exact candid_fail _ _
  · exact candid_stay _ _

theorem candid_startedBy (first : Token) (tokens : List Token) :
    (startedBy first tokens).Candid := by
  rw [startedBy.eq_def]
  split
  · exact candid_fail _ _
  · rename_i second rest
    split
    · split
      · exact ((candid_arguments rest).map _).behind.orNothing
      · exact candid_fail _ _
    · split
      · exact candid_fail _ _
      · exact (candid_declared _ rest).orNothing
    · split
      · exact (candid_assignedValue _ rest).behind.orNothing
      · exact candid_fail _ _
    · exact candid_fail _ _
    · exact candid_fail _ _

theorem candid_returnedValues (tokens : List Token) : (returnedValues tokens).Candid := by
  have ofOthers (rest : List Token) (shorter : rest.length < tokens.length) :
      (returnedValues rest).Candid := candid_returnedValues rest
  rw [returnedValues]
  apply ((candid_expression tokens).inside .returnedValue).andThen
  intro first rest shorter
  split
  · rename_i shorter
    simp only [List.length_cons] at shorter
    exact ((ofOthers _ (by omega)).map _).behind
  · exact candid_take _ _
  · exact candid_fail _ _
termination_by tokens.length

theorem candid_returned (tokens : List Token) : (returned tokens).Candid := by
  rw [returned.eq_def]
  split
  · exact candid_take _ _
  · exact candid_returnedValues tokens

theorem candid_statement (tokens : List Token) : (statement tokens).Candid := by
  rw [statement.eq_def]
  split
  · exact candid_fail _ _
  · rename_i first rest
    split
    · exact ((candid_returned rest).map _).behind
    · split
      · exact candid_fail _ _
      · split
        · apply (candid_startedBy first rest).andThen
          intro node left shorter
          exact (candid_expect _ _ left).map _
        · exact candid_fail _ _

theorem candid_returnList (isFirst : Bool) (tokens : List Token) :
    (returnList isFirst tokens).Candid := by
  have ofOthers (rest : List Token) (shorter : rest.length < tokens.length) :
      (returnList false rest).Candid := candid_returnList false rest
  rw [returnList.eq_def]
  split
  · exact candid_fail _ _
  · split
    · exact candid_fail _ _
    · split
      · exact ((ofOthers _ (by simp only [List.length_cons]; omega)).map _).behind.behind
      · exact (candid_take _ _).behind
      · exact candid_fail _ _
termination_by tokens.length

theorem candid_returnTypes (tokens : List Token) : (returnTypes tokens).Candid := by
  rw [returnTypes.eq_def]
  split
  · exact candid_fail _ _
  · exact (candid_returnList true _).behind
  · split
    · exact candid_fail _ _
    · exact candid_take _ _

theorem candid_functionName (tokens : List Token) : (functionName tokens).Candid := by
  rw [functionName.eq_def]
  split
  · exact candid_fail _ _
  · split
    · exact candid_fail _ _
    · split
      · exact candid_take _ _
      · exact candid_fail _ _

theorem candid_parameterList (tokens : List Token) : (parameterList tokens).Candid := by
  have ofOthers (rest : List Token) (shorter : rest.length < tokens.length) :
      (parameterList rest).Candid := candid_parameterList rest
  rw [parameterList.eq_def]
  split
  · exact candid_fail _ _
  · split
    · split
      · exact candid_fail _ _
      · split
        · dsimp only
          split
          · exact ((ofOthers _ (by simp only [List.length_cons]; omega)).map _).behind.behind.behind
          · exact (candid_take _ _).behind.behind
          · exact candid_fail _ _
        · exact candid_fail _ _
    · exact candid_fail _ _
termination_by tokens.length

theorem candid_parameters (tokens : List Token) : (parameters tokens).Candid := by
  rw [parameters.eq_def]
  split
  · exact candid_take _ _
  · exact candid_parameterList tokens

theorem candid_signature (tokens : List Token) : (signature tokens).Candid := by
  apply (candid_returnTypes tokens).andThen
  intro returns rest _
  apply (candid_functionName rest).andThen
  intro name rest _
  apply (candid_expect _ _ rest).andThen
  intro _ rest _
  exact (candid_parameters rest).map _

theorem candid_body (tokens : List Token) : (body tokens).Candid := by
  have ofOthers (rest : List Token) (shorter : rest.length < tokens.length) :
      (body rest).Candid := candid_body rest
  rw [body.eq_def]
  split
  · exact candid_fail _ _
  · split
    · exact candid_take _ _
    · exact candid_fail _ _
    · apply ((candid_statement _).inside .statement).andThen
      intro first left shorter
      exact (ofOthers left shorter).map _
termination_by tokens.length

theorem candid_definition (header : Signature) (tokens : List Token) :
    (definition header tokens).Candid := by
  rw [definition.eq_def]
  split
  · exact ((candid_body _).map _).behind.orNothing
  · exact (candid_take _ _).orNothing
  · exact candid_stay _ _

theorem candid_function (tokens : List Token) : (function tokens).Candid := by
  apply ((candid_signature tokens).inside .signature).andMaybe
  intro header rest _
  exact candid_definition header rest

end Grammar

/-- A program that was read to its end has told nothing, and another one of its error. -/
def ProgramReading.Candid (reading : ProgramReading) : Prop :=
  match reading.error? with
  | none => reading.log = []
  | some error => ∃ failure : GrammarFailure, failure.cause = error ∧
      reading.log = failure.remarks reading.rest

/-- Items that were read before an error have told nothing. -/
theorem Grammar.candid_program (tokens : List Token) : (program tokens).Candid := by
  rw [program.eq_def]
  split
  · exact rfl
  · have candid := (candid_function tokens).inside .function
    generalize (function tokens).inside .function = reading at candid
    cases candid with
    | failed failure rest => exact ⟨failure, rfl, rfl⟩
    | done item rest shorter => exact candid_program rest
termination_by tokens.length

namespace ProgramReading

variable {reading : ProgramReading}

theorem Candid.diagnostics_eq_nil (candid : reading.Candid) (noError : reading.error? = none)
    (stop : Token) : reading.diagnostics stop = [] := by
  rw [Candid, noError] at candid
  rw [diagnostics, candid]
  rfl

theorem Candid.tellsOf (candid : reading.Candid) {error : GrammarError}
    (failed : reading.error? = some error) (stop : Token) :
    TellsOf Construct error (Cursor.mk reading.rest stop).current.position
      (reading.diagnostics stop) := by
  rw [Candid, failed] at candid
  obtain ⟨failure, rfl, log⟩ := candid
  rw [diagnostics, log, ReadingLog.diagnostics, Failure.map_locate_remarks]
  exact failure.tellsOf _

end ProgramReading

end Tuplet
