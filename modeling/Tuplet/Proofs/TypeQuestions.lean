import Tuplet.Ir.Listing
import Tuplet.Proofs.TypeSearch

/-!
# What verification and listings ask for

Both ask for the types of operands. Here they are given a way to get answers, from which none
may come: a question that is never answered is where they would hang.

Verification asks about the operands of an instruction only after all of them have been
found to be available. The instructions before it have passed by then, so whatever a type is
searched through was available where it was read, and the search goes down from the place
of the instruction. Answers to such questions are all that verification needs. This holds of
every module and every function: ids may repeat or dangle, and extractions may lead forward
or in a circle.

A listing asks about every operand of every function.
-/

namespace Tuplet.Ir

/-- A check that asks for types on its way; nothing comes of it where an answer never comes. -/
abbrev Inquiry := ExceptT VerifyError Option

namespace Inquiry

variable {α β : Type}

/-- What has come out without asking. -/
def settled (outcome : Except VerifyError α) : Inquiry α := ExceptT.mk (some outcome)

/-- A question, and what has been answered. -/
def asked (answer : Option α) : Inquiry α := ExceptT.lift answer

theorem settled_bind {outcome : Except VerifyError α} {next : α → Inquiry β}
    {others : α → Except VerifyError β}
    (goesOn : ∀ value, outcome = .ok value → next value = settled (others value)) :
    settled outcome >>= next = settled (outcome >>= others) := by
  cases outcome with
  | error error => rfl
  | ok value => exact goesOn value rfl

theorem asked_bind {answer : α} {question : Option α} (answered : question = some answer)
    (next : α → Inquiry β) : asked question >>= next = next answer := by
  rw [answered]
  rfl

theorem settled_ite {condition : Prop} [Decidable condition]
    {outcome other : Except VerifyError α} :
    (if condition then settled outcome else settled other) =
      settled (if condition then outcome else other) := by
  split <;> rfl

end Inquiry

/-- Where all questions about some things are answered, all of them are answered in turn. -/
theorem mapM_eq_some_map {α β : Type} {ask : α → Option β} {answer : α → β} {asked : List α}
    (answers : ∀ one ∈ asked, ask one = some (answer one)) :
    asked.mapM ask = some (asked.map answer) := by
  induction asked with
  | nil => rfl
  | cons one rest ih =>
      rcases List.forall_mem_cons.mp answers with ⟨here, others⟩
      rw [List.mapM_cons, here, ih others]
      rfl

namespace Module

open Inquiry

/-- Whether types are those of the values that a function returns. -/
def returnTypesMatch (returns : ValueType) (types : List (Option ValueType)) : Bool :=
  match returns with
  | .void => types.isEmpty
  | .struct fields => types = fields.map some
  | _ => false

/-- Checks arguments, asking for the type of each until one does not agree. -/
def checkArgumentsAsking (ask : Operand → Option (Option ValueType)) (callee : String) :
    List Operand → List Param → Inquiry Unit
  | arg :: args, param :: params => do
      if (← asked (ask arg)) = some param.type then checkArgumentsAsking ask callee args params
      else settled (.error (.argumentType param.name callee param.type))
  | _, _ => settled (.ok ())

/-- Checks what an instruction does, asking for the types of its operands. -/
def checkActionAsking (module : Module) (function : Function)
    (ask : Operand → Option (Option ValueType)) (defined : List Nat) (id : Nat) :
    Action → Inquiry Unit
  | .alloca _ => settled (.ok ())
  | .load type pointer => do
      settled (function.checkOperand defined pointer)
      if function.slotType? pointer = some type then settled (.ok ())
      else settled (.error (.invalidLoad id))
  | .store value pointer => do
      settled (function.checkOperand defined value)
      settled (function.checkOperand defined pointer)
      match function.slotType? pointer with
      | none => settled (.error .invalidStore)
      | some type =>
          if (← asked (ask value)) = some type then settled (.ok ())
          else settled (.error (.storedType type))
  | .arith op left right => do
      settled (function.checkOperand defined left)
      settled (function.checkOperand defined right)
      if (← asked (ask left)) = some .int32 then
        if (← asked (ask right)) = some .int32 then settled (.ok ())
        else settled (.error (.notIntegers op))
      else settled (.error (.notIntegers op))
  | .call callee args => do
      settled (function.checkOperands defined args)
      match module.get? callee with
      | none => settled (.error (.unknownCallee callee))
      | some target =>
          if target.params.length = args.length then
            checkArgumentsAsking ask callee args target.params
          else settled (.error (.argumentCount callee args.length target.params.length))
  | .extract aggregate index => do
      settled (function.checkOperand defined aggregate)
      match ← asked (ask aggregate) with
      | some (.struct fields) =>
          if index < fields.length then settled (.ok ())
          else settled (.error (.indexOutOfRange index))
      | _ => settled (.error (.indexOutOfRange index))
  | .ret values => do
      settled (function.checkOperands defined values)
      -- the types of all values are asked for, whether or not there is something to compare
      let types ← asked (values.mapM ask)
      if returnTypesMatch function.returns types then settled (.ok ())
      else settled (.error (.returnType function.returns function.name))

/-- Checks the instructions of a block in order, each asking from its place in the function. -/
def checkCodeAsking (module : Module) (function : Function)
    (ask : Nat → Operand → Option (Option ValueType)) (block : String) (defined : List Nat) :
    List Instruction → Inquiry (List Nat)
  | [] => settled (.ok defined)
  | instruction :: rest =>
      if instruction.isTerminator && !rest.isEmpty then
        settled (.error (.earlyTerminator block function.name))
      else do
        module.checkActionAsking function (ask defined.length) defined instruction.id
          instruction.action
        module.checkCodeAsking function ask block (instruction.id :: defined) rest

def checkBlocksAsking (module : Module) (function : Function)
    (ask : Nat → Operand → Option (Option ValueType)) (defined : List Nat) :
    List Block → Inquiry Unit
  | [] => settled (.ok ())
  | block :: rest =>
      if block.terminator?.isNone then
        settled (.error (.missingTerminator block.name function.name))
      else do
        let defined ← module.checkCodeAsking function ask block.name defined block.code
        module.checkBlocksAsking function ask defined rest

/-- Checks a function, asking for types from the places of its instructions. -/
def verifyAsking (module : Module) (function : Function)
    (ask : Nat → Operand → Option (Option ValueType)) : Inquiry Unit :=
  module.checkBlocksAsking function ask [] function.blocks

variable {module : Module} {function : Function}

theorem returnsMatch_eq (values : List Operand) :
    module.returnsMatch function values =
      returnTypesMatch function.returns (values.map (module.typeOf? function)) := by
  unfold returnsMatch returnTypesMatch
  cases function.returns <;> simp

section Actions

variable {ask : Operand → Option (Option ValueType)}

theorem forall_mem_pair {holds : Operand → Prop} {first second : Operand} :
    (∀ operand ∈ [first, second], holds operand) ↔ holds first ∧ holds second := by
  rw [List.forall_mem_cons, List.forall_mem_singleton]

theorem checkArgumentsAsking_eq {callee : String} {args : List Operand} {params : List Param}
    (answers : ∀ arg ∈ args, ask arg = some (module.typeOf? function arg)) :
    checkArgumentsAsking ask callee args params =
      settled (module.checkArguments function callee args params) := by
  induction args generalizing params with
  | nil => rfl
  | cons arg args ih =>
      rcases List.forall_mem_cons.mp answers with ⟨here, others⟩
      cases params with
      | nil => rfl
      | cons param params =>
          rw [checkArgumentsAsking, checkArguments, asked_bind here, ih others, settled_ite]

/-- Answers about operands that are all available are enough to check an instruction. -/
theorem checkActionAsking_eq {defined : List Nat} {id : Nat} {action : Action}
    (answers : (∀ operand ∈ action.operands, function.Available defined operand) →
      ∀ operand ∈ action.operands, ask operand = some (module.typeOf? function operand)) :
    module.checkActionAsking function ask defined id action =
      settled (module.checkAction function defined id action) := by
  cases action with
  | alloca type => rfl
  | load type pointer =>
      rw [checkActionAsking, checkAction]
      apply settled_bind
      intro _ _
      exact settled_ite
  | store value pointer =>
      rw [Action.operands, forall_mem_pair, forall_mem_pair] at answers
      rw [checkActionAsking, checkAction]
      apply settled_bind
      intro _ valueKnown
      apply settled_bind
      intro _ pointerKnown
      rw [Function.checkOperand_eq_ok_iff] at valueKnown pointerKnown
      cases function.slotType? pointer with
      | none => rfl
      | some type =>
          dsimp only
          rw [asked_bind (answers ⟨valueKnown, pointerKnown⟩).1, settled_ite]
  | arith op left right =>
      rw [Action.operands, forall_mem_pair, forall_mem_pair] at answers
      rw [checkActionAsking, checkAction]
      apply settled_bind
      intro _ leftKnown
      apply settled_bind
      intro _ rightKnown
      rw [Function.checkOperand_eq_ok_iff] at leftKnown rightKnown
      rcases answers ⟨leftKnown, rightKnown⟩ with ⟨leftAnswered, rightAnswered⟩
      rw [asked_bind leftAnswered, asked_bind rightAnswered, settled_ite, settled_ite, ite_and]
  | call callee args =>
      rw [Action.operands] at answers
      rw [checkActionAsking, checkAction]
      apply settled_bind
      intro _ argsKnown
      rw [Function.checkOperands_eq_ok_iff] at argsKnown
      cases module.get? callee with
      | none => rfl
      | some target =>
          dsimp only
          rw [checkArgumentsAsking_eq (answers argsKnown), settled_ite]
  | extract aggregate index =>
      simp only [Action.operands, List.forall_mem_singleton] at answers
      rw [checkActionAsking, checkAction]
      apply settled_bind
      intro _ aggregateKnown
      rw [Function.checkOperand_eq_ok_iff] at aggregateKnown
      rw [asked_bind (answers aggregateKnown)]
      cases module.typeOf? function aggregate with
      | none => rfl
      | some type =>
          cases type with
          | struct fields => exact settled_ite
          | _ => rfl
  | ret values =>
      rw [Action.operands] at answers
      rw [checkActionAsking, checkAction]
      apply settled_bind
      intro _ valuesKnown
      rw [Function.checkOperands_eq_ok_iff] at valuesKnown
      rw [asked_bind (mapM_eq_some_map (answers valuesKnown)), returnsMatch_eq, settled_ite]

end Actions

theorem Admissible.ordered {defined : List Nat} {code : List Instruction}
    (admissible : module.Admissible function defined code) : function.Ordered defined code := by
  induction code generalizing defined with
  | nil => trivial
  | cons instruction rest ih =>
      rcases admissible with ⟨_, available, _, others⟩
      exact ⟨available, ih others⟩

section Places

variable {ask : Nat → Operand → Option (Option ValueType)}
  (answers : ∀ place operand, function.Descends place operand →
    ask place operand = some (module.typeOf? function operand))

include answers

theorem checkCodeAsking_eq {block : String} {front code behind : List Instruction}
    (split : function.code = front ++ code ++ behind) (ordered : function.Ordered [] front) :
    module.checkCodeAsking function ask block (front.map (·.id)).reverse code =
      settled (module.checkCode function block (front.map (·.id)).reverse code) := by
  induction code generalizing front with
  | nil => rfl
  | cons instruction rest ih =>
      rw [checkCodeAsking, checkCode]
      by_cases early : (instruction.isTerminator && !rest.isEmpty) = true
      · rw [if_pos early, if_pos early]
        rfl
      rw [if_neg early, if_neg early, checkActionAsking_eq]
      · apply settled_bind
        intro _ passed
        have available := (checkAction_eq_ok_iff.mp passed).1
        have longer := @ih (front ++ [instruction]) (by simpa using split)
          (Function.ordered_append.mpr ⟨ordered, by simpa using available, trivial⟩)
        simpa using longer
      · intro available operand read
        rw [List.length_reverse, List.length_map]
        apply answers
        rw [List.append_assoc] at split
        apply Function.descends_of_available split ordered
        exact (available operand read).mono (by simp)

theorem checkBlocksAsking_eq {front : List Instruction} {blocks : List Block}
    (split : function.code = front ++ blocks.flatMap (·.code))
    (ordered : function.Ordered [] front) :
    module.checkBlocksAsking function ask (front.map (·.id)).reverse blocks =
      settled (module.checkBlocks function (front.map (·.id)).reverse blocks) := by
  induction blocks generalizing front with
  | nil => rfl
  | cons block rest ih =>
      rw [List.flatMap_cons, ← List.append_assoc] at split
      rw [checkBlocksAsking, checkBlocks]
      by_cases unended : block.terminator?.isNone = true
      · rw [if_pos unended, if_pos unended]
        rfl
      rw [if_neg unended, if_neg unended, checkCodeAsking_eq answers split ordered]
      apply settled_bind
      intro defined passed
      rcases checkCode_eq_ok_iff.mp passed with ⟨admissible, rfl⟩
      have longer := ih split
        (Function.ordered_append.mpr ⟨ordered, by simpa using admissible.ordered⟩)
      simpa using longer

/--
Answers to questions from which the search goes down are enough to verify a function, so
verification asks no other ones.
-/
theorem verifyAsking_eq : module.verifyAsking function ask = settled (module.verify function) :=
  @checkBlocksAsking_eq _ _ _ answers [] _ rfl trivial

end Places

section Listings

variable (module : Module) (ask : Function → Operand → Option (Option ValueType))

/-- An operand with its type, which is asked for. -/
def renderOperandAsking (function : Function) (operand : Operand) : Option String := do
  let type ← ask function operand
  some ((type.map ValueType.render).getD "?" ++ " " ++ renderBare function operand)

def renderOperandsAsking (function : Function) (operands : List Operand) : Option String := do
  let texts ← operands.mapM (renderOperandAsking ask function)
  some (String.intercalate ", " texts)

/-- What an instruction does, as text, asking for the types of its operands. -/
def renderActionAsking (function : Function) : Action → Option String
  | .alloca type => some ("alloca " ++ type.render)
  | .load type pointer => do
      some ("load " ++ type.render ++ ", " ++ (← renderOperandAsking ask function pointer))
  | .store value pointer => do
      some ("store " ++ (← renderOperandAsking ask function value) ++ ", " ++
        (← renderOperandAsking ask function pointer))
  | .arith op left right => do
      some (op.mnemonic ++ " " ++ (← renderOperandAsking ask function left) ++ ", " ++
        (← renderOperandAsking ask function right))
  | .call callee args => do
      some ("call " ++ (module.callType callee).render ++ " @" ++ callee ++ "(" ++
        (← renderOperandsAsking ask function args) ++ ")")
  | .extract aggregate index => do
      some ("extractvalue " ++ (← renderOperandAsking ask function aggregate) ++ ", " ++
        toString index)
  | .ret [] => some "ret void"
  | .ret values => do
      some ("ret " ++ function.returns.render ++ " \x7b " ++
        (← renderOperandsAsking ask function values) ++ " \x7d")

def renderInstructionAsking (function : Function) (instruction : Instruction) :
    Option String := do
  let action ← module.renderActionAsking ask function instruction.action
  some ((if module.showsId instruction.action then "%" ++ toString instruction.id ++ " = " else "")
    ++ action ++ if instruction.name.isEmpty then "" else " ; " ++ instruction.name)

def renderBlockAsking (function : Function) (block : Block) : Option String := do
  let lines ← block.code.mapM (module.renderInstructionAsking ask function)
  some (block.name ++ ":\n" ++ String.join (lines.map ("  " ++ · ++ "\n")))

def renderFunctionAsking (function : Function) : Option String := do
  let blocks ← function.blocks.mapM (module.renderBlockAsking ask function)
  some ("\n" ++ renderHeader function ++
    if function.isDeclaration then "\n" else " \x7b\n" ++ String.join blocks ++ "\x7d\n")

/-- The text of a module, asking for the types of all operands of its functions. -/
def renderAsking : Option String := do
  let functions ← module.functions.mapM (module.renderFunctionAsking ask)
  some ("; module " ++ module.name ++ "\n" ++ String.join functions)

variable {module ask} {function : Function}

section Function

variable (answers : ∀ operand, ask function operand = some (module.typeOf? function operand))

include answers

theorem renderOperandAsking_eq (operand : Operand) :
    renderOperandAsking ask function operand = some (module.renderOperand function operand) := by
  rw [renderOperandAsking, answers]
  rfl

theorem renderOperandsAsking_eq (operands : List Operand) :
    renderOperandsAsking ask function operands =
      some (module.renderOperands function operands) := by
  rw [renderOperandsAsking, mapM_eq_some_map fun one _ => renderOperandAsking_eq answers one]
  rfl

theorem renderActionAsking_eq (action : Action) :
    module.renderActionAsking ask function action = some (module.renderAction function action) := by
  have operand := renderOperandAsking_eq answers
  have operands := renderOperandsAsking_eq answers
  unfold renderActionAsking renderAction
  cases action with
  | alloca type => rfl
  | ret values =>
      cases values with
      | nil => rfl
      | cons value rest =>
          simp only [operands]
          rfl
  | _ => simp only [operand, operands, Option.bind_eq_bind, Option.bind_some]

theorem renderBlockAsking_eq (block : Block) :
    module.renderBlockAsking ask function block = some (module.renderBlock function block) := by
  have lines : ∀ instruction ∈ block.code,
      module.renderInstructionAsking ask function instruction =
        some (module.renderInstruction function instruction) := by
    intro instruction _
    rw [renderInstructionAsking, renderActionAsking_eq answers]
    rfl
  rw [renderBlockAsking, mapM_eq_some_map lines, renderBlock]
  simp [Function.comp_def]

theorem renderFunctionAsking_eq :
    module.renderFunctionAsking ask function = some (module.renderFunction function) := by
  rw [renderFunctionAsking, mapM_eq_some_map fun block _ => renderBlockAsking_eq answers block]
  rfl

end Function

/-- Answers about all operands of all functions are enough to list a module. -/
theorem renderAsking_eq
    (answers : ∀ function ∈ module.functions, ∀ operand,
      ask function operand = some (module.typeOf? function operand)) :
    module.renderAsking ask = some module.render := by
  have functions : ∀ function ∈ module.functions, module.renderFunctionAsking ask function =
      some (module.renderFunction function) :=
    fun function present => renderFunctionAsking_eq (answers function present)
  rw [renderAsking, mapM_eq_some_map functions]
  rfl

end Listings

end Module

end Tuplet.Ir
