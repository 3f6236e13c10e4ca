import Tuplet.Proofs.BuilderUse
import Tuplet.Proofs.TypeQuestions

/-!
# Searches for types end

Verification asks only where the search for a type goes down in the function, whatever the
function holds. A listing asks about every operand, and on a function that was put together
by hand its search may never end. It always ends on modules that come of lowering: a field is
only ever extracted from a call, right behind that call, so ids go down along the search. This
is so whatever trees are lowered, whether or not they come from a source and whether or not
lowering succeeds.
-/

namespace Tuplet

open Ir (Function Instruction Operand)

/-- A field is extracted from an instruction with a smaller id. -/
def Ir.Instruction.Backward (instruction : Instruction) : Prop :=
  ∀ aggregate index, instruction.action = .extract aggregate index →
    ∃ id, id < instruction.id ∧ aggregate = .instr id

namespace Ir.Function

variable {function : Function} (module : Ir.Module)
  (backward : ∀ instruction ∈ function.code, instruction.Backward)

include backward

/-- Where fields are extracted backward, the search ends within as many steps as an id says. -/
theorem finds_typeWithin_of_backward {id depth : Nat} (deep : id < depth) :
    module.Finds function (.instr id) (module.typeWithin function depth (.instr id)) := by
  induction depth generalizing id with
  | zero => omega
  | succ depth ih =>
      cases found : function.instruction? id with
      | none =>
          rw [Ir.Module.typeWithin_instr, found]
          exact .dangling found
      | some instruction =>
          have isId : instruction.id = id := by simpa using List.find?_some found
          apply Ir.Module.finds_instr found
          intro aggregate index isField
          rcases backward instruction (List.mem_of_find?_eq_some found) aggregate index isField with
            ⟨earlier, before, rfl⟩
          exact ih (by omega)

/-- If no id is wasted either, the search finds what the bounded search does. -/
theorem finds_of_backward (usesAll : function.UsesAllIds) (operand : Operand) :
    module.Finds function operand (module.typeOf? function operand) := by
  cases operand with
  | const value =>
      rw [Ir.Module.typeOf?_const]
      exact .const value
  | param index =>
      rw [Ir.Module.typeOf?_param]
      exact .param index
  | instr id =>
      by_cases deep : id < function.code.length
      · exact finds_typeWithin_of_backward module backward deep
      -- there are as many instructions as ids, so this one dangles
      have dangling : function.instruction? id = none := by
        rw [instruction?, List.find?_eq_none]
        intro instruction present
        have given : instruction.id < function.nextId := by
          simpa using usesAll.mem_iff.mp (List.mem_map_of_mem present)
        have count : function.code.length = function.nextId := by simpa using usesAll.length_eq
        simp only [beq_iff_eq]
        omega
      cases typed : module.typeOf? function (.instr id) with
      | none => exact .dangling dangling
      | some type =>
          rcases Ir.Module.resultType_of_typeOf? typed with ⟨instruction, found, _⟩
          cases dangling.symm.trans found

end Ir.Function

namespace Emission

variable {α β : Type}

/-- Whatever a step emits, fields are extracted backward. -/
def EmitsBackward (step : Emission α) : Prop :=
  ∀ draft, ∀ instruction ∈ (step draft).1.code, instruction.Backward

theorem emitsBackward_of_no_code {step : Emission α} (none : ∀ draft, (step draft).1.code = []) :
    step.EmitsBackward := by
  intro draft instruction emitted
  rw [none] at emitted
  cases emitted

theorem emitsBackward_pure (value : α) : (pure value : Emission α).EmitsBackward :=
  emitsBackward_of_no_code fun _ => rfl

theorem emitsBackward_fail (error : LoweringError) : (fail error : Emission α).EmitsBackward :=
  emitsBackward_of_no_code fun _ => rfl

theorem EmitsBackward.andThen {step : Emission α} {next : α → Emission β}
    (first : step.EmitsBackward) (second : ∀ value, (next value).EmitsBackward) :
    (step >>= next).EmitsBackward := by
  intro draft
  have here := first draft
  rcases stepped : step draft with ⟨added, failure | value⟩
  · rw [stepped] at here
    simpa only [bind, stepped] using here
  · rw [stepped] at here
    simp only [bind, stepped, Draft.code_append, List.forall_mem_append]
    exact ⟨here, second value _⟩

theorem EmitsBackward.inside {step : Emission α} (backward : step.EmitsBackward)
    (context : LoweringContext) : (inside context step).EmitsBackward := backward

theorem emitsBackward_emit (name : String) {action : Ir.Action}
    (noField : ∀ aggregate index, action ≠ .extract aggregate index) :
    (emit name action).EmitsBackward := by
  intro draft
  rw [emit, List.forall_mem_singleton]
  intro aggregate index isField
  exact absurd isField (noField aggregate index)

theorem emitsBackward_store (slot : Ir.Slot) (operand : Operand) :
    (store slot operand).EmitsBackward :=
  (emitsBackward_emit "" (by simp)).andThen fun _ => emitsBackward_pure ()

theorem emitsBackward_resolve (name : String) : (resolve name).EmitsBackward := by
  rw [resolve]
  split
  · exact emitsBackward_fail _
  · split
    · exact emitsBackward_pure _
    · exact emitsBackward_fail _

theorem emitsBackward_slotOf (around : Surroundings) (name : String) :
    (slotOf around name).EmitsBackward := by
  apply EmitsBackward.andThen (emitsBackward_of_no_code fun _ => rfl)
  intro slot?
  cases slot? with
  | none => exact emitsBackward_fail _
  | some slot => exact emitsBackward_pure slot

theorem emitsBackward_callee (around : Surroundings) (name : String) (given : Nat) :
    (callee around name given).EmitsBackward := by
  rw [callee]
  split
  · exact emitsBackward_fail _
  · split
    · exact emitsBackward_pure _
    · exact emitsBackward_fail _

/-- The field that is extracted behind a call is one of its own. -/
theorem emitsBackward_emitCall (profile : Profile) (name : String) (args : List Operand) :
    (emitCall profile name args).EmitsBackward := by
  intro draft
  have called : Instruction.Backward ⟨draft.next, name, .call name args⟩ := by
    intro _ _ isField
    cases isField
  have extracted : Instruction.Backward ⟨draft.next + 1, "", .extract (.instr draft.next) 0⟩ := by
    intro _ _ isField
    cases isField
    exact ⟨draft.next, Nat.lt_succ_self _, rfl⟩
  by_cases none : profile.returns = []
  · simpa [emitCall, bind, pure, emit, none] using called
  · simpa [emitCall, bind, pure, emit, none, Draft.next, Nat.add_assoc] using ⟨called, extracted⟩

theorem emitsBackward_emitOperator (op : Operator) (left right : Operand) :
    (emitOperator op left right).EmitsBackward := by
  rw [emitOperator]
  split
  · exact (emitsBackward_emit _ (by simp)).andThen fun _ => emitsBackward_pure _
  · exact emitsBackward_fail _

mutual

theorem emitsBackward_value (around : Surroundings) :
    ∀ node : Node, (value around node).EmitsBackward
  | .literal number => emitsBackward_pure _
  | .var use => by
      rw [value]
      apply (emitsBackward_slotOf around use.name).andThen
      intro slot
      exact (emitsBackward_emit _ (by simp)).andThen fun _ => emitsBackward_pure _
  | .binary op left right => by
      rw [value]
      apply (emitsBackward_value around left).andThen
      intro leftOperand
      apply (emitsBackward_value around right).andThen
      intro rightOperand
      exact emitsBackward_emitOperator op leftOperand rightOperand
  | .call name args => by
      rw [value]
      apply (emitsBackward_callee around name args.length).andThen
      intro profile
      apply (emitsBackward_arguments around name 1 args).andThen
      intro operands
      apply (emitsBackward_emitCall profile name operands).andThen
      intro operand?
      cases operand? with
      | none => exact emitsBackward_fail _
      | some operand => exact emitsBackward_pure operand
  | .group inner => by
      rw [value]
      exact emitsBackward_value around inner
  | .assign _ _ | .decl _ | .signature _ | .function _ _ | .ret _ => by
      rw [value]
      exact emitsBackward_fail _

theorem emitsBackward_arguments (around : Surroundings) (name : String) (position : Nat) :
    ∀ args : List Node, (arguments around name position args).EmitsBackward
  | [] => emitsBackward_pure []
  | arg :: rest => by
      rw [arguments]
      apply ((emitsBackward_value around arg).inside _).andThen
      intro operand
      apply (emitsBackward_arguments around name (position + 1) rest).andThen
      intro operands
      exact emitsBackward_pure _

end

theorem emitsBackward_values (around : Surroundings) (nodes : List Node) :
    (values around nodes).EmitsBackward := by
  induction nodes with
  | nil => exact emitsBackward_pure []
  | cons node rest ih =>
      apply (emitsBackward_value around node).andThen
      intro operand
      apply ih.andThen
      intro operands
      exact emitsBackward_pure _

theorem emitsBackward_declaration (around : Surroundings) (declared : Declaration) :
    (declaration around declared).EmitsBackward := by
  apply EmitsBackward.andThen (emitsBackward_of_no_code fun _ => rfl)
  intro slot?
  split
  · exact emitsBackward_fail _
  · apply (emitsBackward_resolve declared.type).andThen
    intro type
    exact emitsBackward_of_no_code fun _ => rfl

theorem emitsBackward_statement (around : Surroundings) (node : Node) :
    (statement around node).EmitsBackward := by
  cases node with
  | decl declared =>
      apply (emitsBackward_declaration around declared).andThen
      intro slot
      exact emitsBackward_pure ()
  | assign assigned node =>
      have onTarget : (target around assigned).EmitsBackward := by
        cases assigned with
        | decl declared => exact emitsBackward_declaration around declared
        | var use => exact emitsBackward_slotOf around use.name
      apply onTarget.andThen
      intro slot
      apply ((emitsBackward_value around node).inside _).andThen
      intro operand
      exact emitsBackward_store slot operand
  | call name args =>
      apply EmitsBackward.andThen
      · apply (emitsBackward_callee around name args.length).andThen
        intro profile
        apply (emitsBackward_arguments around name 1 args).andThen
        intro operands
        exact emitsBackward_emitCall profile name operands
      intro operand?
      exact emitsBackward_pure ()
  | ret nodes =>
      apply (emitsBackward_values around nodes).andThen
      intro operands
      exact (emitsBackward_emit _ (by simp)).andThen fun _ => emitsBackward_pure ()
  | _ => exact emitsBackward_fail _

theorem emitsBackward_statements (around : Surroundings) (nodes : List Node) :
    (statements around nodes).EmitsBackward := by
  induction nodes with
  | nil => exact emitsBackward_pure ()
  | cons node rest ih =>
      apply ((emitsBackward_statement around node).inside _).andThen
      intro _
      exact ih

theorem emitsBackward_parameters (around : Surroundings) (position : Nat)
    (params : List Parameter) : (parameters around position params).EmitsBackward := by
  induction params generalizing position with
  | nil => exact emitsBackward_pure ()
  | cons param rest ih =>
      apply EmitsBackward.andThen (emitsBackward_of_no_code fun _ => rfl)
      intro slot?
      split
      · exact emitsBackward_fail _
      · apply (emitsBackward_resolve param.type).andThen
        intro type
        apply EmitsBackward.andThen (emitsBackward_of_no_code fun _ => rfl)
        intro slot
        apply (emitsBackward_store slot (.param position)).andThen
        intro _
        exact ih (position + 1)

theorem emitsBackward_body (around : Surroundings) (params : List Parameter) (nodes : List Node) :
    (body around params nodes).EmitsBackward :=
  (emitsBackward_parameters around 0 params).andThen fun _ => emitsBackward_statements around nodes

end Emission

namespace Lowering

variable {table : FunctionTable} {state : LoweringState} {header : Signature}

/-- Each function has no blocks or has been filled with a draft for which something holds. -/
def Filled (holds : Draft → Prop) (functions : List Function) : Prop :=
  ∀ function ∈ functions,
    function.blocks = [] ∨ ∃ draft declared, holds draft ∧ function = draft.fill declared

section Filled

variable {holds : Draft → Prop}

theorem Filled.declare (filled : Filled holds state.builder.module.functions) {known : Known}
    {function : Function} (describes : known.Describes function) (blank : known.bodied = false) :
    Filled holds (state.declare function).builder.module.functions := by
  have noBlocks : function.blocks = [] := by
    simpa [Function.isDeclaration, blank] using describes.bodied
  rw [Filled, LoweringState.declare, List.forall_mem_append, List.forall_mem_singleton]
  exact ⟨filled, .inl noBlocks⟩

theorem Filled.closed {site : Site} (filled : Filled holds site.builder.module.functions)
    {draft : Draft} (held : holds draft) :
    Filled holds (site.closed draft).builder.module.functions := by
  intro function present
  rcases List.mem_or_eq_of_mem_set present with present | rfl
  · exact filled function present
  · exact .inr ⟨draft, site.function, held, rfl⟩

variable
  (bodies : ∀ around params nodes, holds (Emission.body around params nodes .empty).1)
  (finishes : ∀ draft header, holds draft → holds (draft.finished header))

include finishes in
theorem Filled.completing {site : Site} (filled : Filled holds site.builder.module.functions)
    {outcome : Draft × Except LoweringFailure Unit} (held : holds outcome.1) :
    Filled holds (left (site.completing header outcome)).builder.module.functions := by
  rcases outcome with ⟨draft, failure | _⟩
  · exact filled.closed held
  · simp only [Site.completing]
    split
    · exact filled.closed (finishes draft header held)
    · exact filled.closed (finishes draft header held)

include bodies finishes

theorem filled_item (describes : table.Describes state)
    (filled : Filled holds state.builder.module.functions) (node : Node) :
    Filled holds (left (item node state)).builder.module.functions := by
  cases node with
  | signature header =>
      rw [item, Result.get_bind]
      cases found : state.builder.module.index? header.name with
      | none =>
          dsimp only
          rcases signature_cases found with ⟨_, function, describes, signed⟩ | ⟨_, failure, failed⟩
          · rw [signed]
            exact filled.declare describes rfl
          · rw [failed]
            exact filled
      | some index => exact filled
  | function header nodes =>
      rcases left_inside (.function header.name) (function header nodes) state with ⟨log, same⟩
      rw [item, same]
      rcases function_cases describes header nodes with
        ⟨_, known, index, function, declared, origin, ready, lowered⟩ | ⟨_, failure, failed⟩
      · have filledThere : Filled holds declared.builder.module.functions := by
          rcases origin with rfl | ⟨_, rfl⟩
          · exact filled
          · exact filled.declare ready.function? ready.blank
        rw [lowered]
        exact Filled.completing finishes filledThere (bodies _ _ _)
      · rw [failed]
        exact filled
  | _ => exact filled

/-- What holds of the drafts of all bodies holds of what all functions are filled with. -/
theorem filled_items (describes : table.Describes state)
    (filled : Filled holds state.builder.module.functions) (nodes : List Node) :
    Filled holds (items state nodes).2.builder.module.functions := by
  induction nodes generalizing table state with
  | nil => exact filled
  | cons node rest ih =>
      rw [items_cons]
      exact ih (describes_left describes node)
        (filled_item bodies finishes describes filled node)

end Filled

/-- Whatever trees are lowered into a new module, fields are extracted backward. -/
theorem backward_items (moduleName : String) (nodes : List Node) :
    ∀ function ∈ (items (.new (.new moduleName)) nodes).2.builder.module.functions,
      ∀ instruction ∈ function.code, instruction.Backward := by
  have finishes : ∀ (draft : Draft) header, (∀ instruction ∈ draft.code, instruction.Backward) →
      ∀ instruction ∈ (draft.finished header).code, instruction.Backward := by
    intro draft header backward
    rw [Draft.finished]
    split
    · rw [Draft.code_append, List.forall_mem_append, List.forall_mem_singleton]
      refine ⟨backward, ?_⟩
      intro _ _ isField
      cases isField
    · exact backward
  have filled := filled_items
    (fun around params nodes => Emission.emitsBackward_body around params nodes .empty) finishes
    (describes_new moduleName) (List.forall_mem_nil _) nodes
  intro function present
  rcases filled function present with noBlocks | ⟨draft, declared, backward, rfl⟩
  · simp [Function.code, noBlocks]
  · rw [Function.code, Draft.fill, List.flatMap_singleton, Draft.instructions,
      List.forall_mem_append, List.forall_mem_map]
    refine ⟨?_, backward⟩
    intro slot _ _ _ isField
    cases isField

/--
Verification ends on every function of every module. It asks for the type of an operand only
where the search for it goes down in the function, so that every id on the way first occurs
earlier: answers to these questions are enough, whatever becomes of others. The search that has
no bound gives them.

On modules that come of lowering, the search ends for every operand, and so does a listing.
-/
theorem verification_and_listings_end :
    (∀ (module : Ir.Module) (function : Function),
      (∀ ask, (∀ place operand, function.Descends place operand →
          ask place operand = some (module.typeOf? function operand)) →
        (module.verifyAsking function ask).run = some (module.verify function)) ∧
      (module.verifyAsking function fun _ => module.search function).run =
        some (module.verify function)) ∧
    ∀ (moduleName : String) (nodes : List Node),
      let module := (items (.new (.new moduleName)) nodes).2.builder.module
      (∀ function ∈ module.functions, ∀ operand,
        module.search function operand = some (module.typeOf? function operand)) ∧
      module.renderAsking module.search = some module.render := by
  refine ⟨?_, ?_⟩
  · intro module function
    refine ⟨fun ask answers => Ir.Module.verifyAsking_eq answers, ?_⟩
    apply Ir.Module.verifyAsking_eq
    intro place operand descends
    exact Ir.Module.search_eq_some_iff.mpr (descends.finds module)
  · intro moduleName nodes module
    have ends : ∀ function ∈ module.functions, ∀ operand,
        module.search function operand = some (module.typeOf? function operand) := by
      intro function present operand
      have usesAll := usesAllIds_items (describes_new moduleName) (List.forall_mem_nil _) nodes
      have backward := backward_items moduleName nodes function present
      exact Ir.Module.search_eq_some_iff.mpr
        (Ir.Function.finds_of_backward module backward (usesAll function present) operand)
    exact ⟨ends, Ir.Module.renderAsking_eq ends⟩

end Lowering

end Tuplet
