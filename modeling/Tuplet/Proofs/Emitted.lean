import Tuplet.Proofs.Items

/-!
# The instructions of a body

Which slots and instructions lowering adds for which nodes, as relations between
the two. A node with a value adds code only, and an operand stands for the value
once the code has been run. Statements may add a slot besides. The relations
hold exactly where the emissions succeed, and everything that is shown about
bodies that could be lowered is shown by following them.
-/

namespace Tuplet

open Ir (Instruction Operand Slot ValueType)

namespace Draft

/-- Code without slots. -/
def ofCode (code : List Instruction) : Draft := ⟨[], code⟩

/-- A draft with more code. -/
def extend (draft : Draft) (code : List Instruction) : Draft := draft ++ ofCode code

/-- A draft with one more slot. -/
def allocate (draft : Draft) (name : String) (type : ValueType) : Draft :=
  draft ++ ⟨[(name, ⟨draft.next, type⟩)], []⟩

/-- The slot that a name stands for. -/
def slot? (draft : Draft) (name : String) : Option Slot := draft.slots.reverse.lookup name

variable (draft : Draft)

@[simp] theorem slots_extend (code : List Instruction) :
    (draft.extend code).slots = draft.slots := by simp [extend, ofCode]

@[simp] theorem code_extend (code : List Instruction) :
    (draft.extend code).code = draft.code ++ code := by simp [extend, ofCode]

@[simp] theorem next_extend (code : List Instruction) :
    (draft.extend code).next = draft.next + code.length := by
  simp [next, Nat.add_assoc]

@[simp] theorem extend_nil : draft.extend [] = draft := by ext <;> simp

@[simp] theorem extend_extend (code more : List Instruction) :
    (draft.extend code).extend more = draft.extend (code ++ more) := by ext <;> simp

@[simp] theorem slot?_extend (code : List Instruction) :
    (draft.extend code).slot? = draft.slot? := by
  funext name
  simp [slot?]

@[simp] theorem slots_allocate (name : String) (type : ValueType) :
    (draft.allocate name type).slots = draft.slots ++ [(name, ⟨draft.next, type⟩)] := by
  simp [allocate]

@[simp] theorem code_allocate (name : String) (type : ValueType) :
    (draft.allocate name type).code = draft.code := by simp [allocate]

theorem slot?_allocate (name other : String) (type : ValueType) :
    (draft.allocate name type).slot? other =
      if other = name then some ⟨draft.next, type⟩ else draft.slot? other := by
  unfold slot?
  rw [slots_allocate, List.reverse_append, List.reverse_singleton, List.singleton_append]
  by_cases same : other = name
  · simp [same]
  · rw [Lookup.lookup_cons_of_ne same, if_neg same]

variable {draft}

theorem mem_of_slot? {name : String} {slot : Slot} (found : draft.slot? name = some slot) :
    slotInstruction (name, slot) ∈ draft.instructions := by
  have member : (name, slot) ∈ draft.slots := by
    obtain ⟨later, earlier, split, _⟩ := List.lookup_eq_some_iff.mp found
    rw [← List.mem_reverse, split]
    simp
  exact List.mem_append_left _ (List.mem_map_of_mem member)

end Draft

/-- The code of a call, and of taking its first value if it has any. -/
def callCode (profile : Profile) (id : Nat) (name : String) (args : List Operand) :
    List Instruction :=
  ⟨id, name, .call name args⟩ ::
    if profile.returns = [] then [] else [⟨id + 1, "", .extract (.instr id) 0⟩]

namespace Node

mutual

/-- Behind a draft, a node adds code, after which an operand stands for its value. -/
inductive Emits (table : FunctionTable) :
    Draft → Node → List Instruction → Operand → Prop
  | literal {draft : Draft} (value : Int32) :
      Emits table draft (.literal value) [] (.const value)
  | var {draft : Draft} {use : Variable} {slot : Slot}
      (declared : draft.slot? use.name = some slot) :
      Emits table draft (.var use) [⟨draft.next, use.name, .load slot.type (.instr slot.id)⟩]
        (.instr draft.next)
  | binary {draft : Draft} {op : Operator} {arithmetic : Ir.Arithmetic} {left right : Node}
      {leftCode rightCode : List Instruction} {leftOperand rightOperand : Operand}
      (computable : op.arithmetic? = some arithmetic)
      (leftEmits : Emits table draft left leftCode leftOperand)
      (rightEmits : Emits table (draft.extend leftCode) right rightCode rightOperand) :
      Emits table draft (.binary op left right)
        (leftCode ++ rightCode ++
          [⟨(draft.extend (leftCode ++ rightCode)).next, "",
            .arith arithmetic leftOperand rightOperand⟩])
        (.instr (draft.extend (leftCode ++ rightCode)).next)
  | call {draft : Draft} {name : String} {args : List Node} {profile : Profile}
      {code : List Instruction} {operands : List Operand}
      (declared : table.profile? name = some profile)
      (count : profile.params.length = args.length) (returns : profile.returns ≠ [])
      (arguments : EmitsAll table draft args code operands) :
      Emits table draft (.call name args)
        (code ++ callCode profile (draft.extend code).next name operands)
        (.instr ((draft.extend code).next + 1))
  | group {draft : Draft} {inner : Node} {code : List Instruction} {operand : Operand}
      (emits : Emits table draft inner code operand) :
      Emits table draft (.group inner) code operand

/-- Behind a draft, nodes add code, after which operands stand for their values. -/
inductive EmitsAll (table : FunctionTable) :
    Draft → List Node → List Instruction → List Operand → Prop
  | nil {draft : Draft} : EmitsAll table draft [] [] []
  | cons {draft : Draft} {node : Node} {nodes : List Node} {code more : List Instruction}
      {operand : Operand} {operands : List Operand}
      (first : Emits table draft node code operand)
      (rest : EmitsAll table (draft.extend code) nodes more operands) :
      EmitsAll table draft (node :: nodes) (code ++ more) (operand :: operands)

end

/-- Behind a draft, the target of an assignment is a slot, for which it may have been extended. -/
inductive EmitsTarget (draft : Draft) : Target → Slot → Draft → Prop
  | var {use : Variable} {slot : Slot} (declared : draft.slot? use.name = some slot) :
      EmitsTarget draft (.var use) slot draft
  | decl {declared : Declaration} {type : ValueType}
      (unused : draft.slot? declared.name = none) (known : scalar? declared.type = some type) :
      EmitsTarget draft (.decl declared) ⟨draft.next, type⟩ (draft.allocate declared.name type)

/-- Behind a draft, a statement leads to another draft. -/
inductive EmitsStatement (table : FunctionTable) (draft : Draft) : Node → Draft → Prop
  | decl {declared : Declaration} {slot : Slot} {after : Draft}
      (target : EmitsTarget draft (.decl declared) slot after) :
      EmitsStatement table draft (.decl declared) after
  | assign {assigned : Target} {value : Node} {slot : Slot} {after : Draft}
      {code : List Instruction} {operand : Operand}
      (target : EmitsTarget draft assigned slot after)
      (emits : Emits table after value code operand) :
      EmitsStatement table draft (.assign assigned value)
        (after.extend (code ++ [⟨(after.extend code).next, "", .store operand (.instr slot.id)⟩]))
  | call {name : String} {args : List Node} {profile : Profile} {code : List Instruction}
      {operands : List Operand} (declared : table.profile? name = some profile)
      (count : profile.params.length = args.length)
      (arguments : EmitsAll table draft args code operands) :
      EmitsStatement table draft (.call name args)
        (draft.extend (code ++ callCode profile (draft.extend code).next name operands))
  | ret {values : List Node} {code : List Instruction} {operands : List Operand}
      (emits : EmitsAll table draft values code operands) :
      EmitsStatement table draft (.ret values)
        (draft.extend (code ++ [⟨(draft.extend code).next, "", .ret operands⟩]))

/-- Behind a draft, statements lead to another draft. -/
inductive EmitsStatements (table : FunctionTable) : Draft → List Node → Draft → Prop
  | nil {draft : Draft} : EmitsStatements table draft [] draft
  | cons {draft middle after : Draft} {node : Node} {rest : List Node}
      (first : EmitsStatement table draft node middle)
      (others : EmitsStatements table middle rest after) :
      EmitsStatements table draft (node :: rest) after

/-- Behind a draft, parameters, the first of which is at a position, lead to another draft. -/
inductive EmitsParameters : Draft → Nat → List Parameter → Draft → Prop
  | nil {draft : Draft} {position : Nat} : EmitsParameters draft position [] draft
  | cons {draft after : Draft} {position : Nat} {param : Parameter} {type : ValueType}
      {rest : List Parameter} (unused : draft.slot? param.name = none)
      (known : scalar? param.type = some type)
      (others : EmitsParameters
        ((draft.allocate param.name type).extend
          [⟨(draft.allocate param.name type).next, "", .store (.param position)
            (.instr draft.next)⟩])
        (position + 1) rest after) :
      EmitsParameters draft position (param :: rest) after

end Node

namespace Emission

variable {α β : Type}

/-- From a draft, a step succeeds with a value and leads to another draft. -/
def Leads (step : Emission α) (draft : Draft) (value : α) (after : Draft) : Prop :=
  (step draft).2 = .ok value ∧ draft ++ (step draft).1 = after

variable {draft after : Draft}

theorem leads_empty_iff {step : Emission α} {value : α} :
    step.Leads .empty value after ↔ step .empty = (after, .ok value) := by
  simp [Leads, Prod.ext_iff, and_comm]

@[simp]
theorem leads_pure {value result : α} :
    (pure value : Emission α).Leads draft result after ↔ value = result ∧ draft = after := by
  simp [Leads, pure]

@[simp]
theorem not_leads_fail {error : LoweringError} {value : α} :
    ¬ (fail error : Emission α).Leads draft value after := by
  simp [Leads, fail]

@[simp]
theorem leads_bind {step : Emission α} {next : α → Emission β} {result : β} :
    (step >>= next).Leads draft result after ↔
      ∃ value middle, step.Leads draft value middle ∧ (next value).Leads middle result after := by
  rcases stepped : step draft with ⟨added, failure | value⟩
  · simp [Leads, bind, stepped]
  · simp [Leads, bind, stepped, Draft.append_assoc]

@[simp]
theorem leads_inside {context : LoweringContext} {step : Emission α} {value : α} :
    (inside context step).Leads draft value after ↔ step.Leads draft value after := by
  rcases stepped : step draft with ⟨added, failure | value⟩ <;>
    simp [Leads, inside, stepped]

@[simp]
theorem leads_emit {name : String} {action : Ir.Action} {id : Nat} :
    (emit name action).Leads draft id after ↔
      draft.next = id ∧ draft.extend [⟨draft.next, name, action⟩] = after := by
  simp [Leads, emit, Draft.extend, Draft.ofCode]

@[simp]
theorem leads_allocate {type : ValueType} {name : String} {slot : Slot} :
    (allocate type name).Leads draft slot after ↔
      ⟨draft.next, type⟩ = slot ∧ draft.allocate name type = after := by
  simp [Leads, allocate, Draft.allocate]

@[simp]
theorem leads_store {slot : Slot} {operand : Operand} {nothing : Unit} :
    (store slot operand).Leads draft nothing after ↔
      draft.extend [⟨draft.next, "", .store operand (.instr slot.id)⟩] = after := by
  simp [store]

variable {table : FunctionTable}

@[simp]
theorem leads_slot? {name : String} {slot? : Option Slot} :
    (Emission.slot? table.around name).Leads draft slot? after ↔
      draft.slot? name = slot? ∧ draft = after := by
  simp [Leads, Emission.slot?, FunctionTable.around, Scope.lookup, Draft.slot?]

@[simp]
theorem leads_slotOf {name : String} {slot : Slot} :
    (slotOf table.around name).Leads draft slot after ↔
      draft.slot? name = some slot ∧ draft = after := by
  cases found : draft.slot? name <;> simp [slotOf, found]

@[simp]
theorem leads_resolve {name : String} {type : ValueType} :
    (resolve name).Leads draft type after ↔ scalar? name = some type ∧ draft = after := by
  rcases resolve_cases name with ⟨type, known, _, resolved⟩ | ⟨unknown, error, _, failed⟩
  · simp [resolved, known]
  · simp [failed, unknown]

@[simp]
theorem leads_callee {name : String} {given : Nat} {profile : Profile} :
    (callee table.around name given).Leads draft profile after ↔
      table.profile? name = some profile ∧ profile.params.length = given ∧ draft = after := by
  have known : table.around.profile? name = table.profile? name := rfl
  unfold callee
  rw [known]
  cases table.profile? name with
  | none => simp
  | some found =>
      by_cases enough : found.params.length = given
      · simp only [enough, if_true, leads_pure]
        constructor
        · rintro ⟨rfl, rfl⟩
          exact ⟨rfl, enough, rfl⟩
        · rintro ⟨⟨⟩, _, rfl⟩
          exact ⟨rfl, rfl⟩
      · simp only [enough, if_false, not_leads_fail, false_iff]
        rintro ⟨⟨⟩, count, _⟩
        exact enough count

@[simp]
theorem leads_emitCall {profile : Profile} {name : String} {args : List Operand}
    {operand? : Option Operand} :
    (emitCall profile name args).Leads draft operand? after ↔
      (if profile.returns = [] then none else some (.instr (draft.next + 1))) = operand? ∧
        draft.extend (callCode profile draft.next name args) = after := by
  unfold emitCall callCode
  by_cases nothing : profile.returns = [] <;> simp [nothing, and_comm]

@[simp]
theorem leads_emitOperator {op : Operator} {left right operand : Operand} :
    (emitOperator op left right).Leads draft operand after ↔
      ∃ arithmetic, op.arithmetic? = some arithmetic ∧ .instr draft.next = operand ∧
        draft.extend [⟨draft.next, "", .arith arithmetic left right⟩] = after := by
  unfold emitOperator
  cases op.arithmetic? <;> simp [and_comm]

mutual

/-- Lowering a node with a value succeeds exactly as its code says. -/
theorem leads_value : ∀ {node : Node} {draft after : Draft} {operand : Operand},
    (value table.around node).Leads draft operand after ↔
      ∃ code, node.Emits table draft code operand ∧ draft.extend code = after
  | .literal number, draft, after, operand => by
      rw [value, leads_pure]
      constructor
      · rintro ⟨rfl, rfl⟩
        exact ⟨[], .literal number, by simp⟩
      · rintro ⟨_, ⟨⟩, rfl⟩
        simp
  | .var use, draft, after, operand => by
      simp only [value, leads_bind, leads_slotOf, leads_emit, leads_pure]
      constructor
      · rintro ⟨slot, _, ⟨found, rfl⟩, id, _, ⟨rfl, rfl⟩, rfl, rfl⟩
        exact ⟨_, .var found, rfl⟩
      · rintro ⟨_, emits, rfl⟩
        cases emits with
        | @var _ _ slot found => exact ⟨slot, draft, ⟨found, rfl⟩, _, _, ⟨rfl, rfl⟩, rfl, rfl⟩
  | .binary op left right, draft, after, operand => by
      simp only [value, leads_bind, leads_value, leads_emitOperator]
      constructor
      · rintro ⟨_, _, ⟨leftCode, leftEmits, rfl⟩, _, _, ⟨rightCode, rightEmits, rfl⟩, _,
          computable, rfl, rfl⟩
        simp only [Draft.extend_extend]
        exact ⟨_, .binary computable leftEmits rightEmits, rfl⟩
      · rintro ⟨_, emits, rfl⟩
        cases emits with
        | @binary _ _ arithmetic _ _ leftCode rightCode leftOperand rightOperand computable
            leftEmits rightEmits =>
            refine ⟨leftOperand, _, ⟨leftCode, leftEmits, rfl⟩, rightOperand, _,
              ⟨rightCode, rightEmits, rfl⟩, arithmetic, computable, ?_⟩
            simp
  | .call name args, draft, after, operand => by
      simp only [value, leads_bind, leads_callee, leads_arguments, leads_emitCall]
      constructor
      · rintro ⟨profile, _, ⟨declared, count, rfl⟩, operands, _, ⟨code, arguments, rfl⟩, _, _,
          ⟨rfl, rfl⟩, result⟩
        by_cases nothing : profile.returns = []
        · simp [nothing] at result
        · simp only [nothing, if_false, leads_pure] at result
          obtain ⟨rfl, rfl⟩ := result
          exact ⟨_, .call declared count nothing arguments, by simp⟩
      · rintro ⟨_, emits, rfl⟩
        cases emits with
        | @call _ _ _ profile code operands declared count returns arguments =>
            refine ⟨profile, draft, ⟨declared, count, rfl⟩, operands, _, ⟨code, arguments, rfl⟩,
              _, _, ⟨rfl, rfl⟩, ?_⟩
            simp [returns]
  | .group inner, draft, after, operand => by
      rw [value, leads_value]
      constructor
      · rintro ⟨code, emits, reached⟩
        exact ⟨code, .group emits, reached⟩
      · rintro ⟨code, emits, reached⟩
        cases emits with
        | group emits => exact ⟨code, emits, reached⟩
  | .assign _ _, _, _, _ => by
      simp only [value, not_leads_fail, false_iff]
      rintro ⟨_, ⟨⟩, _⟩
  | .decl _, _, _, _ => by
      simp only [value, not_leads_fail, false_iff]
      rintro ⟨_, ⟨⟩, _⟩
  | .signature _, _, _, _ => by
      simp only [value, not_leads_fail, false_iff]
      rintro ⟨_, ⟨⟩, _⟩
  | .function _ _, _, _, _ => by
      simp only [value, not_leads_fail, false_iff]
      rintro ⟨_, ⟨⟩, _⟩
  | .ret _, _, _, _ => by
      simp only [value, not_leads_fail, false_iff]
      rintro ⟨_, ⟨⟩, _⟩

theorem leads_arguments {name : String} : ∀ {args : List Node} {position : Nat}
    {draft after : Draft} {operands : List Operand},
    (arguments table.around name position args).Leads draft operands after ↔
      ∃ code, Node.EmitsAll table draft args code operands ∧ draft.extend code = after
  | [], position, draft, after, operands => by
      rw [arguments, leads_pure]
      constructor
      · rintro ⟨rfl, rfl⟩
        exact ⟨[], .nil, by simp⟩
      · rintro ⟨_, ⟨⟩, rfl⟩
        simp
  | arg :: rest, position, draft, after, operands => by
      simp only [arguments, leads_bind, leads_inside, leads_value, leads_arguments, leads_pure]
      constructor
      · rintro ⟨_, _, ⟨code, first, rfl⟩, _, _, ⟨more, others, rfl⟩, rfl, rfl⟩
        exact ⟨code ++ more, .cons first others, by simp⟩
      · rintro ⟨_, emits, rfl⟩
        cases emits with
        | @cons _ _ _ code more operand operands first others =>
            exact ⟨operand, _, ⟨code, first, rfl⟩, operands, _, ⟨more, others, rfl⟩, rfl, by simp⟩

end

theorem leads_values {nodes : List Node} {operands : List Operand} :
    (values table.around nodes).Leads draft operands after ↔
      ∃ code, Node.EmitsAll table draft nodes code operands ∧ draft.extend code = after := by
  induction nodes generalizing draft after operands with
  | nil =>
      rw [values, leads_pure]
      constructor
      · rintro ⟨rfl, rfl⟩
        exact ⟨[], .nil, by simp⟩
      · rintro ⟨_, ⟨⟩, rfl⟩
        simp
  | cons node rest ih =>
      simp only [values, leads_bind, leads_value, ih, leads_pure]
      constructor
      · rintro ⟨_, _, ⟨code, first, rfl⟩, _, _, ⟨more, others, rfl⟩, rfl, rfl⟩
        exact ⟨code ++ more, .cons first others, by simp⟩
      · rintro ⟨_, emits, rfl⟩
        cases emits with
        | @cons _ _ _ code more operand operands first others =>
            exact ⟨operand, _, ⟨code, first, rfl⟩, operands, _, ⟨more, others, rfl⟩, rfl, by simp⟩

theorem leads_declaration {declared : Declaration} {slot : Slot} :
    (declaration table.around declared).Leads draft slot after ↔
      Node.EmitsTarget draft (.decl declared) slot after := by
  simp only [declaration, leads_bind, leads_slot?]
  constructor
  · rintro ⟨_, _, ⟨rfl, rfl⟩, reached⟩
    cases unused : draft.slot? declared.name with
    | some slot => simp [unused] at reached
    | none =>
        simp only [unused, Option.isSome_none, Bool.false_eq_true, if_false, leads_bind,
          leads_resolve, leads_allocate] at reached
        obtain ⟨type, _, ⟨known, rfl⟩, rfl, rfl⟩ := reached
        exact .decl unused known
  · intro target
    cases target with
    | @decl _ type unused known =>
        refine ⟨none, draft, ⟨unused, rfl⟩, ?_⟩
        simp [known]

theorem leads_target {assigned : Target} {slot : Slot} :
    (target table.around assigned).Leads draft slot after ↔
      Node.EmitsTarget draft assigned slot after := by
  cases assigned with
  | decl declared => exact leads_declaration
  | var use =>
      simp only [target, leads_slotOf]
      constructor
      · rintro ⟨found, rfl⟩
        exact .var found
      · intro emits
        cases emits with
        | var found => exact ⟨found, rfl⟩

/-- Lowering a statement succeeds exactly as what it emits says. -/
theorem leads_statement {node : Node} {nothing : Unit} :
    (statement table.around node).Leads draft nothing after ↔
      node.EmitsStatement table draft after := by
  cases node with
  | decl declared =>
      simp only [statement, leads_bind, leads_declaration, leads_pure]
      constructor
      · rintro ⟨slot, _, target, _, rfl⟩
        exact .decl target
      · intro emits
        cases emits with
        | @decl _ slot _ target => exact ⟨slot, after, target, trivial, rfl⟩
  | assign assigned value =>
      simp only [statement, leads_bind, leads_target, leads_inside, leads_value, leads_store]
      constructor
      · rintro ⟨slot, middle, target, operand, _, ⟨code, emits, rfl⟩, rfl⟩
        rw [Draft.extend_extend]
        exact .assign target emits
      · intro emits
        cases emits with
        | @assign _ _ slot middle code operand target emits =>
            exact ⟨slot, middle, target, operand, _, ⟨code, emits, rfl⟩, by simp⟩
  | call name args =>
      simp only [statement, call, leads_bind, leads_callee, leads_arguments, leads_emitCall,
        leads_pure]
      constructor
      · rintro ⟨_, _, ⟨profile, _, ⟨declared, count, rfl⟩, operands, _, ⟨code, arguments, rfl⟩,
          _, rfl⟩, _, rfl⟩
        rw [Draft.extend_extend]
        exact .call declared count arguments
      · intro emits
        cases emits with
        | @call _ _ profile code operands declared count arguments =>
            exact ⟨_, _, ⟨profile, draft, ⟨declared, count, rfl⟩, operands, _,
              ⟨code, arguments, rfl⟩, rfl, rfl⟩, trivial, by simp⟩
  | ret nodes =>
      simp only [statement, leads_bind, leads_values, leads_emit, leads_pure]
      constructor
      · rintro ⟨operands, _, ⟨code, emits, rfl⟩, _, _, ⟨_, rfl⟩, _, rfl⟩
        rw [Draft.extend_extend]
        exact .ret emits
      · intro emits
        cases emits with
        | @ret _ code operands emits =>
            exact ⟨operands, _, ⟨code, emits, rfl⟩, _, _, ⟨rfl, rfl⟩, trivial, by simp⟩
  | _ =>
      simp only [statement, not_leads_fail, false_iff]
      rintro ⟨⟩

theorem leads_statements {nodes : List Node} {nothing : Unit} :
    (statements table.around nodes).Leads draft nothing after ↔
      Node.EmitsStatements table draft nodes after := by
  induction nodes generalizing draft with
  | nil =>
      simp only [statements, leads_pure]
      constructor
      · rintro ⟨_, rfl⟩
        exact .nil
      · intro emits
        cases emits with
        | nil => exact ⟨trivial, rfl⟩
  | cons node rest ih =>
      simp only [statements, leads_bind, leads_inside, leads_statement, ih]
      constructor
      · rintro ⟨_, middle, first, others⟩
        exact .cons first others
      · intro emits
        cases emits with
        | cons first others => exact ⟨(), _, first, others⟩

theorem leads_parameters {params : List Parameter} {position : Nat} {nothing : Unit} :
    (parameters table.around position params).Leads draft nothing after ↔
      Node.EmitsParameters draft position params after := by
  induction params generalizing draft position with
  | nil =>
      simp only [parameters, leads_pure]
      constructor
      · rintro ⟨_, rfl⟩
        exact .nil
      · intro emits
        cases emits with
        | nil => exact ⟨trivial, rfl⟩
  | cons param rest ih =>
      simp only [parameters, leads_bind, leads_slot?]
      constructor
      · rintro ⟨_, _, ⟨rfl, rfl⟩, reached⟩
        cases unused : draft.slot? param.name with
        | some slot => simp [unused] at reached
        | none =>
            simp only [unused, Option.isSome_none, Bool.false_eq_true, if_false, leads_bind,
              leads_resolve, leads_allocate, leads_store, ih] at reached
            obtain ⟨type, _, ⟨known, rfl⟩, slot, _, ⟨rfl, rfl⟩, _, _, rfl, others⟩ := reached
            exact .cons unused known others
      · intro emits
        cases emits with
        | @cons _ _ _ _ type _ unused known others =>
            refine ⟨none, draft, ⟨unused, rfl⟩, ?_⟩
            simp only [Option.isSome_none, Bool.false_eq_true, if_false, leads_bind, leads_resolve,
              leads_allocate, leads_store, ih]
            exact ⟨type, draft, ⟨known, rfl⟩, _, _, ⟨rfl, rfl⟩, (), _, rfl, others⟩

/-- Lowering a body succeeds exactly if its parameters and statements emit something. -/
theorem leads_body {params : List Parameter} {nodes : List Node} :
    (body table.around params nodes).Leads draft () after ↔
      ∃ middle, Node.EmitsParameters draft 0 params middle ∧
        Node.EmitsStatements table middle nodes after := by
  simp [body, leads_parameters, leads_statements]

end Emission

end Tuplet
