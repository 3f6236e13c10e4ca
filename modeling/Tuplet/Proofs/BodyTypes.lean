import Tuplet.Proofs.BodyOrder

/-!
# The types in a body

Verification finds the types of operands by searching the finished function for
ids. Statements are typed by the names in scope. The two agree: the types of the
parts of what a node emits agree exactly if the node is well typed, whatever is
emitted behind it. What has to be known of the finished function is only that
it contains what has been emitted, and that no id occurs twice in it.
-/

namespace Tuplet

open Ir (Function Instruction Module Operand Slot ValueType)

namespace Draft

/-- The names in scope behind a draft, and the types of their slots. -/
def names (draft : Draft) : Names := draft.slots.reverse.map fun slot => (slot.1, slot.2.type)

/-- A draft is what another one starts with. -/
def Within (draft whole : Draft) : Prop := ∃ rest, whole = draft ++ rest

/-- A function of a module has a draft as its body, and the functions of a table can be called. -/
structure Makes (table : FunctionTable) (module : Module) (function : Function) (whole : Draft) :
    Prop where
  valid : whole.Valid
  code : function.code = whole.instructions
  knows : ∀ name profile, table.profile? name = some profile →
    ∃ target, module.get? name = some target ∧ profile.Fits target

variable {draft whole : Draft} {table : FunctionTable} {module : Module} {function : Function}

@[simp] theorem names_empty : empty.names = [] := rfl

@[simp] theorem names_extend (code : List Instruction) :
    (draft.extend code).names = draft.names := by simp [names]

@[simp] theorem names_allocate (name : String) (type : ValueType) :
    (draft.allocate name type).names = (name, type) :: draft.names := by simp [names]

theorem lookup_names (draft : Draft) (name : String) :
    draft.names.lookup name = (draft.slot? name).map (·.type) := by
  unfold names slot?
  induction draft.slots.reverse with
  | nil => rfl
  | cons slot rest ih =>
      obtain ⟨key, slot⟩ := slot
      by_cases same : name = key
      · simp [same]
      · simp [Lookup.lookup_cons_of_ne same, ih]

theorem Within.of_extend {code : List Instruction} (within : (draft.extend code).Within whole) :
    draft.Within whole := by
  obtain ⟨rest, rfl⟩ := within
  exact ⟨ofCode code ++ rest, by rw [extend, append_assoc]⟩

theorem Within.of_allocate {name : String} {type : ValueType}
    (within : (draft.allocate name type).Within whole) : draft.Within whole := by
  obtain ⟨rest, rfl⟩ := within
  exact ⟨_, append_assoc _ _ _⟩

theorem Makes.instruction? {instruction : Instruction}
    (makes : whole.Makes table module function) (within : draft.Within whole)
    (member : instruction ∈ draft.instructions) :
    function.instruction? instruction.id = some instruction := by
  apply Function.instruction?_of_mem
  · rw [makes.code]
    exact makes.valid.distinct
  · obtain ⟨rest, rfl⟩ := within
    rw [makes.code]
    simp only [instructions, slots_append, code_append, List.map_append, List.mem_append]
      at member ⊢
    exact member.imp .inl .inl

theorem Makes.slotType? {name : String} {slot : Slot} (makes : whole.Makes table module function)
    (within : draft.Within whole) (found : draft.slot? name = some slot) :
    function.slotType? (.instr slot.id) = some slot.type := by
  have present : function.instruction? slot.id = some (slotInstruction (name, slot)) :=
    makes.instruction? within (mem_of_slot? found)
  simp [Function.slotType?, present, slotInstruction]

theorem Makes.length_code (makes : whole.Makes table module function)
    (within : draft.Within whole) : draft.next ≤ function.code.length := by
  obtain ⟨rest, rfl⟩ := within
  rw [makes.code]
  simp only [instructions, next, slots_append, code_append, List.length_append, List.length_map]
  omega

/-- The type of what an instruction evaluates to can be read off the instruction. -/
theorem Makes.typeOf?_emitted {name : String} {action : Ir.Action}
    (makes : whole.Makes table module function)
    (within : (draft.extend [⟨draft.next, name, action⟩]).Within whole)
    (direct : ∀ operand index, action ≠ .extract operand index) :
    module.typeOf? function (.instr draft.next) =
      module.resultType (module.typeOf? function) action := by
  have member : (⟨draft.next, name, action⟩ : Instruction) ∈
      (draft.extend [⟨draft.next, name, action⟩]).instructions := by simp [instructions]
  have present : function.instruction? draft.next = some ⟨draft.next, name, action⟩ :=
    makes.instruction? within member
  obtain ⟨depth, depthEq⟩ : ∃ depth, function.code.length = depth + 1 := by
    have := makes.length_code within
    rw [next_extend, List.length_singleton] at this
    exact ⟨function.code.length - 1, by omega⟩
  rw [Module.typeOf?, depthEq, Module.typeWithin_instr, present, Option.bind_some]
  cases action with
  | extract operand index => exact absurd rfl (direct operand index)
  | _ => rfl

/-- The first value of a call has the first type that the function returns. -/
theorem Makes.typeOf?_callCode {profile : Profile} {name : String} {args : List Operand}
    {type : ValueType} {others : List ValueType} (makes : whole.Makes table module function)
    (within : (draft.extend (callCode profile draft.next name args)).Within whole)
    (declared : table.profile? name = some profile) (returns : profile.returns = type :: others) :
    module.typeOf? function (.instr draft.next) = some (.struct (type :: others)) ∧
      module.typeOf? function (.instr (draft.next + 1)) = some type := by
  obtain ⟨target, found, fits⟩ := makes.knows name profile declared
  have targetReturns : target.returns = .struct (type :: others) := by
    rw [fits.returns, returns]
    rfl
  have split : callCode profile draft.next name args =
      [⟨draft.next, name, .call name args⟩,
        ⟨draft.next + 1, "", .extract (.instr draft.next) 0⟩] := by
    simp [callCode, returns]
  have result (typeOf : Operand → Option ValueType) :
      module.resultType typeOf (.call name args) = some (.struct (type :: others)) := by
    simp [Module.resultType, found, targetReturns]
  have found? : ∀ instruction ∈ callCode profile draft.next name args,
      function.instruction? instruction.id = some instruction := by
    intro instruction member
    exact makes.instruction? within (by simp [instructions, member])
  simp only [split, List.forall_mem_cons, List.not_mem_nil, false_imp_iff, implies_true,
    and_true] at found?
  -- The type of the extraction is that of the call, which is looked for one step deeper.
  obtain ⟨depth, depthEq⟩ : ∃ depth, function.code.length = depth + 1 + 1 := by
    have := makes.length_code within
    rw [next_extend, split, List.length_cons, List.length_singleton] at this
    exact ⟨function.code.length - 2, by omega⟩
  have called (depth : Nat) : module.typeWithin function (depth + 1) (.instr draft.next) =
      some (.struct (type :: others)) := by
    rw [Module.typeWithin_instr, found?.1, Option.bind_some, result]
  refine ⟨by rw [Module.typeOf?, depthEq, called], ?_⟩
  rw [Module.typeOf?, depthEq, Module.typeWithin_instr, found?.2, Option.bind_some]
  simp [Module.resultType, called]

/-- The types in a call agree exactly if the arguments have the types of the parameters. -/
theorem Makes.allAgree_callCode {profile : Profile} {name : String} {args : List Operand}
    (makes : whole.Makes table module function)
    (within : (draft.extend (callCode profile draft.next name args)).Within whole)
    (declared : table.profile? name = some profile) :
    module.AllAgree function (callCode profile draft.next name args) ↔
      args.map (module.typeOf? function) = profile.params.map some := by
  obtain ⟨target, found, fits⟩ := makes.knows name profile declared
  have called : module.TypesAgree function (.call name args) ↔
      args.map (module.typeOf? function) = profile.params.map some := by
    simp [Module.TypesAgree, found, ← fits.params]
  cases returns : profile.returns with
  | nil => simp [callCode, returns, called]
  | cons type others =>
      have typed := (makes.typeOf?_callCode within declared returns).1
      have extracted : module.TypesAgree function (.extract (.instr draft.next) 0) := by
        simp [Module.TypesAgree, typed]
      simp [callCode, returns, called, extracted]

end Draft

theorem Operator.arithmetic?_isSome_iff (op : Operator) :
    op.arithmetic?.isSome = true ↔ op ≠ .exp ∧ op ≠ .root := by
  cases op <;> simp [Operator.arithmetic?]

theorem FunctionTable.profile?_eq_some_iff {table : FunctionTable} {name : String}
    {profile : Profile} :
    table.profile? name = some profile ↔
      ∃ known, table.known? name = some known ∧ known.toProfile = profile := by
  simp [FunctionTable.profile?]

namespace Node

variable {table : FunctionTable} {module : Module} {function : Function} {whole : Draft}

mutual

/-- The types in what a node emits agree exactly if the node is well typed. -/
theorem Emits.typed_iff (makes : whole.Makes table module function) :
    ∀ {node : Node} {draft : Draft} {code : List Instruction} {operand : Operand},
      node.Emits table draft code operand → (draft.extend code).Within whole →
        ∀ type : ValueType,
          module.AllAgree function code ∧ module.typeOf? function operand = some type ↔
            node.HasType table draft.names type
  | .literal _, _, _, _, .literal _, _, _ => by
      simp [hasType_literal_iff, eq_comm]
  | .var use, draft, _, _, .var found, within, _ => by
      have slotType := makes.slotType? within.of_extend found
      have typed := makes.typeOf?_emitted within (by simp)
      simp [hasType_var_iff, Draft.lookup_names, found, typed, slotType, Module.TypesAgree,
        Module.resultType]
  | .binary op _ _, draft, _, _, .binary computable leftEmits rightEmits, within, type => by
      rw [← Draft.extend_extend] at within
      have typed := makes.typeOf?_emitted within (by simp)
      rw [← Draft.extend_extend] at within
      have left := leftEmits.typed_iff makes within.of_extend.of_extend .int32
      have right := rightEmits.typed_iff makes within.of_extend .int32
      rw [Draft.names_extend] at right
      have supported : op ≠ .exp ∧ op ≠ .root := by
        simp [← op.arithmetic?_isSome_iff, computable]
      rw [hasType_binary_iff, ← left, ← right, typed]
      simp only [Module.allAgree_append, Module.allAgree_cons, Module.TypesAgree,
        Module.resultType, Option.some.injEq, Module.allAgree_nil, and_iff_right supported]
      tauto
  | .call _ _, _, _, _, .call declared _ returns arguments, within, type => by
      rw [← Draft.extend_extend] at within
      obtain ⟨known, found, rfl⟩ := FunctionTable.profile?_eq_some_iff.mp declared
      obtain ⟨first, others, returnsEq⟩ := List.exists_cons_of_ne_nil returns
      have args := arguments.typed_iff makes within.of_extend known.params
      have typed := (makes.typeOf?_callCode within declared returnsEq).2
      rw [hasType_call_iff, Module.allAgree_append, makes.allAgree_callCode within declared, args,
        typed]
      simp [found, returnsEq]
  | .group _, _, _, _, .group emits, within, type => by
      rw [hasType_group_iff]
      exact emits.typed_iff makes within type

theorem EmitsAll.typed_iff (makes : whole.Makes table module function) :
    ∀ {nodes : List Node} {draft : Draft} {code : List Instruction} {operands : List Operand},
      EmitsAll table draft nodes code operands → (draft.extend code).Within whole →
        ∀ types : List ValueType,
          module.AllAgree function code ∧
              operands.map (module.typeOf? function) = types.map some ↔
            HaveTypes table draft.names nodes types
  | [], _, _, _, .nil, _, types => by
      cases types with
      | nil => simpa using HaveTypes.nil
      | cons type types =>
          simp only [Module.allAgree_nil, true_and, List.map_nil, List.map_cons, reduceCtorEq,
            false_iff]
          rintro ⟨⟩
  | _ :: _, _, _, _, .cons first rest, within, types => by
      rw [← Draft.extend_extend] at within
      rw [haveTypes_cons_iff]
      cases types with
      | nil => simp
      | cons type types =>
          have head := first.typed_iff makes within.of_extend type
          have tail := rest.typed_iff makes within types
          rw [Draft.names_extend] at tail
          simp only [Module.allAgree_append, List.map_cons, List.cons.injEq]
          constructor
          · rintro ⟨⟨agree, restAgree⟩, typed, restTyped⟩
            exact ⟨type, types, ⟨rfl, rfl⟩, head.mp ⟨agree, typed⟩,
              tail.mp ⟨restAgree, restTyped⟩⟩
          · rintro ⟨_, _, ⟨rfl, rfl⟩, typed, restTyped⟩
            obtain ⟨agree, typed⟩ := head.mpr typed
            obtain ⟨restAgree, restTyped⟩ := tail.mpr restTyped
            exact ⟨⟨agree, restAgree⟩, typed, restTyped⟩

end

variable {draft after : Draft}

/-- A target is assigned to exactly with the type of its slot. -/
theorem EmitsTarget.assigns_iff {assigned : Target} {slot : Slot} {type : ValueType}
    {names : Names} (emits : EmitsTarget draft assigned slot after) :
    Assigns draft.names assigned type names ↔ type = slot.type ∧ names = after.names := by
  cases emits with
  | @var use slot found =>
      have declared := draft.lookup_names use.name
      rw [found, Option.map_some] at declared
      constructor
      · intro assigns
        cases assigns with
        | var declared' => exact ⟨Option.some.inj (declared'.symm.trans declared), rfl⟩
      · rintro ⟨rfl, rfl⟩
        exact .var declared
  | @decl declared type unused known =>
      have fresh := draft.lookup_names declared.name
      rw [unused, Option.map_none] at fresh
      rw [Draft.names_allocate]
      constructor
      · intro assigns
        cases assigns with
        | decl declares =>
            cases declares with
            | fresh _ known' =>
                obtain rfl := Option.some.inj (known'.symm.trans known)
                exact ⟨rfl, rfl⟩
      · rintro ⟨rfl, rfl⟩
        exact .decl (.fresh fresh known)

theorem EmitsTarget.statement_iff {assigned : Target} {slot : Slot} {value : Node}
    {returns : List ValueType} (emits : EmitsTarget draft assigned slot after) :
    Statement table returns draft.names (.assign assigned value) after.names ↔
      value.HasType table after.names slot.type := by
  constructor
  · intro statement
    cases statement with
    | assign assigns typed =>
        obtain ⟨rfl, _⟩ := emits.assigns_iff.mp assigns
        exact typed
  · intro typed
    exact .assign (emits.assigns_iff.mpr ⟨rfl, rfl⟩) typed

theorem EmitsTarget.slot? {assigned : Target} {slot : Slot}
    (emits : EmitsTarget draft assigned slot after) : ∃ name, after.slot? name = some slot := by
  cases emits with
  | @var use _ found => exact ⟨use.name, found⟩
  | @decl declared _ _ _ => exact ⟨declared.name, by simp [Draft.slot?_allocate]⟩

theorem EmitsTarget.within {assigned : Target} {slot : Slot}
    (emits : EmitsTarget draft assigned slot after) (within : after.Within whole) :
    draft.Within whole := by
  cases emits with
  | var => exact within
  | decl => exact within.of_allocate

/-- A statement leaves the names that are in scope behind what it emits. -/
theorem EmitsStatement.names_eq {node : Node} {returns : List ValueType} {names : Names}
    (emits : node.EmitsStatement table draft after)
    (statement : node.Statement table returns draft.names names) : names = after.names := by
  cases emits with
  | decl target =>
      cases statement with
      | decl declares =>
          cases declares with
          | fresh unused known => exact (target.assigns_iff.mp (.decl (.fresh unused known))).2
  | assign target _ =>
      cases statement with
      | assign assigns _ => simpa using (target.assigns_iff.mp assigns).2
  | call => cases statement; simp
  | ret => cases statement; simp

theorem EmitsStatement.within {node : Node} (emits : node.EmitsStatement table draft after)
    (within : after.Within whole) : draft.Within whole := by
  cases emits with
  | decl target => exact target.within within
  | assign target _ => exact target.within within.of_extend
  | call => exact within.of_extend
  | ret => exact within.of_extend

/-- The types in what a statement emits agree exactly if the statement is well typed. -/
theorem EmitsStatement.typed_iff {node : Node} {profile : Profile}
    (makes : whole.Makes table module function) (fits : profile.Fits function)
    (emits : node.EmitsStatement table draft after) (within : after.Within whole) :
    module.AllAgree function after.code ↔
      module.AllAgree function draft.code ∧
        node.Statement table profile.returns draft.names after.names := by
  cases emits with
  | decl target =>
      rw [target.code_eq, iff_self_and]
      intro _
      have assigns := target.assigns_iff.mpr ⟨rfl, rfl⟩
      generalize after.names = names at assigns
      cases assigns with
      | decl declares => exact .decl declares
  | @assign assigned value slot middle code operand target emits =>
      rw [← Draft.extend_extend] at within
      obtain ⟨name, found⟩ := target.slot?
      have slotType := makes.slotType? within.of_extend.of_extend found
      have store : module.TypesAgree function (.store operand (.instr slot.id)) ↔
          module.typeOf? function operand = some slot.type := by
        simp [Module.TypesAgree, slotType]
      rw [Draft.names_extend, target.statement_iff,
        ← emits.typed_iff makes within.of_extend slot.type]
      simp [target.code_eq, store]
  | @call name args profile code operands declared count arguments =>
      rw [← Draft.extend_extend] at within
      obtain ⟨known, found, rfl⟩ := FunctionTable.profile?_eq_some_iff.mp declared
      rw [Draft.names_extend, statement_call_iff found,
        ← arguments.typed_iff makes within.of_extend known.params, Draft.code_extend,
        Module.allAgree_append, Module.allAgree_append, makes.allAgree_callCode within declared]
  | @ret values code operands emits =>
      rw [← Draft.extend_extend] at within
      rw [Draft.names_extend, statement_ret_iff,
        ← emits.typed_iff makes within.of_extend profile.returns]
      simp [Module.typesAgree_ret_iff fits]

theorem EmitsStatements.within {nodes : List Node}
    (emits : EmitsStatements table draft nodes after) (within : after.Within whole) :
    draft.Within whole := by
  induction emits with
  | nil => exact within
  | cons first _ ih => exact first.within (ih within)

theorem EmitsStatements.typed_iff {nodes : List Node} {profile : Profile}
    (makes : whole.Makes table module function) (fits : profile.Fits function)
    (emits : EmitsStatements table draft nodes after) (within : after.Within whole) :
    module.AllAgree function after.code ↔
      module.AllAgree function draft.code ∧
        Statements table profile.returns draft.names nodes := by
  induction emits with
  | nil => simpa using fun _ => Statements.nil
  | @cons draft middle after node rest first others ih =>
      rw [ih within, first.typed_iff makes fits (others.within within)]
      constructor
      · rintro ⟨⟨agree, statement⟩, statements⟩
        exact ⟨agree, .cons statement statements⟩
      · rintro ⟨agree, statements⟩
        cases statements with
        | cons statement statements =>
            obtain rfl := first.names_eq statement
            exact ⟨⟨agree, statement⟩, statements⟩

theorem EmitsParameters.within {position : Nat} {params : List Parameter}
    (emits : EmitsParameters draft position params after) (within : after.Within whole) :
    draft.Within whole := by
  induction emits with
  | nil => exact within
  | cons _ _ _ ih => exact (ih within).of_extend.of_allocate

/-- The types in what parameters emit agree exactly if the parameters have the known types. -/
theorem EmitsParameters.typed_iff {position : Nat} {params : List Parameter}
    {profile : Profile} {types : List ValueType} (makes : whole.Makes table module function)
    (fits : profile.Fits function) (emits : EmitsParameters draft position params after)
    (remaining : profile.params.drop position = types) (count : types.length = params.length)
    (within : after.Within whole) :
    module.AllAgree function after.code ↔
      module.AllAgree function draft.code ∧
        params.map (scalar? ·.type) = types.map some := by
  induction emits generalizing types with
  | nil => simp [List.length_eq_zero_iff.mp count]
  | @cons draft after position param type rest unused known others ih =>
      obtain ⟨first, types, rfl⟩ := List.exists_cons_of_length_eq_add_one count
      have here : profile.params[position]? = some first := by
        rw [← List.head?_drop, remaining]
        rfl
      have behind : profile.params.drop (position + 1) = types := by
        rw [← List.tail_drop, remaining]
        rfl
      have paramType : module.typeOf? function (.param position) = some first := by
        rw [Module.typeOf?_param, ← List.getElem?_map, fits.params, here]
      have slotType : function.slotType? (.instr draft.next) = some type :=
        makes.slotType? (others.within within).of_extend
          (show (draft.allocate param.name type).slot? param.name = some ⟨draft.next, type⟩ by
            simp [Draft.slot?_allocate])
      have store : module.TypesAgree function (.store (.param position) (.instr draft.next)) ↔
          type = first := by
        simp [Module.TypesAgree, slotType, paramType, eq_comm]
      rw [ih behind (by simpa using count) within]
      simp [store, known, and_assoc]

theorem EmitsParameters.names_eq {position : Nat} {params : List Parameter}
    {types : List ValueType} (emits : EmitsParameters draft position params after)
    (typed : params.map (scalar? ·.type) = types.map some) :
    after.names = ((params.map (·.name)).zip types).reverse ++ draft.names := by
  induction emits generalizing types with
  | nil => simp
  | @cons draft after position param type rest unused known others ih =>
      cases types with
      | nil => simp at typed
      | cons first types =>
          simp only [List.map_cons, known, List.cons.injEq, Option.some.injEq] at typed
          obtain ⟨rfl, typed⟩ := typed
          simp [ih typed]

end Node

end Tuplet
