import Tuplet.Proofs.BodyEnd
import Tuplet.Proofs.BodyTypes

/-!
# Lowering accepts exactly the well-formed items

An item that is not well-formed can be rejected in two places: while its body is
lowered, because of names, operators and numbers of arguments, and afterwards by
verification, because of types and returns. Together they reject nothing else.
Whatever is well typed can be lowered, and for what could be lowered,
verification comes down to typing and the place of the return.
-/

namespace Tuplet

open Ir (Function Instruction Module Operand Slot ValueType)

namespace Node

variable {table : FunctionTable} {draft : Draft}

theorem HaveTypes.length_eq : ∀ {names : Names} {nodes : List Node} {types : List ValueType},
    HaveTypes table names nodes types → nodes.length = types.length
  | _, [], _, .nil => rfl
  | _, _ :: _, _, .cons _ rest => by simp [rest.length_eq]

mutual

/-- Whatever has a type can be lowered. -/
theorem HasType.emits : ∀ {node : Node} {draft : Draft} {type : ValueType},
    node.HasType table draft.names type → ∃ code operand, node.Emits table draft code operand
  | .literal value, _, _, .literal _ => ⟨[], .const value, .literal value⟩
  | .var use, draft, _, .var declared => by
      rw [draft.lookup_names, Option.map_eq_some_iff] at declared
      obtain ⟨slot, found, _⟩ := declared
      exact ⟨_, _, .var found⟩
  | .binary op _ _, draft, _, .binary computable leftInt rightInt => by
      obtain ⟨leftCode, _, leftEmits⟩ := leftInt.emits
      rw [← draft.names_extend leftCode] at rightInt
      obtain ⟨_, _, rightEmits⟩ := rightInt.emits
      obtain ⟨_, arithmetic⟩ :=
        Option.isSome_iff_exists.mp (op.arithmetic?_isSome_iff.mpr computable)
      exact ⟨_, _, .binary arithmetic leftEmits rightEmits⟩
  | .call _ _, _, _, .call declared arguments returns => by
      obtain ⟨_, _, emits⟩ := arguments.emits
      have profile := FunctionTable.profile?_eq_some_iff.mpr ⟨_, declared, rfl⟩
      exact ⟨_, _, .call profile arguments.length_eq.symm (by simp [returns]) emits⟩
  | .group _, _, _, .group typed => by
      obtain ⟨code, operand, emits⟩ := typed.emits
      exact ⟨code, operand, .group emits⟩

theorem HaveTypes.emits : ∀ {nodes : List Node} {draft : Draft} {types : List ValueType},
    HaveTypes table draft.names nodes types →
      ∃ code operands, EmitsAll table draft nodes code operands
  | [], _, _, .nil => ⟨[], [], .nil⟩
  | _ :: _, draft, _, .cons first rest => by
      obtain ⟨code, _, firstEmits⟩ := first.emits
      rw [← draft.names_extend code] at rest
      obtain ⟨_, _, restEmits⟩ := rest.emits
      exact ⟨_, _, .cons firstEmits restEmits⟩

end

theorem Assigns.emits {assigned : Target} {type : ValueType} {names : Names}
    (assigns : Assigns draft.names assigned type names) :
    ∃ slot after, EmitsTarget draft assigned slot after := by
  cases assigns with
  | @var use _ declared =>
      rw [draft.lookup_names, Option.map_eq_some_iff] at declared
      obtain ⟨slot, found, _⟩ := declared
      exact ⟨slot, draft, .var found⟩
  | @decl declared _ declares =>
      cases declares with
      | fresh unused known =>
          rw [draft.lookup_names, Option.map_eq_none_iff] at unused
          exact ⟨_, _, .decl unused known⟩

theorem Statement.emits {node : Node} {returns : List ValueType} {names : Names}
    (statement : node.Statement table returns draft.names names) :
    ∃ after, node.EmitsStatement table draft after := by
  cases statement with
  | @decl declared _ declares =>
      cases declares with
      | fresh unused known =>
          obtain ⟨slot, after, target⟩ := Assigns.emits (.decl (.fresh unused known))
          exact ⟨after, .decl target⟩
  | assign assigns typed =>
      obtain ⟨slot, after, target⟩ := assigns.emits
      obtain ⟨rfl, rfl⟩ := target.assigns_iff.mp assigns
      obtain ⟨_, _, emits⟩ := typed.emits
      exact ⟨_, .assign target emits⟩
  | call declared arguments =>
      obtain ⟨_, _, emits⟩ := arguments.emits
      have profile := FunctionTable.profile?_eq_some_iff.mpr ⟨_, declared, rfl⟩
      exact ⟨_, .call profile arguments.length_eq.symm emits⟩
  | ret typed =>
      obtain ⟨_, _, emits⟩ := typed.emits
      exact ⟨_, .ret emits⟩

theorem Statements.emits {nodes : List Node} {returns : List ValueType} {names : Names}
    (statements : Statements table returns names nodes) {draft : Draft}
    (inScope : draft.names = names) : ∃ after, EmitsStatements table draft nodes after := by
  induction statements generalizing draft with
  | nil => exact ⟨draft, .nil⟩
  | cons first _ ih =>
      subst inScope
      obtain ⟨middle, firstEmits⟩ := first.emits
      obtain ⟨after, othersEmit⟩ := ih (firstEmits.names_eq first).symm
      exact ⟨after, .cons firstEmits othersEmit⟩

/-- Parameters can be lowered exactly if their names are new and their types are known. -/
theorem exists_emitsParameters_iff {params : List Parameter} {position : Nat} :
    (∃ after, EmitsParameters draft position params after) ↔
      (params.map (·.name)).Nodup ∧ ∀ param ∈ params,
        draft.slot? param.name = none ∧ (scalar? param.type).isSome = true := by
  induction params generalizing draft position with
  | nil => simpa using ⟨draft, EmitsParameters.nil⟩
  | cons param rest ih =>
      have behind (type : ValueType) (other : Parameter) :
          (draft.allocate param.name type).slot? other.name = none ↔
            other.name ≠ param.name ∧ draft.slot? other.name = none := by
        rw [Draft.slot?_allocate]
        split <;> simp_all
      simp only [List.map_cons, List.nodup_cons, List.mem_map, List.forall_mem_cons]
      constructor
      · rintro ⟨after, emits⟩
        cases emits with
        | cons unused known others =>
            obtain ⟨distinct, usable⟩ := ih.mp ⟨after, others⟩
            simp only [Draft.slot?_extend, behind] at usable
            refine ⟨⟨?_, distinct⟩, ⟨unused, by simp [known]⟩, ?_⟩
            · rintro ⟨other, member, same⟩
              exact (usable other member).1.1 same
            · intro other member
              exact ⟨(usable other member).1.2, (usable other member).2⟩
      · rintro ⟨⟨unrepeated, distinct⟩, ⟨unused, known⟩, usable⟩
        obtain ⟨type, known⟩ := Option.isSome_iff_exists.mp known
        have restUsable : ∀ other ∈ rest,
            (draft.allocate param.name type).slot? other.name = none ∧
              (scalar? other.type).isSome = true := by
          intro other member
          exact ⟨(behind type other).mpr ⟨fun same => unrepeated ⟨other, member, same⟩,
            (usable other member).1⟩, (usable other member).2⟩
        refine (ih.mpr ⟨distinct, ?_⟩).imp fun after others => .cons unused known others
        simpa using restUsable

end Node

theorem Draft.Sequential.finished {function : Function} {draft : Draft}
    (sequential : draft.Sequential function) (header : Signature) :
    (draft.finished header).Sequential function := by
  unfold Draft.finished
  split
  · exact sequential.emit (by simp [Ir.Action.operands])
  · exact sequential

theorem Draft.within_finished (draft : Draft) (header : Signature) :
    draft.Within (draft.finished header) := by
  unfold Draft.finished
  split
  · exact ⟨_, rfl⟩
  · exact ⟨.empty, by simp⟩

namespace FunctionTable.Ready

variable {table : FunctionTable} {state : LoweringState} {header : Signature} {known : Known}
  {index : Nat} {function : Function}

theorem knows (ready : table.Ready state header known index function) (draft : Draft)
    (name : String) (profile : Profile) (declared : table.profile? name = some profile) :
    ∃ target, (ready.site.closed draft).builder.module.get? name = some target ∧
      profile.Fits target := by
  obtain ⟨index, target, index?, found, named, fits⟩ :=
    (ready.among.state draft).known name profile declared
  exact ⟨target, Lookup.find?_of_findIdx? index? found, fits⟩

theorem makes (ready : table.Ready state header known index function) {draft : Draft}
    (valid : draft.Valid) :
    draft.Makes table (ready.site.closed draft).builder.module (draft.fill function) :=
  ⟨valid, by simp [Function.code, Draft.fill], ready.knows draft⟩

/-- A body that could be lowered is verified exactly if it is well-formed. -/
theorem verify_iff (ready : table.Ready state header known index function)
    {middle draft : Draft} {body : List Node}
    (params : Node.EmitsParameters .empty 0 header.params middle)
    (statements : Node.EmitsStatements table middle body draft) :
    (ready.site.closed (draft.finished header)).builder.module.verify
        ((draft.finished header).fill function) = .ok () ↔
      Node.IsBody table header known body := by
  have sequential : (draft.finished header).Sequential ((draft.finished header).fill function) :=
    (statements.sequential (params.sequential (by simp [Draft.fill, ready.paramCount])
      Draft.sequential_empty)).finished header
  have makes := ready.makes sequential.valid
  have fits : known.toProfile.Fits ((draft.finished header).fill function) :=
    ⟨ready.function?.fits.params, ready.function?.fits.returns⟩
  have within := draft.within_finished header
  have startQuiet : Quiet middle.code := params.quiet (by simp)
  -- Ids and their order are always right, so that only the end and the types can be wrong.
  rw [sequential.verify_fill_iff, Draft.finished_iff fits startQuiet statements,
    statements.typed_iff makes fits within,
    params.typed_iff makes fits (by simp) ready.count (statements.within within)]
  have distinct := (Node.exists_emitsParameters_iff.mp ⟨middle, params⟩).1
  have inScope (paramTypes : header.params.map (scalar? ·.type) = known.params.map some) :
      middle.names = ((header.params.map (·.name)).zip known.params).reverse := by
    simpa using params.names_eq paramTypes
  constructor
  · rintro ⟨⟨⟨_, paramTypes⟩, typed⟩, ended, returns⟩
    exact ⟨distinct, paramTypes, inScope paramTypes ▸ typed, ended, returns⟩
  · rintro ⟨_, paramTypes, typed, ended, returns⟩
    exact ⟨⟨⟨by simp, paramTypes⟩, inScope paramTypes ▸ typed⟩, ended, returns⟩

theorem exists_emits (body : List Node) (isBody : Node.IsBody table header known body) :
    ∃ middle draft, Node.EmitsParameters .empty 0 header.params middle ∧
      Node.EmitsStatements table middle body draft := by
  have usable : ∀ param ∈ header.params,
      Draft.empty.slot? param.name = none ∧ (scalar? param.type).isSome = true := by
    intro param member
    refine ⟨rfl, ?_⟩
    have typed : scalar? param.type ∈ known.params.map some := by
      rw [← isBody.paramTypes]
      exact List.mem_map_of_mem member
    obtain ⟨type, _, found⟩ := List.mem_map.mp typed
    simp [← found]
  obtain ⟨middle, params⟩ : ∃ middle, Node.EmitsParameters .empty 0 header.params middle :=
    Node.exists_emitsParameters_iff.mpr ⟨isBody.params, usable⟩
  have inScope : middle.names = ((header.params.map (·.name)).zip known.params).reverse := by
    simpa using params.names_eq isBody.paramTypes
  obtain ⟨draft, statements⟩ := isBody.statements.emits inScope
  exact ⟨middle, draft, params, statements⟩

/-- A function that is ready for its body is lowered exactly if the body is well-formed. -/
theorem completing_ok_iff (ready : table.Ready state header known index function)
    (body : List Node) :
    (∃ index after, ready.site.completing header
        (Emission.body table.around header.params body .empty) = .ok index after) ↔
      Node.IsBody table header known body := by
  constructor
  · rintro ⟨_, _, completed⟩
    obtain ⟨draft, lowered, verified, _⟩ := Site.completing_eq_ok_iff.mp completed
    obtain ⟨middle, params, statements⟩ :=
      Emission.leads_body.mp (Emission.leads_empty_iff.mpr lowered)
    exact (ready.verify_iff params statements).mp verified
  · intro isBody
    obtain ⟨middle, draft, params, statements⟩ := exists_emits body isBody
    have lowered := Emission.leads_empty_iff.mp
      (Emission.leads_body.mpr ⟨middle, params, statements⟩)
    have verified := (ready.verify_iff params statements).mpr isBody
    exact ⟨_, _, Site.completing_eq_ok_iff.mpr ⟨draft, lowered, verified, rfl, rfl⟩⟩

end FunctionTable.Ready

namespace Lowering

variable {table : FunctionTable} {state : LoweringState}

theorem inside_eq_ok_iff {context : LoweringContext} {step : Lowering Nat} {index : Nat}
    {after : LoweringState} :
    inside context step state = .ok index after ↔ step state = .ok index after := by
  cases stepped : step state with
  | ok value left => rw [inside_of_ok stepped]
  | error error left => simp [inside, telling_of_error stepped]

/-- An item is lowered exactly if it is well-formed in the table that describes the state. -/
theorem item_ok_iff (describes : table.Describes state) (node : Node) :
    (∃ index after, item node state = .ok index after) ↔ node.WellFormed table := by
  cases node with
  | signature header =>
      simp only [item, Result.get_bind, Node.WellFormed]
      rcases Known.lookup_cases describes.functions header.name with
        ⟨unknown, notFound⟩ | ⟨known, index, _, found, index?, _⟩
      · have missing : state.builder.module.index? header.name = none := notFound
        simp only [missing, unknown, Option.isSome_none, Bool.false_eq_true, false_or]
        rcases signature_cases missing with
          ⟨wellFormed, function, _, declared⟩ | ⟨illFormed, failure, failed⟩
        · simp [declared, wellFormed]
        · simp [failed, illFormed]
      · have present : state.builder.module.index? header.name = some index := index?
        simp [present, found]
  | function header body =>
      simp only [item, inside_eq_ok_iff, Node.WellFormed]
      rcases function_cases describes header body with
        ⟨opens, known, _, _, _, _, ready, lowered⟩ | ⟨closed, failure, failed⟩
      · rw [lowered, ready.completing_ok_iff body]
        simp [opens, ready.known?]
      · simp [failed, closed]
  | _ => simp [item, Node.WellFormed, fail]

theorem getElem?_items (state : LoweringState) (before : List Node) (node : Node)
    (rest : List Node) :
    (items state (before ++ node :: rest)).1[before.length]? =
      some (outcome (item node (items state before).2)) := by
  rw [results_append, results_cons, ← length_results state before]
  simp

theorem describes_new (moduleName : String) :
    FunctionTable.Describes [] (LoweringState.new (.new moduleName)) :=
  ⟨.nil, by simp, rfl, rfl⟩

/--
Of any items that are lowered in order, an item succeeds exactly if it is
well-formed after the items before it, whatever became of those.
-/
theorem succeeds_iff_wellFormed (moduleName : String) (before : List Node) (node : Node)
    (rest : List Node) :
    (∃ index, (items (.new (.new moduleName)) (before ++ node :: rest)).1[before.length]? =
        some (.ok index)) ↔
      node.WellFormed (before.foldl FunctionTable.after []) := by
  rw [getElem?_items, ← item_ok_iff (describes_items (describes_new moduleName) before)]
  cases item node (items (.new (.new moduleName)) before).2 <;> simp [outcome]

end Lowering

end Tuplet
