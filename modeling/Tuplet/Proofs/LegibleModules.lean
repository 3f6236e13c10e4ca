import Tuplet.Compile
import Tuplet.Proofs.BodyGrowth
import Tuplet.Proofs.Isolation
import Tuplet.Proofs.SourceTrees

/-!
# What is in a module that was compiled

Modules in general may hold anything. In a module that was compiled from a source, everything that
is named has a name of the language, parameters of one function have different names, and an
instruction works on no parameter that is not there. A function has no body, or one block of which
a draft says all there is. None of this depends on whether the source compiles: what has been
added to a module before something fails stays there.

A body is lowered as its emission says, so it is enough to look at what emissions add to drafts.
-/

namespace Tuplet

open Ir (Action Function Instruction Operand)

namespace Ir

/-- The operand is not a parameter beyond the first ones. -/
def Operand.Within (count : Nat) (operand : Operand) : Prop :=
  ∀ index, operand = .param index → index < count

@[simp]
theorem Operand.within_const (count : Nat) (value : Int32) : (const value).Within count := by
  simp [Within]

@[simp]
theorem Operand.within_instr (count id : Nat) : (instr id).Within count := by
  simp [Within]

@[simp]
theorem Operand.within_param {count index : Nat} : (param index).Within count ↔ index < count := by
  simp [Within]

/-- An action calls a function by a name, and works on parameters that are there. -/
structure Action.Legible (count : Nat) (action : Action) : Prop where
  callee : ∀ name args, action = .call name args → isValidName name = true
  within : ∀ operand ∈ action.operands, operand.Within count

/-- An instruction has no name or a valid one, and so has what it calls. -/
structure Instruction.Legible (count : Nat) (instruction : Instruction) : Prop
    extends instruction.action.Legible count where
  named : instruction.name = "" ∨ isValidName instruction.name = true

end Ir

namespace Draft

/-- A draft is in order, and all its instructions are legible. -/
structure Legible (count : Nat) (draft : Draft) : Prop where
  arranged : draft.Arranged 0
  legible : ∀ instruction ∈ draft.instructions, instruction.Legible count

variable {count : Nat} {draft : Draft}

theorem legible_empty (count : Nat) : empty.Legible count :=
  ⟨arranged_empty 0, List.forall_mem_nil _⟩

theorem Legible.emit (legible : draft.Legible count) {name : String} {action : Action}
    (named : name = "" ∨ isValidName name = true) (noSlot : ∀ type, action ≠ .alloca type)
    (readable : action.Legible count) :
    (draft ++ ⟨[], [⟨draft.next, name, action⟩]⟩).Legible count where
  arranged := by simpa using legible.arranged.emit name noSlot
  legible := by
    intro instruction present
    simp only [instructions, slots_append, code_append, List.append_nil, ← List.append_assoc,
      List.mem_append, List.mem_singleton] at present
    rcases present with present | rfl
    · exact legible.legible instruction (List.mem_append.mpr present)
    · exact ⟨readable, named⟩

theorem Legible.allocate (legible : draft.Legible count) {name : String}
    (valid : isValidName name = true) (type : Ir.ValueType)
    (absent : name ∉ draft.slots.map (·.1)) :
    (draft ++ ⟨[(name, ⟨draft.next, type⟩)], []⟩).Legible count where
  arranged := by simpa using legible.arranged.allocate type absent
  legible := by
    intro instruction present
    simp only [instructions, slots_append, code_append, List.append_nil, List.map_append,
      List.map_cons, List.map_nil, List.mem_append, List.mem_singleton] at present
    rcases present with (present | rfl) | present
    · exact legible.legible instruction (List.mem_append_left _ present)
    · exact ⟨⟨by simp [slotInstruction], by simp [slotInstruction, Action.operands]⟩, .inr valid⟩
    · exact legible.legible instruction (List.mem_append_right _ present)

end Draft

namespace Emission

variable {α β : Type} {count : Nat} {draft : Draft}

/-- From a draft, a step leads to a legible one, whether or not it fails. Something holds of what it
gives and of the draft then. -/
def Grows (count : Nat) (draft : Draft) (step : Emission α) (gives : α → Draft → Prop) : Prop :=
  (draft ++ (step draft).1).Legible count ∧
    ∀ value, (step draft).2 = .ok value → gives value (draft ++ (step draft).1)

variable {step : Emission α} {gives : α → Draft → Prop} {yields : β → Draft → Prop}

theorem Grows.andThen {next : α → Emission β} (first : Grows count draft step gives)
    (second : ∀ value after, after.Legible count → gives value after →
      Grows count after (next value) yields) : Grows count draft (step >>= next) yields := by
  rcases stepped : step draft with ⟨added, failure | value⟩
  · have same : (step >>= next) draft = (added, .error failure) := by simp only [bind, stepped]
    rw [Grows, stepped] at first
    rw [Grows, same]
    exact ⟨first.1, by simp⟩
  · have same : (step >>= next) draft =
        (added ++ (next value (draft ++ added)).1, (next value (draft ++ added)).2) := by
      simp only [bind, stepped]
    rw [Grows, stepped] at first
    rw [Grows, same, ← Draft.append_assoc]
    exact second value _ first.1 (first.2 value rfl)

theorem Grows.inside (grows : Grows count draft step gives) (context : LoweringContext) :
    Grows count draft (inside context step) gives := by
  refine ⟨grows.1, ?_⟩
  intro value succeeded
  apply grows.2
  rw [Emission.inside] at succeeded
  cases stepped : (step draft).2 with
  | ok inner =>
      simp only [stepped, Result.mapError_ok] at succeeded
      exact succeeded
  | error failure =>
      simp only [stepped, Result.mapError_error] at succeeded
      cases succeeded

theorem grows_pure (legible : draft.Legible count) {value : α} (given : gives value draft) :
    Grows count draft (pure value) gives := by
  have nothing : (pure value : Emission α) draft = (.empty, .ok value) := rfl
  rw [Grows, nothing, Draft.append_empty]
  refine ⟨legible, ?_⟩
  intro other same
  cases same
  exact given

theorem grows_fail (legible : draft.Legible count) (error : LoweringError) :
    Grows count draft (fail error) gives := by
  rw [Grows, fail, Draft.append_empty]
  exact ⟨legible, by simp⟩

theorem grows_emit (legible : draft.Legible count) {name : String} {action : Action}
    (named : name = "" ∨ isValidName name = true) (noSlot : ∀ type, action ≠ .alloca type)
    (readable : action.Legible count) : Grows count draft (emit name action) fun _ _ => True :=
  ⟨legible.emit named noSlot readable, fun _ _ => trivial⟩

theorem grows_allocate (legible : draft.Legible count) {name : String}
    (valid : isValidName name = true) (type : Ir.ValueType)
    (absent : name ∉ draft.slots.map (·.1)) :
    Grows count draft (allocate type name) fun _ _ => True :=
  ⟨legible.allocate valid type absent, fun _ _ => trivial⟩

theorem grows_slot? (legible : draft.Legible count) (around : Surroundings) (name : String) :
    Grows count draft (slot? around name) fun found after =>
      found = none → name ∉ after.slots.map (·.1) := by
  rw [Grows, slot?, Draft.append_empty]
  refine ⟨legible, ?_⟩
  intro found same isNone present
  cases same
  rcases List.mem_map.mp present with ⟨slot, listed, rfl⟩
  rw [Scope.lookup, List.findSome?_cons] at isNone
  split at isNone
  · cases isNone
  · rename_i notHere
    have other := List.lookup_eq_none_iff.mp notHere slot (List.mem_reverse.mpr listed)
    simp at other

theorem grows_resolve (legible : draft.Legible count) (name : String) :
    Grows count draft (resolve name) fun _ after => after = draft := by
  rcases resolve_cases name with ⟨type, _, _, resolved⟩ | ⟨_, error, _, failed⟩
  · rw [resolved]
    exact grows_pure legible rfl
  · rw [failed]
    exact grows_fail legible error

theorem grows_slotOf (legible : draft.Legible count) (around : Surroundings) (name : String) :
    Grows count draft (slotOf around name) fun _ _ => True := by
  apply (grows_slot? legible around name).andThen
  intro slot? after legible _
  cases slot? with
  | none => exact grows_fail legible _
  | some slot => exact grows_pure legible trivial

theorem grows_callee (legible : draft.Legible count) (around : Surroundings) (name : String)
    (given : Nat) : Grows count draft (callee around name given) fun _ _ => True := by
  rw [callee]
  cases around.profile? name with
  | none => exact grows_fail legible _
  | some profile =>
      dsimp only
      split
      · exact grows_pure legible trivial
      · exact grows_fail legible _

theorem grows_store (legible : draft.Legible count) (slot : Ir.Slot) {operand : Operand}
    (within : operand.Within count) : Grows count draft (store slot operand) fun _ _ => True := by
  have readable : (Action.store operand (.instr slot.id)).Legible count :=
    ⟨by simp, by simpa [Action.operands] using within⟩
  apply (grows_emit legible (.inl rfl) (by simp) readable).andThen
  intro id after legible _
  exact grows_pure legible trivial

theorem grows_emitCall (legible : draft.Legible count) (profile : Profile) {name : String}
    (valid : isValidName name = true) {args : List Operand}
    (within : ∀ arg ∈ args, arg.Within count) :
    Grows count draft (emitCall profile name args) fun operand? _ =>
      ∀ operand ∈ operand?, operand.Within count := by
  have readable : (Action.call name args).Legible count := by
    refine ⟨?_, within⟩
    rintro _ _ ⟨⟩
    exact valid
  apply (grows_emit legible (.inr valid) (by simp) readable).andThen
  intro id after legible _
  split
  · exact grows_pure legible (by simp)
  · have readable : (Action.extract (.instr id) 0).Legible count :=
      ⟨by simp, by simp [Action.operands]⟩
    apply (grows_emit legible (.inl rfl) (by simp) readable).andThen
    intro first after legible _
    exact grows_pure legible (by simp)

theorem grows_emitOperator (legible : draft.Legible count) (op : Operator) {left right : Operand}
    (leftWithin : left.Within count) (rightWithin : right.Within count) :
    Grows count draft (emitOperator op left right) fun operand _ => operand.Within count := by
  rw [emitOperator]
  cases op.arithmetic? with
  | none => exact grows_fail legible _
  | some arithmetic =>
      have readable : (Action.arith arithmetic left right).Legible count :=
        ⟨by simp, by simp [Action.operands, leftWithin, rightWithin]⟩
      apply (grows_emit legible (.inl rfl) (by simp) readable).andThen
      intro id after legible _
      exact grows_pure legible (by simp)

mutual

theorem grows_value (around : Surroundings) : ∀ {node : Node} {draft : Draft}, node.SourceValue →
    draft.Legible count →
    Grows count draft (value around node) fun operand _ => operand.Within count
  | .literal number, draft, _, legible => by
      rw [value]
      exact grows_pure legible (by simp)
  | .var use, draft, .var writable, legible => by
      have valid := isValidName_of_isPlainName (Bool.and_eq_true_iff.mp writable).1
      rw [value]
      apply (grows_slotOf legible around use.name).andThen
      intro slot after legible _
      have readable : (Action.load slot.type (.instr slot.id)).Legible count :=
        ⟨by simp, by simp [Action.operands]⟩
      apply (grows_emit legible (.inr valid) (by simp) readable).andThen
      intro id after legible _
      exact grows_pure legible (by simp)
  | .binary op left right, draft, .binary isLeft isRight, legible => by
      rw [value]
      apply (grows_value around isLeft legible).andThen
      intro left after legible leftWithin
      apply (grows_value around isRight legible).andThen
      intro right after legible rightWithin
      exact grows_emitOperator legible op leftWithin rightWithin
  | .call name args, draft, .call plain areArgs, legible => by
      rw [value]
      apply (grows_callee legible around name args.length).andThen
      intro profile after legible _
      apply (grows_arguments around name 1 areArgs legible).andThen
      intro operands after legible within
      apply (grows_emitCall legible profile (isValidName_of_isPlainName plain) within).andThen
      intro operand? after legible within
      cases operand? with
      | none => exact grows_fail legible _
      | some operand => exact grows_pure legible (within operand rfl)
  | .group inner, draft, .group isInner, legible => by
      rw [value]
      exact grows_value around isInner legible

theorem grows_arguments (around : Surroundings) (name : String) (position : Nat) :
    ∀ {args : List Node} {draft : Draft}, (∀ arg ∈ args, arg.SourceValue) →
      draft.Legible count →
      Grows count draft (arguments around name position args) fun operands _ =>
        ∀ operand ∈ operands, operand.Within count
  | [], draft, _, legible => by
      rw [arguments]
      exact grows_pure legible (List.forall_mem_nil _)
  | arg :: rest, draft, areArgs, legible => by
      rw [List.forall_mem_cons] at areArgs
      rw [arguments]
      apply ((grows_value around areArgs.1 legible).inside _).andThen
      intro operand after legible first
      apply (grows_arguments around name (position + 1) areArgs.2 legible).andThen
      intro operands after legible others
      exact grows_pure legible (List.forall_mem_cons.mpr ⟨first, others⟩)

end

theorem grows_values (around : Surroundings) {nodes : List Node}
    (areValues : ∀ node ∈ nodes, node.SourceValue) (legible : draft.Legible count) :
    Grows count draft (values around nodes) fun operands _ =>
      ∀ operand ∈ operands, operand.Within count := by
  induction nodes generalizing draft with
  | nil => exact grows_pure legible (List.forall_mem_nil _)
  | cons node rest ih =>
      rw [List.forall_mem_cons] at areValues
      apply (grows_value around areValues.1 legible).andThen
      intro operand after legible first
      apply (ih areValues.2 legible).andThen
      intro operands after legible others
      exact grows_pure legible (List.forall_mem_cons.mpr ⟨first, others⟩)

theorem grows_call (around : Surroundings) {name : String} {args : List Node}
    (plain : isPlainName name = true) (areArgs : ∀ arg ∈ args, arg.SourceValue)
    (legible : draft.Legible count) :
    Grows count draft (call around name args) fun operand? _ =>
      ∀ operand ∈ operand?, operand.Within count := by
  apply (grows_callee legible around name args.length).andThen
  intro profile after legible _
  apply (grows_arguments around name 1 areArgs legible).andThen
  intro operands after legible within
  exact grows_emitCall legible profile (isValidName_of_isPlainName plain) within

theorem grows_declaration (around : Surroundings) {declared : Declaration}
    (valid : isValidName declared.name = true) (legible : draft.Legible count) :
    Grows count draft (declaration around declared) fun _ _ => True := by
  apply (grows_slot? legible around declared.name).andThen
  intro slot? after legible absent
  split
  · exact grows_fail legible _
  · rename_i free
    apply (grows_resolve legible declared.type).andThen
    rintro type _ legible rfl
    exact grows_allocate legible valid type (absent (by simpa using free))

theorem grows_target (around : Surroundings) {assigned : Target}
    (writable : assigned.isWritable = true) (legible : draft.Legible count) :
    Grows count draft (target around assigned) fun _ _ => True := by
  cases assigned with
  | decl declared =>
      have plain := (Bool.and_eq_true_iff.mp writable).2
      exact grows_declaration around (isValidName_of_isPlainName plain) legible
  | var use => exact grows_slotOf legible around use.name

theorem grows_statement (around : Surroundings) {node : Node} (isStatement : node.SourceStatement)
    (legible : draft.Legible count) :
    Grows count draft (statement around node) fun _ _ => True := by
  cases isStatement with
  | decl writable =>
      have plain := (Bool.and_eq_true_iff.mp writable).2
      apply (grows_declaration around (isValidName_of_isPlainName plain) legible).andThen
      intro slot after legible _
      exact grows_pure legible trivial
  | assign writable isValue =>
      apply (grows_target around writable legible).andThen
      intro slot after legible _
      apply ((grows_value around isValue legible).inside _).andThen
      intro operand after legible within
      exact grows_store legible slot within
  | call plain areArgs =>
      apply (grows_call around plain areArgs legible).andThen
      intro operand? after legible _
      exact grows_pure legible trivial
  | ret areValues =>
      apply (grows_values around areValues legible).andThen
      intro operands after legible within
      have readable : (Action.ret operands).Legible count := ⟨by simp, within⟩
      apply (grows_emit legible (.inl rfl) (by simp) readable).andThen
      intro id after legible _
      exact grows_pure legible trivial

theorem grows_statements (around : Surroundings) {nodes : List Node}
    (areStatements : ∀ node ∈ nodes, node.SourceStatement) (legible : draft.Legible count) :
    Grows count draft (statements around nodes) fun _ _ => True := by
  induction nodes generalizing draft with
  | nil => exact grows_pure legible trivial
  | cons node rest ih =>
      rw [List.forall_mem_cons] at areStatements
      apply ((grows_statement around areStatements.1 legible).inside _).andThen
      intro _ after legible _
      exact ih areStatements.2 legible

theorem grows_parameters (around : Surroundings) {position : Nat} {params : List Parameter}
    (valid : ∀ param ∈ params, isValidName param.name = true)
    (inRange : position + params.length ≤ count) (legible : draft.Legible count) :
    Grows count draft (parameters around position params) fun _ _ => True := by
  induction params generalizing draft position with
  | nil => exact grows_pure legible trivial
  | cons param rest ih =>
      rw [List.forall_mem_cons] at valid
      rw [List.length_cons] at inRange
      apply (grows_slot? legible around param.name).andThen
      intro slot? after legible absent
      split
      · exact grows_fail legible _
      · rename_i free
        apply (grows_resolve legible param.type).andThen
        rintro type _ legible rfl
        apply (grows_allocate legible valid.1 type (absent (by simpa using free))).andThen
        intro slot after legible _
        have within : (Operand.param position).Within count := by
          rw [Operand.within_param]
          omega
        apply (grows_store legible slot within).andThen
        intro _ after legible _
        exact ih valid.2 (by omega) legible

theorem grows_body (around : Surroundings) {params : List Parameter} {nodes : List Node}
    (valid : ∀ param ∈ params, isValidName param.name = true) (inRange : params.length ≤ count)
    (areStatements : ∀ node ∈ nodes, node.SourceStatement) :
    Grows count .empty (body around params nodes) fun _ _ => True := by
  apply (grows_parameters around valid (by omega) (Draft.legible_empty count)).andThen
  intro _ after legible _
  exact grows_statements around areStatements legible

end Emission

theorem Draft.Legible.finished {count : Nat} {draft : Draft} (legible : draft.Legible count)
    (header : Signature) : (draft.finished header).Legible count := by
  rw [Draft.finished]
  split
  · exact legible.emit (.inl rfl) (by simp) ⟨by simp, by simp [Action.operands]⟩
  · exact legible

/-- A function has valid names for itself and its parameters, which differ, and a body of which a
draft says all, or none at all. -/
structure Ir.Function.Legible (function : Function) : Prop where
  named : isValidName function.name = true
  params : ∀ param ∈ function.params, isValidName param.name = true
  distinct : (function.params.map (·.name)).Nodup
  body : (function.blocks = [] ∧ function.nextId = 0) ∨
    ∃ draft : Draft, draft.Legible function.params.length ∧ draft.fill function = function

theorem Draft.Legible.fill {function : Function} {draft : Draft}
    (legible : draft.Legible function.params.length) (readable : function.Legible) :
    (draft.fill function).Legible where
  named := readable.named
  params := readable.params
  distinct := readable.distinct
  body := .inr ⟨draft, legible, rfl⟩

namespace Lowering

variable {table : FunctionTable} {state : LoweringState} {header : Signature}

/-- All functions of a state are legible. -/
def Legible (state : LoweringState) : Prop :=
  ∀ function ∈ state.builder.module.functions, function.Legible

theorem Legible.declare (legible : Legible state) {function : Function}
    (readable : function.Legible) : Legible (state.declare function) := by
  rw [Legible, LoweringState.declare, List.forall_mem_append, List.forall_mem_singleton]
  exact ⟨legible, readable⟩

theorem legible_closed {site : Site} {draft : Draft}
    (legible : ∀ function ∈ site.builder.module.functions, function.Legible)
    (readable : draft.Legible site.function.params.length) : Legible (site.closed draft) := by
  intro function present
  rcases List.mem_or_eq_of_mem_set present with present | rfl
  · exact legible function present
  · exact readable.fill (legible site.function (List.mem_of_getElem? site.found))

theorem names_zipWith {params : List Parameter} {types : List Ir.ValueType}
    (sameLength : types.length = params.length) :
    (types.zipWith (fun type param => Ir.Param.mk type param.name) params).map (·.name) =
      params.map (·.name) := by
  induction params generalizing types with
  | nil => simp
  | cons param rest ih =>
      cases types with
      | nil => simp at sameLength
      | cons type types => simp_all

theorem isValidName_of_isWritable (writable : header.isWritable = true) :
    isValidName header.name = true ∧ ∀ param ∈ header.params, isValidName param.name = true := by
  simp only [Signature.isWritable, Bool.and_eq_true, List.all_eq_true] at writable
  refine ⟨isValidName_of_isPlainName writable.1.2, ?_⟩
  intro param present
  exact isValidName_of_isPlainName
    (Bool.and_eq_true_iff.mp (writable.2 param present)).2

/-- A function that is declared has the names that its header gives. -/
theorem legible_signature (unknown : state.builder.module.index? header.name = none)
    (writable : header.isWritable = true) (legible : Legible state) :
    Legible (left (signature header state)) := by
  have valid := isValidName_of_isWritable writable
  rw [signature]
  cases repeated : header.repeatedParam? with
  | some param => exact legible
  | none =>
      simp only [resolveParams_eq, bind_assoc, pure_bind]
      rcases resolveAll_cases (header.params.map (·.type)) state with
        ⟨paramsKnown, params⟩ | ⟨_, refused, params⟩
      · rw [Result.bind_of_ok params]
        rcases resolveAll_cases header.returns state with ⟨_, returns⟩ | ⟨_, refused, returns⟩
        · rw [Result.bind_of_ok returns, declare_of_unknown unknown]
          have sameLength : ((header.params.map (·.type)).filterMap scalar?).length =
              header.params.length := by
            rw [List.filterMap_length_eq_length.mpr paramsKnown, List.length_map]
          have names := names_zipWith sameLength
          refine legible.declare ⟨valid.1, ?_, ?_, .inl ⟨rfl, rfl⟩⟩
          · intro param present
            have named : param.name ∈ header.params.map (·.name) := by
              rw [← names]
              exact List.mem_map_of_mem present
            rcases List.mem_map.mp named with ⟨given, isGiven, sameName⟩
            rw [← sameName]
            exact valid.2 given isGiven
          · rw [names]
            exact Signature.repeatedParam?_eq_none_iff.mp repeated
        · rw [Result.bind_of_error returns]
          exact legible
      · rw [Result.bind_of_error params]
        exact legible

theorem legible_definedFunction (writable : header.isWritable = true) (legible : Legible state) :
    Legible (left (definedFunction header state)) := by
  rw [definedFunction, Result.get_bind]
  cases found : state.builder.module.index? header.name with
  | none =>
      dsimp only
      rcases left_inside (.declaring header.name) (signature header) state with ⟨log, same⟩
      rw [same]
      exact legible_signature found writable legible
  | some index =>
      dsimp only
      split
      · exact legible
      · split
        · exact legible
        · exact legible

theorem legible_completing {site : Site} {outcome : Draft × Except LoweringFailure Unit}
    (legible : ∀ function ∈ site.builder.module.functions, function.Legible)
    (readable : outcome.1.Legible site.function.params.length) :
    Legible (left (site.completing header outcome)) := by
  rcases outcome with ⟨draft, failure | _⟩
  · exact legible_closed legible readable
  · simp only [Site.completing]
    split
    · exact legible_closed legible (readable.finished header)
    · exact legible_closed legible (readable.finished header)

theorem legible_function (describes : table.Describes state) (legible : Legible state)
    (writable : header.isWritable = true) {body : List Node}
    (areStatements : ∀ node ∈ body, node.SourceStatement) :
    Legible (left (Lowering.function header body state)) := by
  have legibleThere := legible_definedFunction writable legible
  cases defined : definedFunction header state with
  | error error after =>
      rw [defined] at legibleThere
      rw [Lowering.function, Result.bind_of_error defined]
      exact legibleThere
  | ok index declared =>
      rw [defined] at legibleThere
      rcases exists_ready describes defined with ⟨known, function, ready⟩
      have grows := Emission.grows_body (table.declare header).around
        (isValidName_of_isWritable writable).2 (Nat.le_of_eq ready.paramCount) areStatements
      have readable := grows.1
      rw [Draft.empty_append] at readable
      rw [function_eq defined ready body]
      exact legible_completing legibleThere readable

theorem legible_item (describes : table.Describes state) (legible : Legible state) {node : Node}
    (isItem : node.SourceItem) : Legible (left (item node state)) := by
  cases isItem with
  | signature writable =>
      rename_i header
      rw [item, Result.get_bind]
      cases found : state.builder.module.index? header.name with
      | none => exact legible_signature found writable legible
      | some index => exact legible
  | @function header body writable areStatements =>
      rcases left_inside (.function header.name) (function header body) state with ⟨log, same⟩
      rw [item, same]
      exact legible_function describes legible writable areStatements

theorem legible_items (describes : table.Describes state) (legible : Legible state)
    {nodes : List Node} (areItems : ∀ node ∈ nodes, node.SourceItem) :
    Legible (items state nodes).2 := by
  induction nodes generalizing table state with
  | nil => exact legible
  | cons node rest ih =>
      rw [List.forall_mem_cons] at areItems
      rw [items_cons]
      exact ih (describes_left describes node) (legible_item describes legible areItems.1)
        areItems.2

end Lowering

/-- Every function of a module that was compiled is legible, whatever has failed. -/
theorem legible_compile (moduleName source : String) :
    ∀ function ∈ (compile moduleName source).module.functions, function.Legible := by
  have areItems := fun node => @Grammar.sourceItem_of_mem_program source node
  rw [compile_module]
  exact Lowering.legible_items (Lowering.describes_new moduleName) (List.forall_mem_nil _) areItems

end Tuplet
