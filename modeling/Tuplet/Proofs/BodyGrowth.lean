import Tuplet.Proofs.BuilderInvariant
import Tuplet.Proofs.Items

/-!
# How a body grows

Lowering may start from any state: among any functions and frames of names, and for a function
that has given out ids before. Whatever the state is, a body only grows in two places. A slot is
put behind the slots, and any other instruction behind everything, each with the next id.

A step of lowering is described by the names that it makes slots for, which can be told from the
state before it. Lowering a value makes no slots. A declaration makes one or fails at once.
-/

namespace Tuplet

open Ir (Builder Function Instruction Operand ValueType)

/-- The state that a step leaves, whether or not it fails. -/
def Result.leftState {ε σ α : Type} : EStateM.Result ε σ α → σ
  | .ok _ state => state
  | .error _ state => state

/-- What each of two steps keeps true of the state is true of what both leave. -/
theorem Result.leftState_bind {ε σ α β : Type} (holds : σ → Prop) {step : EStateM ε σ α}
    {next : α → EStateM ε σ β} {state : σ} (first : holds (leftState (step state)))
    (second : ∀ value after, holds after → holds (leftState (next value after))) :
    holds (leftState ((step >>= next) state)) := by
  cases stepped : step state with
  | ok value after =>
      rw [stepped] at first
      rw [bind_of_ok stepped]
      exact second value after first
  | error failure after =>
      rw [stepped] at first
      rw [bind_of_error stepped]
      exact first

namespace Draft

/-- The names and types of the slots. -/
def declared (draft : Draft) : List (String × ValueType) :=
  draft.slots.map fun slot => (slot.1, slot.2.type)

/-- A draft is in order. Ids are given out one after another, from the first on, so that to be in
the order of ids is to be in the order in which instructions were made. -/
structure Arranged (first : Nat) (draft : Draft) : Prop where
  names : (draft.slots.map (·.1)).Nodup
  slots : (draft.slots.map (·.2.id)).Pairwise (· < ·)
  code : (draft.code.map (·.id)).Pairwise (· < ·)
  ids : (draft.instructions.map (·.id)).Perm (List.range' first draft.next)
  noSlots : ∀ instruction ∈ draft.code, ∀ type, instruction.action ≠ .alloca type

variable {first : Nat} {draft : Draft}

theorem declared_append (draft added : Draft) :
    (draft ++ added).declared = draft.declared ++ added.declared := List.map_append

theorem arranged_empty (first : Nat) : empty.Arranged first where
  names := List.nodup_nil
  slots := .nil
  code := .nil
  ids := .nil
  noSlots := List.forall_mem_nil _

namespace Arranged

theorem distinct (arranged : draft.Arranged first) : (draft.instructions.map (·.id)).Nodup :=
  arranged.ids.nodup_iff.mpr List.nodup_range'

/-- Some of the ids stay in order when the next one is put behind them. -/
theorem pairwise_next (arranged : draft.Arranged first) {ids : List Nat}
    (ordered : ids.Pairwise (· < ·)) (given : ids ⊆ draft.instructions.map (·.id)) :
    (ids ++ [first + draft.next]).Pairwise (· < ·) := by
  rw [List.pairwise_append]
  refine ⟨ordered, List.pairwise_singleton _ _, ?_⟩
  intro id present next isNext
  rw [List.mem_singleton] at isNext
  rw [isNext]
  exact (List.mem_range'_1.mp (arranged.ids.mem_iff.mp (given present))).2

/-- The ids stay the ones from the first on when an instruction with the next id is put anywhere. -/
theorem ids_add {more : Draft} {instruction : Instruction} (arranged : draft.Arranged first)
    (added : more.instructions.Perm (instruction :: draft.instructions))
    (newId : instruction.id = first + draft.next) (next : more.next = draft.next + 1) :
    (more.instructions.map (·.id)).Perm (List.range' first more.next) := by
  calc more.instructions.map (·.id)
    _ |>.Perm ((first + draft.next) :: draft.instructions.map (·.id)) := by
        simpa [newId] using added.map (·.id)
    _ |>.Perm ((first + draft.next) :: List.range' first draft.next) := .cons _ arranged.ids
    _ |>.Perm (List.range' first more.next) := by
        rw [next, List.range'_1_concat]
        exact (List.perm_append_singleton _ _).symm

theorem emit (arranged : draft.Arranged first) (name : String) {action : Ir.Action}
    (noSlot : ∀ type, action ≠ .alloca type) :
    (draft ++ ⟨[], [⟨first + draft.next, name, action⟩]⟩).Arranged first where
  names := by simpa using arranged.names
  slots := by simpa using arranged.slots
  code := by
    rw [code_append, List.map_append]
    refine arranged.pairwise_next arranged.code ?_
    rw [instructions, List.map_append]
    exact List.subset_append_right _ _
  ids := by
    have added : (draft ++ ⟨[], [⟨first + draft.next, name, action⟩]⟩).instructions.Perm
        (⟨first + draft.next, name, action⟩ :: draft.instructions) := by
      simpa [instructions] using
        List.perm_append_singleton _ (draft.slots.map slotInstruction ++ draft.code)
    exact arranged.ids_add added rfl (by simp [next, Nat.add_assoc])
  noSlots := by
    rw [code_append, List.forall_mem_append, List.forall_mem_singleton]
    exact ⟨arranged.noSlots, noSlot⟩

theorem allocate (arranged : draft.Arranged first) {name : String} (type : ValueType)
    (absent : name ∉ draft.slots.map (·.1)) :
    (draft ++ ⟨[(name, ⟨first + draft.next, type⟩)], []⟩).Arranged first where
  names := by
    rw [slots_append, List.map_append, List.nodup_append]
    refine ⟨arranged.names, List.nodup_singleton _, ?_⟩
    intro earlier present new isNew same
    rw [List.map_singleton, List.mem_singleton] at isNew
    rw [same, isNew] at present
    exact absent present
  slots := by
    rw [slots_append, List.map_append]
    refine arranged.pairwise_next arranged.slots ?_
    rw [instructions, List.map_append, List.map_map]
    exact List.subset_append_left _ _
  code := by simpa using arranged.code
  ids := by
    have added : (draft ++ ⟨[(name, ⟨first + draft.next, type⟩)], []⟩).instructions.Perm
        (slotInstruction (name, ⟨first + draft.next, type⟩) :: draft.instructions) := by
      simp [instructions]
    exact arranged.ids_add added rfl (by simp [next, Nat.add_right_comm])
  noSlots := by simpa using arranged.noSlots

end Arranged

end Draft

/-- Where a body is lowered: its function, the first id that is free there, and the frames of
names around it. -/
structure Workplace where
  index : Nat
  first : Nat
  frames : List (List (String × Ir.Slot))

namespace Workplace

/-- Instructions are put into the function of a workplace, which has a draft as its body. -/
structure Fills (place : Workplace) (draft : Draft) (builder : Builder) : Prop where
  cursor : builder.cursor = some place.index
  function : ∃ function, builder.function? place.index = some function ∧
    function.blocks = [⟨"entry", draft.instructions⟩] ∧
      function.nextId = place.first + draft.next

/-- The body that is lowered has come to a draft, which is in order. -/
structure Shows (place : Workplace) (draft : Draft) (state : LoweringState) : Prop where
  fills : place.Fills draft state.builder
  arranged : draft.Arranged place.first
  frames : state.scope.frames = draft.slots.reverse :: place.frames
  body : state.body = some ⟨place.index, draft.lastSlot⟩

variable {place : Workplace} {draft : Draft} {builder : Builder} {state : LoweringState}

namespace Fills

theorem makeInstruction (cursor : builder.cursor = some place.index) {function : Function}
    (found : builder.function? place.index = some function) (name : String) (action : Ir.Action) :
    Ir.Build.makeInstruction name action builder =
      .ok (place.index, { function with nextId := function.nextId + 1 },
        ⟨function.nextId, name, action⟩) (builder.spendId place.index function) := by
  have here : Ir.Build.current builder = .ok (place.index, function) builder := by
    simp [Ir.Build.current, cursor, found]
  exact Result.bind_of_ok here

theorem emit (fills : place.Fills draft builder) (name : String) (action : Ir.Action) :
    ∃ after, Ir.Build.emit name action builder = .ok (place.first + draft.next) after ∧
      place.Fills (draft ++ ⟨[], [⟨place.first + draft.next, name, action⟩]⟩) after := by
  rcases fills with ⟨cursor, function, found, blocks, next⟩
  rw [Ir.Build.emit, Result.bind_of_ok (makeInstruction cursor found name action), next]
  simp only [blocks, List.isEmpty_cons, Bool.false_eq_true, if_false, Result.modify_bind,
    Builder.setFunction_spendId]
  refine ⟨_, rfl, cursor, _, Builder.function?_setFunction_self found, ?_, ?_⟩
  · simp [Ir.Block.appendToLast, Draft.instructions]
  · simp [Draft.next, Nat.add_assoc]

theorem allocate (fills : place.Fills draft builder)
    (distinct : (draft.instructions.map (·.id)).Nodup) (type : ValueType) (name : String) :
    ∃ after, Ir.Build.allocaAfter draft.lastSlot type name builder =
        .ok ⟨place.first + draft.next, type⟩ after ∧
      place.Fills (draft ++ ⟨[(name, ⟨place.first + draft.next, type⟩)], []⟩) after := by
  rcases fills with ⟨cursor, function, found, blocks, next⟩
  rw [Ir.Build.allocaAfter, Result.bind_of_ok (makeInstruction cursor found name (.alloca type)),
    next]
  simp only [blocks, Site.insertSlot_draft distinct, Result.modify_bind,
    Builder.setFunction_spendId]
  refine ⟨_, rfl, cursor, _, Builder.function?_setFunction_self found, ?_, ?_⟩
  · simp [Draft.instructions, Draft.slotInstruction]
  · simp only [Draft.next, Draft.slots_append, Draft.code_append, List.length_append,
      List.length_singleton, List.length_nil]
    omega

end Fills

/-- From a draft, a body has come to one that has more: some declared names are new in it. -/
def Adds (place : Workplace) (draft : Draft) (declared : List (String × ValueType))
    (state : LoweringState) : Prop :=
  ∃ added : Draft, added.declared = declared ∧ place.Shows (draft ++ added) state

/-- A step adds to every draft, and the names it declares are told from the state before it. -/
def Makes {α : Type} (place : Workplace) (step : Lowering α)
    (declared : LoweringState → List (String × ValueType)) : Prop :=
  ∀ draft state, place.Shows draft state →
    place.Adds draft (declared state) (Result.leftState (step state))

/-- A step adds instructions that are not slots. -/
def Computes {α : Type} (place : Workplace) (step : Lowering α) : Prop :=
  place.Makes step fun _ => []

variable {α β : Type} {declared more : List (String × ValueType)}

theorem Shows.adds_nothing (shows : place.Shows draft state) : place.Adds draft [] state :=
  ⟨.empty, rfl, by rwa [Draft.append_empty]⟩

/-- What has been told does not matter to a body. -/
theorem Adds.withLog (adds : place.Adds draft declared state) (log : List Diagnostic) :
    place.Adds draft declared (state.withLog log) := by
  rcases adds with ⟨added, named, fills, arranged, frames, body⟩
  exact ⟨added, named, fills, arranged, frames, body⟩

theorem Adds.andThen {after : LoweringState} (adds : place.Adds draft declared state)
    (goesOn : ∀ longer, place.Shows longer state → place.Adds longer more after) :
    place.Adds draft (declared ++ more) after := by
  rcases adds with ⟨added, rfl, shows⟩
  rcases goesOn _ shows with ⟨others, rfl, shows⟩
  exact ⟨added ++ others, Draft.declared_append added others, by rwa [← Draft.append_assoc]⟩

/-- A step that changes nothing of the state but the log adds nothing. -/
theorem computes_of_unchanged {step : Lowering α}
    (unchanged : ∀ state, ∃ log, Result.leftState (step state) = state.withLog log) :
    place.Computes step := by
  intro draft state shows
  rcases unchanged state with ⟨log, same⟩
  rw [same]
  exact shows.adds_nothing.withLog log

theorem computes_pure (value : α) : place.Computes (pure value) :=
  computes_of_unchanged fun state => ⟨state.log, rfl⟩

theorem computes_fail (error : LoweringError) : place.Computes (Lowering.fail error : Lowering α) :=
  computes_of_unchanged fun _ => ⟨_, rfl⟩

theorem leftState_telling (remark : LoweringError → Diagnostic) (step : Lowering α)
    (state : LoweringState) :
    ∃ log, Result.leftState (Lowering.telling remark step state) =
      (Result.leftState (step state)).withLog log := by
  cases stepped : step state with
  | ok value after => exact ⟨after.log, congrArg _ (Lowering.telling_of_ok stepped)⟩
  | error error after => exact ⟨_, congrArg _ (Lowering.telling_of_error stepped)⟩

theorem Makes.inside {step : Lowering α} {declared : LoweringState → List (String × ValueType)}
    (makes : place.Makes step declared) (context : LoweringContext) :
    place.Makes (Lowering.inside context step) declared := by
  intro draft state shows
  rcases leftState_telling (.ofContext .nowhere · context) step state with ⟨log, same⟩
  rw [Lowering.inside, same]
  exact (makes draft state shows).withLog log

/-- What is computed behind a step declares no more names. -/
theorem Makes.andThen {step : Lowering α} {next : α → Lowering β}
    {declared : LoweringState → List (String × ValueType)} (makes : place.Makes step declared)
    (computes : ∀ value, place.Computes (next value)) : place.Makes (step >>= next) declared := by
  intro draft state shows
  have adds := makes draft state shows
  cases stepped : step state with
  | ok value after =>
      rw [stepped] at adds
      rw [Result.bind_of_ok stepped, ← List.append_nil (declared state)]
      exact adds.andThen fun longer shows => computes value longer after shows
  | error error after =>
      rw [stepped] at adds
      rw [Result.bind_of_error stepped]
      exact adds

section Values

theorem computes_emit (name : String) {action : Ir.Action}
    (noSlot : ∀ type, action ≠ .alloca type) :
    place.Computes (Lowering.build (Ir.Build.emit name action)) := by
  intro draft state shows
  rcases shows.fills.emit name action with ⟨after, emitted, fills⟩
  refine ⟨⟨[], [⟨place.first + draft.next, name, action⟩]⟩, rfl, ?_⟩
  rw [Lowering.build_of_ok emitted, Result.leftState]
  exact ⟨fills, shows.arranged.emit name noSlot, by simpa using shows.frames,
    by simpa [Draft.lastSlot] using shows.body⟩

theorem computes_emit_map (name : String) {action : Ir.Action}
    (noSlot : ∀ type, action ≠ .alloca type) (use : Nat → α) :
    place.Computes
      (Lowering.build (Ir.Build.emit name action >>= fun id => pure (use id))) := by
  rw [Site.build_bind]
  exact (computes_emit name noSlot).andThen fun id => computes_pure (use id)

theorem computes_function (index : Nat) :
    place.Computes (Lowering.build (Ir.Build.function index)) := by
  apply computes_of_unchanged
  intro state
  unfold Lowering.build Lowering.report Ir.Build.function
  rcases leftState_telling (.ofError .nowhere) _ state with ⟨log, same⟩
  refine ⟨log, same.trans ?_⟩
  simp only [Lowering.attempt, Result.get_bind]
  cases state.builder.function? index <;> rfl

theorem computes_param (index position : Nat) :
    place.Computes (Lowering.build (Ir.Build.param index position)) := by
  rw [Ir.Build.param, Site.build_bind]
  apply (computes_function index).andThen
  intro function
  apply computes_of_unchanged
  intro state
  by_cases inRange : position < function.params.length
  · simp only [inRange, if_true]
    exact ⟨state.log, rfl⟩
  · simp only [inRange, if_false]
    exact ⟨_, rfl⟩

theorem computes_callFunction (index : Nat) (args : List Operand) (name : String) :
    place.Computes (Lowering.build (Ir.Build.call index args name)) := by
  rw [Ir.Build.call, Site.build_bind]
  exact (computes_function index).andThen fun callee => computes_emit_map name (by simp) _

theorem computes_slotOf (name : String) : place.Computes (Lowering.slotOf name) := by
  apply computes_of_unchanged
  intro state
  rw [Lowering.slotOf, Result.get_bind]
  cases state.scope.lookup name with
  | some slot => exact ⟨state.log, rfl⟩
  | none => exact ⟨_, rfl⟩

theorem computes_callee (name : String) (given : Nat) :
    place.Computes (Lowering.callee name given) := by
  apply computes_of_unchanged
  intro state
  rw [Lowering.callee, Result.get_bind]
  cases state.builder.module.index? name with
  | none => exact ⟨_, rfl⟩
  | some index =>
      by_cases fits : state.builder.paramCount index = given
      · simp only [fits, if_true]
        exact ⟨state.log, rfl⟩
      · simp only [fits, if_false]
        exact ⟨_, rfl⟩

theorem computes_emitCall (index : Nat) (name : String) (args : List Operand) :
    place.Computes (Lowering.emitCall index name args) := by
  apply (computes_callFunction index args name).andThen
  intro aggregate?
  cases aggregate? with
  | none => exact computes_pure none
  | some aggregate =>
      exact (computes_emit_map "" (by simp) Operand.instr).andThen fun first => computes_pure _

theorem computes_emitOperator (op : Operator) (left right : Operand) :
    place.Computes (Lowering.emitOperator op left right) := by
  rw [Lowering.emitOperator]
  cases op.arithmetic? with
  | none => exact computes_fail _
  | some arithmetic => exact computes_emit_map "" (by simp) _

mutual

theorem computes_value (node : Node) : place.Computes (Lowering.value node) := by
  cases node with
  | literal number => exact computes_pure _
  | var use => exact (computes_slotOf use.name).andThen fun slot => computes_emit_map _ (by simp) _
  | binary op left right =>
      apply (computes_value left).andThen
      intro leftOperand
      apply (computes_value right).andThen
      intro rightOperand
      exact computes_emitOperator op leftOperand rightOperand
  | call name args =>
      apply (computes_callee name args.length).andThen
      intro index
      apply (computes_arguments name 1 args).andThen
      intro operands
      apply (computes_emitCall index name operands).andThen
      intro operand?
      cases operand? with
      | none => exact computes_fail _
      | some operand => exact computes_pure operand
  | group inner => exact computes_value inner
  | assign => exact computes_fail _
  | decl => exact computes_fail _
  | signature => exact computes_fail _
  | function => exact computes_fail _
  | ret => exact computes_fail _

theorem computes_arguments (name : String) (position : Nat) (args : List Node) :
    place.Computes (Lowering.arguments name position args) := by
  cases args with
  | nil => exact computes_pure []
  | cons arg rest =>
      apply ((computes_value arg).inside (.argument position name)).andThen
      intro operand
      apply (computes_arguments name (position + 1) rest).andThen
      intro operands
      exact computes_pure _

end

theorem computes_values (nodes : List Node) : place.Computes (Lowering.values nodes) := by
  induction nodes with
  | nil => exact computes_pure []
  | cons node rest ih =>
      apply (computes_value node).andThen
      intro operand
      apply ih.andThen
      intro operands
      exact computes_pure _

end Values

section Declarations

theorem Shows.notMem_of_lookup (shows : place.Shows draft state) {name : String}
    (isNew : state.scope.lookup name = none) : name ∉ draft.slots.map (·.1) := by
  rw [Scope.lookup, shows.frames, List.findSome?_cons] at isNew
  cases inBody : draft.slots.reverse.lookup name with
  | some slot =>
      rw [inBody] at isNew
      cases isNew
  | none =>
      intro present
      rcases List.mem_map.mp present with ⟨slot, listed, rfl⟩
      have other := List.lookup_eq_none_iff.mp inBody slot (List.mem_reverse.mpr listed)
      exact absurd other (by simp)

theorem Shows.allocate (shows : place.Shows draft state) {name : String} (type : ValueType)
    (isNew : state.scope.lookup name = none) :
    ∃ slot after, Lowering.allocate type name state = .ok slot after ∧
      place.Adds draft [(name, type)] after := by
  rcases shows.fills.allocate shows.arranged.distinct type name with ⟨builder, made, fills⟩
  have latest : state.body.bind (·.lastSlot) = draft.lastSlot := by rw [shows.body]; rfl
  have built : Lowering.build (Ir.Build.allocaAfter draft.lastSlot type name) state =
      .ok ⟨place.first + draft.next, type⟩ { state with builder } :=
    Lowering.build_of_ok made
  have allocated : Lowering.allocate type name state =
      .ok ⟨place.first + draft.next, type⟩
        ⟨builder, state.scope.bind name ⟨place.first + draft.next, type⟩,
          some ⟨place.index, some ⟨place.first + draft.next, type⟩⟩, state.log⟩ := by
    rw [Lowering.allocate, Result.get_bind, latest, Result.bind_of_ok built, Result.modify_bind,
      shows.body]
    rfl
  refine ⟨_, _, allocated, ⟨[(name, ⟨place.first + draft.next, type⟩)], []⟩, rfl, fills,
    shows.arranged.allocate type (shows.notMem_of_lookup isNew), ?_, ?_⟩
  · simp [Scope.bind, shows.frames]
  · simp [Draft.lastSlot]

end Declarations

end Workplace

/-- What a declaration makes a slot for: its name, if it is new, and a type, if it is known. -/
def Declaration.accepted (declaration : Declaration) (state : LoweringState) :
    Option (String × ValueType) :=
  match state.scope.lookup declaration.name with
  | some _ => none
  | none => (scalar? declaration.type).map fun type => (declaration.name, type)

/-- The name and the type that a declaration asks a slot for. -/
def Declaration.wanted (declaration : Declaration) : String × Option ValueType :=
  (declaration.name, scalar? declaration.type)

theorem Declaration.wanted_of_accepted {declaration : Declaration} {state : LoweringState}
    {slot : String × ValueType} (accepted : declaration.accepted state = some slot) :
    slot.map id some = declaration.wanted := by
  rw [Declaration.accepted] at accepted
  split at accepted
  · cases accepted
  · rcases Option.map_eq_some_iff.mp accepted with ⟨type, known, rfl⟩
    rw [Declaration.wanted, known]
    rfl

/-- What an assignment declares by its target. -/
def Target.declared? : Target → Option Declaration
  | .var _ => none
  | .decl declaration => some declaration

/-- What a statement declares. -/
def Node.declared? : Node → Option Declaration
  | .decl declaration => some declaration
  | .assign target _ => target.declared?
  | _ => none

namespace Lowering

/-- Makes a slot for a declaration and does something with it. -/
def introduce {α : Type} (declaration : Declaration) (taken : LoweringError)
    (next : Ir.Slot → Lowering α) : Lowering α := do
  if ((← get).scope.lookup declaration.name).isSome then fail taken
  else
    let type ← resolve declaration.type
    let slot ← allocate type declaration.name
    next slot

variable {α : Type} {declared : Declaration} {taken : LoweringError} {state : LoweringState}

theorem introduce_of_refused (refused : declared.accepted state = none)
    (next : Ir.Slot → Lowering α) :
    ∃ failure, introduce declared taken next state = raise failure state := by
  rw [introduce, Result.get_bind]
  rw [Declaration.accepted] at refused
  cases found : state.scope.lookup declared.name with
  | some slot => exact ⟨.because taken, rfl⟩
  | none =>
      rw [found, Option.map_eq_none_iff] at refused
      rcases resolve_cases declared.type with ⟨type, known, _⟩ | ⟨_, error, resolved, _⟩
      · rw [known] at refused
        cases refused
      · exact ⟨.because error, by rw [resolved]; rfl⟩

theorem introduce_of_accepted {name : String} {type : ValueType}
    (accepted : declared.accepted state = some (name, type)) (next : Ir.Slot → Lowering α) :
    name = declared.name ∧ state.scope.lookup declared.name = none ∧
      introduce declared taken next state =
        (allocate type declared.name >>= next) state := by
  rw [introduce, Result.get_bind]
  rw [Declaration.accepted] at accepted
  cases found : state.scope.lookup declared.name with
  | some slot =>
      rw [found] at accepted
      cases accepted
  | none =>
      rw [found] at accepted
      rcases Option.map_eq_some_iff.mp accepted with ⟨_, known, same⟩
      cases same
      rcases resolve_cases declared.type with ⟨_, known', resolved, _⟩ | ⟨unknown, _⟩
      · cases known.symm.trans known'
        refine ⟨rfl, rfl, ?_⟩
        rw [resolved]
        rfl
      · rw [unknown] at known
        cases known

theorem introduce_bind {β : Type} (declared : Declaration) (taken : LoweringError)
    (next : Ir.Slot → Lowering α) (more : α → Lowering β) :
    introduce declared taken next >>= more =
      introduce declared taken fun slot => next slot >>= more := by
  rw [introduce, introduce, bind_assoc]
  congr
  funext state
  split
  · rfl
  · simp only [bind_assoc]

theorem declaration_eq (declared : Declaration) :
    declaration declared = introduce declared (.nameTaken declared.name) pure := by
  simp only [declaration, introduce, bind_pure]

theorem parameters_cons (function position : Nat) (param : Parameter) (rest : List Parameter) :
    parameters function position (param :: rest) =
      (introduce ⟨param.name, param.type⟩ (.parameterTaken param.name) fun slot => do
        let operand ← build (Ir.Build.param function position)
        build (Ir.Build.store slot operand)
        parameters function (position + 1) rest) := rfl

end Lowering

namespace Workplace

variable {α : Type} {place : Workplace}

theorem makes_introduce (declared : Declaration) (taken : LoweringError)
    {next : Ir.Slot → Lowering α} (computes : ∀ slot, place.Computes (next slot)) :
    place.Makes (Lowering.introduce declared taken next)
      fun state => (declared.accepted state).toList := by
  intro draft state shows
  change place.Adds draft (declared.accepted state).toList _
  -- A declaration that is refused has touched nothing of the state but the log.
  cases accepted : declared.accepted state with
  | none =>
      rcases Lowering.introduce_of_refused accepted next with ⟨failure, refused⟩
      rw [refused]
      exact shows.adds_nothing.withLog _
  | some slot =>
      rcases slot with ⟨name, type⟩
      rcases Lowering.introduce_of_accepted accepted next with ⟨rfl, isNew, introduced⟩
      rcases shows.allocate type isNew with ⟨slot, after, allocated, adds⟩
      rw [introduced, Result.bind_of_ok allocated]
      exact adds.andThen fun longer shows => computes slot longer after shows

theorem makes_target (target : Target) :
    place.Makes (Lowering.target target)
      fun state => (target.declared?.bind (·.accepted state)).toList := by
  cases target with
  | var use => exact computes_slotOf use.name
  | decl declared =>
      rw [Lowering.target, Lowering.declaration_eq]
      exact makes_introduce declared _ computes_pure

theorem makes_statement (node : Node) :
    place.Makes (Lowering.statement node)
      fun state => (node.declared?.bind (·.accepted state)).toList := by
  cases node with
  | decl declared => exact (makes_target (.decl declared)).andThen fun _ => computes_pure ()
  | assign target value =>
      apply (makes_target target).andThen
      intro slot
      apply ((computes_value value).inside .assignedValue).andThen
      intro operand
      exact computes_emit_map "" (by simp) fun _ => ()
  | call name args =>
      have computes : place.Computes (Lowering.call name args) := by
        apply (computes_callee name args.length).andThen
        intro index
        apply (computes_arguments name 1 args).andThen
        intro operands
        exact computes_emitCall index name operands
      exact computes.andThen fun _ => computes_pure ()
  | ret nodes =>
      exact (computes_values nodes).andThen fun operands =>
        computes_emit_map "" (by simp) fun _ => ()
  | literal => exact computes_fail _
  | var => exact computes_fail _
  | binary => exact computes_fail _
  | signature => exact computes_fail _
  | function => exact computes_fail _
  | group => exact computes_fail _

end Workplace

end Tuplet
