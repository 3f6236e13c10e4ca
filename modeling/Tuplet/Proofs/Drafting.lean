import Tuplet.Proofs.Emission
import Tuplet.Proofs.Lookup

/-!
# Lowering follows its emissions

A site is where a body is lowered: the builder as it was when the body was
opened, the frames of names around, and what has been told by then. Together
with a draft it determines the whole state of lowering. Each step of lowering
that starts from the state of a draft ends in the state of the draft and what
its emission adds, with the emission's outcome, whether it succeeds or fails. A
failure of the emission is what a failing step has told.

Slots are put behind the latest one, which is found by its id. That this is the
end of the slots rests on ids being distinct, so every step also keeps drafts
valid.
-/

namespace Tuplet

open Ir (Builder Function Module Operand Instruction)

namespace Draft

/-- The ids of a draft, in any order, are all that have been given out. -/
def Valid (draft : Draft) : Prop :=
  (draft.instructions.map (·.id)).Perm (List.range draft.next)

theorem valid_empty : empty.Valid := by simp [Valid, instructions, next]

/-- A draft stays valid when an instruction with the next id is put anywhere. -/
theorem Valid.add {draft more : Draft} {instruction : Instruction} (valid : draft.Valid)
    (added : more.instructions.Perm (instruction :: draft.instructions))
    (newId : instruction.id = draft.next) (next : more.next = draft.next + 1) : more.Valid := by
  calc more.instructions.map (·.id)
    _ |>.Perm (draft.next :: draft.instructions.map (·.id)) := by
        simpa [newId] using added.map (·.id)
    _ |>.Perm (draft.next :: List.range draft.next) := .cons _ valid
    _ |>.Perm (List.range more.next) := by
        rw [next, List.range_succ]
        exact (List.perm_append_singleton _ _).symm

theorem Valid.distinct {draft : Draft} (valid : draft.Valid) :
    (draft.instructions.map (·.id)).Nodup :=
  valid.nodup_iff.mpr List.nodup_range

theorem Valid.emit {draft : Draft} (valid : draft.Valid) (name : String) (action : Ir.Action) :
    (draft ++ ⟨[], [⟨draft.next, name, action⟩]⟩).Valid := by
  have added : (draft ++ ⟨[], [⟨draft.next, name, action⟩]⟩).instructions.Perm
      (⟨draft.next, name, action⟩ :: draft.instructions) := by
    simpa [instructions] using
      List.perm_append_singleton _ (draft.slots.map slotInstruction ++ draft.code)
  exact valid.add added rfl (by simp [next, Nat.add_assoc])

theorem Valid.allocate {draft : Draft} (valid : draft.Valid) (type : Ir.ValueType)
    (name : String) : (draft ++ ⟨[(name, ⟨draft.next, type⟩)], []⟩).Valid := by
  have added : (draft ++ ⟨[(name, ⟨draft.next, type⟩)], []⟩).instructions.Perm
      (slotInstruction (name, ⟨draft.next, type⟩) :: draft.instructions) := by
    simp [instructions]
  exact valid.add added rfl (by simp [next, Nat.add_right_comm])

end Draft

/-- A function has the parameters and results that a profile says. -/
structure Profile.Fits (profile : Profile) (function : Function) : Prop where
  params : function.params.map (·.type) = profile.params
  returns : function.returns = .ofReturns profile.returns

/-- The functions of a module are those that have profiles. -/
structure Declares (functions : List Function) (profile? : String → Option Profile) : Prop where
  unknown : ∀ name, profile? name = none → functions.findIdx? (·.name == name) = none
  known : ∀ name profile, profile? name = some profile →
    ∃ index function, functions.findIdx? (·.name == name) = some index ∧
      functions[index]? = some function ∧ function.name = name ∧ profile.Fits function

theorem findIdx?_set {functions : List Function} {index : Nat} {old new : Function}
    (found : functions[index]? = some old) (sameName : new.name = old.name) (name : String) :
    (functions.set index new).findIdx? (·.name == name) =
      functions.findIdx? (·.name == name) := by
  have names : (functions.set index new).map (·.name) = functions.map (·.name) := by
    apply List.ext_getElem?
    intro position
    by_cases same : index = position
    · subst same
      obtain ⟨inRange, rfl⟩ := List.getElem?_eq_some_iff.mp found
      simp [inRange, sameName]
    · simp [same]
  have search : ∀ list : List Function,
      list.findIdx? (·.name == name) = (list.map (·.name)).findIdx? (· == name) := by
    intro list
    rw [List.findIdx?_map]
    rfl
  rw [search, search, names]

theorem Declares.set {functions : List Function} {profile? : String → Option Profile}
    {index : Nat} {old new : Function} (declares : Declares functions profile?)
    (found : functions[index]? = some old) (sameName : new.name = old.name)
    (sameParams : new.params = old.params) (sameReturns : new.returns = old.returns) :
    Declares (functions.set index new) profile? where
  unknown name undeclared := by
    rw [findIdx?_set found sameName]
    exact declares.unknown name undeclared
  known name profile declared := by
    obtain ⟨position, function, position?, present, named, fits⟩ :=
      declares.known name profile declared
    rw [findIdx?_set found sameName]
    by_cases same : index = position
    · subst same
      obtain rfl := Option.some.inj (found.symm.trans present)
      refine ⟨index, new, position?, ?_, by rw [sameName, named],
        by rw [sameParams]; exact fits.params, by rw [sameReturns]; exact fits.returns⟩
      simp [(List.getElem?_eq_some_iff.mp found).1]
    · exact ⟨position, function, position?, by simpa [List.getElem?_set, same] using present,
        named, fits⟩

namespace Lowering

variable {α : Type} {state : LoweringState}

theorem build_of_ok {operation : Ir.Build α} {value : α} {builder : Builder}
    (operated : operation state.builder = .ok value builder) :
    build operation state = .ok value { state with builder } :=
  telling_of_ok (by simp only [attempt, operated])

theorem build_eq_of_eq {operation other : Ir.Build α}
    (same : operation state.builder = other state.builder) :
    build operation state = build other state := by
  simp only [build, report, telling, attempt, same]

end Lowering

/-- A function that is declared in a builder, and what its body is lowered behind. -/
structure Site where
  builder : Builder
  index : Nat
  function : Function
  /-- The frames around the body. -/
  frames : List (List (String × Ir.Slot))
  /-- What has been told before the body. -/
  log : List Diagnostic
  found : builder.module.functions[index]? = some function

namespace Site

/-- The state of lowering when the body has come to a draft. -/
def state (site : Site) (draft : Draft) : LoweringState where
  builder :=
    { module :=
        { site.builder.module with
          functions := site.builder.module.functions.set site.index (draft.fill site.function) }
      cursor := some site.index }
  scope := ⟨draft.slots.reverse :: site.frames⟩
  body := some ⟨site.index, draft.lastSlot⟩
  log := site.log

/-- The result of a step that starts from a draft and has an outcome. -/
def result {α : Type} (site : Site) (draft : Draft)
    (outcome : Draft × Except LoweringFailure α) :
    EStateM.Result LoweringError LoweringState α :=
  match outcome.2 with
  | .ok value => .ok value (site.state (draft ++ outcome.1))
  | .error failure => Lowering.raise failure (site.state (draft ++ outcome.1))

/-- A step does what an emission says, and keeps the draft valid. -/
structure Follows {α : Type} (site : Site) (draft : Draft) (step : Lowering α)
    (emission : Emission α) : Prop where
  step_eq : step (site.state draft) = site.result draft (emission draft)
  valid : (draft ++ (emission draft).1).Valid

variable {α β : Type} {site : Site} {draft : Draft}

theorem function?_state (site : Site) (draft : Draft) :
    (site.state draft).builder.function? site.index = some (draft.fill site.function) := by
  have inRange : site.index < site.builder.module.functions.length :=
    (List.getElem?_eq_some_iff.mp site.found).1
  simp [state, Builder.function?, inRange]

theorem follows_pure (valid : draft.Valid) (value : α) :
    site.Follows draft (pure value) (pure value) :=
  ⟨by simp [result, pure, EStateM.pure], by simpa [pure] using valid⟩

theorem follows_fail (valid : draft.Valid) (error : LoweringError) :
    site.Follows draft (Lowering.fail error : Lowering α) (Emission.fail error) :=
  ⟨by simp [result, Emission.fail, Lowering.fail_eq_raise], by simpa [Emission.fail] using valid⟩

/-- Steps in sequence do what emissions in sequence say. -/
theorem follows_bind {step : Lowering α} {next : α → Lowering β} {emission : Emission α}
    {more : α → Emission β} (first : site.Follows draft step emission)
    (second : ∀ value, (emission draft).2 = .ok value → (draft ++ (emission draft).1).Valid →
      site.Follows (draft ++ (emission draft).1) (next value) (more value)) :
    site.Follows draft (step >>= next) (emission >>= more) := by
  obtain ⟨stepped, valid⟩ := first
  rcases outcome : emission draft with ⟨added, failure | value⟩
  · rw [outcome] at stepped valid
    refine ⟨?_, by simpa [bind, outcome] using valid⟩
    rw [Lowering.bind_of_raise stepped]
    simp [bind, outcome, result]
  · rw [outcome] at stepped valid second
    obtain ⟨continued, valid⟩ := second value rfl valid
    refine ⟨?_, by simpa [bind, outcome, Draft.append_assoc] using valid⟩
    rw [Result.bind_of_ok stepped, continued]
    simp [bind, outcome, result, Draft.append_assoc]

theorem follows_fail_bind {next : α → Lowering β} (valid : draft.Valid) (error : LoweringError) :
    site.Follows draft (Lowering.fail error >>= next) (Emission.fail error) :=
  follows_fail valid error

/-- From a draft, a step may be followed as another one that does the same there. -/
theorem follows_congr {step other : Lowering α} {emission more : Emission α}
    (stepped : step (site.state draft) = other (site.state draft))
    (emitted : emission draft = more draft) (follows : site.Follows draft other more) :
    site.Follows draft step emission :=
  ⟨by rw [stepped, emitted, follows.step_eq], by rw [emitted]; exact follows.valid⟩

theorem follows_inside {step : Lowering α} {emission : Emission α} (context : LoweringContext)
    (follows : site.Follows draft step emission) :
    site.Follows draft (Lowering.inside context step) (Emission.inside context emission) := by
  obtain ⟨stepped, valid⟩ := follows
  refine ⟨?_, valid⟩
  rcases outcome : emission draft with ⟨added, failure | value⟩
  · rw [outcome] at stepped
    rw [Lowering.inside_of_raise stepped]
    simp [Emission.inside, outcome, result]
  · rw [outcome] at stepped
    rw [Lowering.inside_of_ok stepped]
    simp [Emission.inside, outcome, result]

theorem current_state (site : Site) (draft : Draft) :
    Ir.Build.current (site.state draft).builder =
      .ok (site.index, draft.fill site.function) (site.state draft).builder := by
  have cursor : (site.state draft).builder.cursor = some site.index := rfl
  simp only [Ir.Build.current, Result.get_bind, cursor, site.function?_state draft,
    Result.pure_apply]

theorem makeInstruction_state (site : Site) (draft : Draft) (name : String) (action : Ir.Action) :
    Ir.Build.makeInstruction name action (site.state draft).builder =
      .ok (site.index, { draft.fill site.function with nextId := draft.next + 1 },
          ⟨draft.next, name, action⟩)
        ((site.state draft).builder.setFunction site.index
          { draft.fill site.function with nextId := draft.next + 1 }) := by
  rw [Ir.Build.makeInstruction, Result.bind_of_ok (site.current_state draft)]
  rfl

theorem setFunction_state (site : Site) (draft more : Draft) (function : Function) :
    ((site.state draft).builder.setFunction site.index function).setFunction site.index
        (more.fill site.function) = (site.state more).builder := by
  simp [Builder.setFunction, state]

theorem emit_state (site : Site) (draft : Draft) (name : String) (action : Ir.Action) :
    Ir.Build.emit name action (site.state draft).builder =
      .ok draft.next (site.state (draft ++ ⟨[], [⟨draft.next, name, action⟩]⟩)).builder := by
  have filled : (draft ++ ⟨[], [⟨draft.next, name, action⟩]⟩).fill site.function =
      { draft.fill site.function with
        blocks := [⟨"entry", draft.instructions ++ [⟨draft.next, name, action⟩]⟩]
        nextId := draft.next + 1 } := by
    simp [Draft.fill, Draft.instructions, Draft.next, Nat.add_assoc]
  rw [← site.setFunction_state draft (draft ++ ⟨[], [⟨draft.next, name, action⟩]⟩)
    { draft.fill site.function with nextId := draft.next + 1 }, filled]
  rw [Ir.Build.emit, Result.bind_of_ok (site.makeInstruction_state draft name action)]
  rfl

theorem follows_emit (valid : draft.Valid) (name : String) (action : Ir.Action) :
    site.Follows draft (Lowering.build (Ir.Build.emit name action))
      (Emission.emit name action) := by
  refine ⟨?_, valid.emit name action⟩
  rw [Lowering.build_of_ok (site.emit_state draft name action)]
  simp [result, Emission.emit, state, Draft.lastSlot]

theorem build_bind (operation : Ir.Build α) (next : α → Ir.Build β) :
    Lowering.build (operation >>= next) =
      Lowering.build operation >>= fun value => Lowering.build (next value) := by
  funext state
  cases operated : operation state.builder <;>
    simp [Lowering.build, Lowering.report, Lowering.telling, Lowering.attempt, bind, EStateM.bind,
      operated]

theorem follows_emit_map (valid : draft.Valid) (name : String) (action : Ir.Action)
    (use : Nat → α) :
    site.Follows draft (Lowering.build (Ir.Build.emit name action >>= fun id => pure (use id)))
      (Emission.emit name action >>= fun id => pure (use id)) := by
  rw [build_bind]
  apply follows_bind (follows_emit valid name action)
  intro id _ valid
  exact follows_pure valid (use id)

theorem follows_store (valid : draft.Valid) (slot : Ir.Slot) (operand : Operand) :
    site.Follows draft (Lowering.build (Ir.Build.store slot operand))
      (Emission.store slot operand) :=
  follows_emit_map valid "" (.store operand (.instr slot.id)) fun _ => ()

theorem insertAfter_append {id : Nat} {instruction : Instruction}
    {before rest : List Instruction} (others : ∀ other ∈ before, other.id ≠ id) :
    Ir.Block.insertAfter id instruction (before ++ rest) =
      (Ir.Block.insertAfter id instruction rest).map (before ++ ·) := by
  induction before with
  | nil => simp
  | cons first before ih =>
      simp only [List.forall_mem_cons] at others
      simp [Ir.Block.insertAfter, others.1, ih others.2, Function.comp_def]

/-- A slot is put behind the latest one, in front of everything else. -/
theorem insertSlot_draft (distinct : (draft.instructions.map (·.id)).Nodup)
    (instruction : Instruction) :
    Ir.Block.insertSlot draft.lastSlot instruction draft.instructions =
      some (draft.slots.map Draft.slotInstruction ++ instruction :: draft.code) := by
  simp only [Draft.lastSlot, Draft.instructions] at distinct ⊢
  rcases List.eq_nil_or_concat' draft.slots with noSlots | ⟨earlier, latest, slotsEq⟩
  · simp [noSlots, Ir.Block.insertSlot]
  · have others : ∀ other ∈ earlier.map Draft.slotInstruction, other.id ≠ latest.2.id := by
      intro other member same
      rw [slotsEq, List.map_append, List.map_append, List.map_append, List.append_assoc,
        List.nodup_append] at distinct
      exact distinct.2.2 other.id (List.mem_map_of_mem member) latest.2.id
        (by simp [Draft.slotInstruction]) same
    simp [slotsEq, Ir.Block.insertSlot, insertAfter_append others, Ir.Block.insertAfter,
      Draft.slotInstruction]

theorem allocaAfter_state (site : Site) (valid : draft.Valid) (type : Ir.ValueType)
    (name : String) :
    Ir.Build.allocaAfter draft.lastSlot type name (site.state draft).builder =
      .ok ⟨draft.next, type⟩
        (site.state (draft ++ ⟨[(name, ⟨draft.next, type⟩)], []⟩)).builder := by
  have filled : (draft ++ ⟨[(name, ⟨draft.next, type⟩)], []⟩).fill site.function =
      { draft.fill site.function with
        blocks := [⟨"entry", draft.slots.map Draft.slotInstruction ++
          ⟨draft.next, name, .alloca type⟩ :: draft.code⟩]
        nextId := draft.next + 1 } := by
    simp [Draft.fill, Draft.instructions, Draft.slotInstruction, Draft.next, Nat.add_right_comm]
  rw [← site.setFunction_state draft (draft ++ ⟨[(name, ⟨draft.next, type⟩)], []⟩)
    { draft.fill site.function with nextId := draft.next + 1 }, filled]
  rw [Ir.Build.allocaAfter,
    Result.bind_of_ok (site.makeInstruction_state draft name (.alloca type))]
  simp only [Draft.fill, insertSlot_draft valid.distinct]
  rfl

theorem follows_allocate (valid : draft.Valid) (type : Ir.ValueType) (name : String) :
    site.Follows draft (Lowering.allocate type name) (Emission.allocate type name) := by
  refine ⟨?_, valid.allocate type name⟩
  have made : Lowering.build (Ir.Build.allocaAfter draft.lastSlot type name) (site.state draft) =
      .ok ⟨draft.next, type⟩
        { site.state draft with
          builder := (site.state (draft ++ ⟨[(name, ⟨draft.next, type⟩)], []⟩)).builder } :=
    Lowering.build_of_ok (allocaAfter_state site valid type name)
  have latest : (site.state draft).body.bind (·.lastSlot) = draft.lastSlot := rfl
  rw [Lowering.allocate, Result.get_bind, latest, Result.bind_of_ok made]
  simp [result, Emission.allocate, state, Scope.bind, Draft.lastSlot]

/-- A site lies among functions with profiles and frames of names. -/
structure Among (site : Site) (around : Surroundings) : Prop where
  frames : site.frames = around.frames
  declares : Declares site.builder.module.functions around.profile?

theorem Among.state {around : Surroundings} (among : site.Among around) (draft : Draft) :
    Declares (site.state draft).builder.module.functions around.profile? :=
  among.declares.set site.found rfl rfl rfl

variable {around : Surroundings}

/-- A step that first looks a name up does what the emission for its slot says. -/
theorem follows_slot? (among : site.Among around) {name : String}
    {step : LoweringState → Lowering α} {more : Option Ir.Slot → Emission α}
    (continued : site.Follows draft (step (site.state draft))
      (more ((site.state draft).scope.lookup name))) :
    site.Follows draft (get >>= step) (Emission.slot? around name >>= more) := by
  refine follows_congr ?_ ?_ continued
  · simp
  · simp [bind, Emission.slot?, Site.state, among.frames]

theorem follows_resolve (valid : draft.Valid) (name : String) :
    site.Follows draft (Lowering.resolve name) (Emission.resolve name) := by
  unfold Lowering.resolve Lowering.typeNamed Emission.resolve
  cases Primitive.ofName? name with
  | none => exact follows_fail valid (.unknownType name)
  | some primitive =>
      cases resolved : Ir.ValueType.ofPrimitive primitive with
      | ok type =>
          simp only [resolved]
          exact follows_pure valid type
      | error error =>
          simp only [resolved]
          exact follows_fail valid (.build error)

theorem follows_slotOf (among : site.Among around) (valid : draft.Valid) (name : String) :
    site.Follows draft (Lowering.slotOf name) (Emission.slotOf around name) := by
  apply follows_slot? among
  cases (site.state draft).scope.lookup name with
  | none => exact follows_fail valid (.notDeclared name)
  | some slot => exact follows_pure valid slot

theorem follows_declaration (among : site.Among around) (valid : draft.Valid)
    (declared : Declaration) :
    site.Follows draft (Lowering.declaration declared) (Emission.declaration around declared) := by
  apply follows_slot? among
  cases (site.state draft).scope.lookup declared.name with
  | some slot => exact follows_fail valid (.nameTaken declared.name)
  | none =>
      apply follows_bind (follows_resolve valid declared.type)
      intro type _ valid
      exact follows_allocate valid type declared.name

/-- The function at an index has a name and a profile, whatever the draft has come to. -/
def Names (site : Site) (index : Nat) (name : String) (profile : Profile) : Prop :=
  ∀ draft, ∃ function, (site.state draft).builder.function? index = some function ∧
    function.name = name ∧ profile.Fits function

/-- A function that has a profile stands at the same index whatever the draft has come to. -/
theorem Among.known (among : site.Among around) {name : String} {profile : Profile}
    (known : around.profile? name = some profile) :
    ∃ index, site.Names index name profile ∧
      ∀ draft, (site.state draft).builder.module.index? name = some index := by
  obtain ⟨index, _, found, _⟩ := among.declares.known name profile known
  have indexed : ∀ draft, (site.state draft).builder.module.index? name = some index := by
    intro draft
    have sameName : (draft.fill site.function).name = site.function.name := rfl
    exact (findIdx?_set site.found sameName name).trans found
  refine ⟨index, ?_, indexed⟩
  intro draft
  obtain ⟨other, function, otherFound, present, named, fits⟩ :=
    (among.state draft).known name profile known
  obtain rfl : index = other := Option.some.inj ((indexed draft).symm.trans otherFound)
  exact ⟨function, present, named, fits⟩

/-- A step that first looks a function up does what the emission for its profile says. -/
theorem follows_callee (among : site.Among around) (valid : draft.Valid) {name : String}
    {given : Nat} {step : Nat → Lowering α} {more : Profile → Emission α}
    (continued : ∀ index profile, site.Names index name profile →
      site.Follows draft (step index) (more profile)) :
    site.Follows draft (Lowering.callee name given >>= step)
      (Emission.callee around name given >>= more) := by
  cases known : around.profile? name with
  | none =>
      have unknown : (site.state draft).builder.module.index? name = none :=
        (among.state draft).unknown name known
      have failed : Lowering.callee name given (site.state draft) =
          Lowering.fail (.unknownFunction name) (site.state draft) := by
        simp [Lowering.callee, unknown]
      refine follows_congr (Result.bind_eq_of_eq failed) ?_
        (follows_fail_bind valid (.unknownFunction name))
      simp [bind, Emission.callee, Emission.fail, known]
  | some profile =>
      obtain ⟨index, names, indexed⟩ := among.known known
      have counted : (site.state draft).builder.paramCount index = profile.params.length := by
        obtain ⟨function, present, _, fits⟩ := names draft
        simp [Builder.paramCount, present, ← fits.params]
      by_cases enough : profile.params.length = given
      · have passed : Lowering.callee name given (site.state draft) =
            .ok index (site.state draft) := by
          simp [Lowering.callee, indexed draft, counted, enough]
        refine follows_congr (Result.bind_of_ok passed) ?_ (continued index profile names)
        simp [bind, Emission.callee, known, enough, pure]
      · have failed : Lowering.callee name given (site.state draft) =
            Lowering.fail (.argumentCount name profile.params.length given)
              (site.state draft) := by
          simp [Lowering.callee, indexed draft, counted, enough]
        refine follows_congr (Result.bind_eq_of_eq failed) ?_
          (follows_fail_bind valid (.argumentCount name profile.params.length given))
        simp [bind, Emission.callee, Emission.fail, known, enough]

theorem follows_emitCall {index : Nat} {name : String} {profile : Profile} (valid : draft.Valid)
    (names : site.Names index name profile) (args : List Operand) :
    site.Follows draft (Lowering.emitCall index name args)
      (Emission.emitCall profile name args) := by
  obtain ⟨function, present, named, fits⟩ := names draft
  have isVoid : function.returns = .void ↔ profile.returns = [] := by
    rw [fits.returns]
    cases profile.returns <;> simp [Ir.ValueType.ofReturns]
  have called : Ir.Build.call index args name (site.state draft).builder =
      (Ir.Build.emit name (.call name args) >>= fun id =>
        pure (if profile.returns = [] then none else some (.instr id)))
          (site.state draft).builder := by
    have this : Ir.Build.function index (site.state draft).builder =
      .ok function (site.state draft).builder := by simp [Ir.Build.function, present]
    rw [Ir.Build.call, Result.bind_of_ok this]
    simp only [named, isVoid]
  have stepped : Lowering.emitCall index name args (site.state draft) =
      (Lowering.build (Ir.Build.emit name (.call name args)) >>= fun id =>
        if profile.returns = [] then pure none
        else Lowering.build (Ir.Build.emit "" (.extract (.instr id) 0) >>= fun first =>
          pure (some (.instr first)))) (site.state draft) := by
    have lowered : Lowering.build (Ir.Build.call index args name) (site.state draft) =
        (Lowering.build (Ir.Build.emit name (.call name args)) >>= fun id =>
          pure (if profile.returns = [] then none else some (.instr id))) (site.state draft) := by
      rw [Lowering.build_eq_of_eq called, build_bind]
      rfl
    rw [Lowering.emitCall, Result.bind_eq_of_eq lowered, bind_assoc]
    simp only [pure_bind]
    by_cases nothing : profile.returns = []
    · simp only [nothing, if_true]
    · simp only [nothing, if_false, Ir.Build.extract, build_bind, bind_assoc]
      rfl
  refine follows_congr stepped rfl (follows_bind (follows_emit valid name (.call name args)) ?_)
  intro id _ valid
  split
  · exact follows_pure valid none
  · exact follows_emit_map valid "" (.extract (.instr id) 0)
      (fun first => some (Operand.instr first))

theorem follows_emitOperator (valid : draft.Valid) (op : Operator) (left right : Operand) :
    site.Follows draft (Lowering.emitOperator op left right)
      (Emission.emitOperator op left right) := by
  unfold Lowering.emitOperator Emission.emitOperator
  cases op.arithmetic? with
  | none => exact follows_fail valid (.unsupportedOperator op)
  | some arithmetic => exact follows_emit_map valid "" (.arith arithmetic left right) Operand.instr

mutual

theorem follows_value (among : site.Among around) : ∀ (node : Node) {draft : Draft}, draft.Valid →
    site.Follows draft (Lowering.value node) (Emission.value around node)
  | .literal number, _, valid => by
      rw [Lowering.value, Emission.value]
      exact follows_pure valid (Operand.const number)
  | .var use, _, valid => by
      rw [Lowering.value, Emission.value]
      apply follows_bind (follows_slotOf among valid use.name)
      intro slot _ valid
      exact follows_emit_map valid use.name (.load slot.type (.instr slot.id)) Operand.instr
  | .binary op left right, _, valid => by
      rw [Lowering.value, Emission.value]
      apply follows_bind (follows_value among left valid)
      intro leftOperand _ valid
      apply follows_bind (follows_value among right valid)
      intro rightOperand _ valid
      exact follows_emitOperator valid op leftOperand rightOperand
  | .call name args, _, valid => by
      rw [Lowering.value, Emission.value]
      apply follows_callee among valid
      intro index profile names
      apply follows_bind (follows_arguments among name 1 args valid)
      intro operands _ valid
      apply follows_bind (follows_emitCall valid names operands)
      intro result _ valid
      cases result with
      | none => exact follows_fail valid (.noResult name)
      | some operand => exact follows_pure valid operand
  | .group inner, _, valid => by
      rw [Lowering.value, Emission.value]
      exact follows_value among inner valid
  | .assign _ _, _, valid => by
      rw [Lowering.value, Emission.value]
      exact follows_fail valid (.notAValue .assign)
  | .decl _, _, valid => by
      rw [Lowering.value, Emission.value]
      exact follows_fail valid (.notAValue .decl)
  | .signature _, _, valid => by
      rw [Lowering.value, Emission.value]
      exact follows_fail valid (.notAValue .signature)
  | .function _ _, _, valid => by
      rw [Lowering.value, Emission.value]
      exact follows_fail valid (.notAValue .function)
  | .ret _, _, valid => by
      rw [Lowering.value, Emission.value]
      exact follows_fail valid (.notAValue .ret)

theorem follows_arguments (among : site.Among around) (name : String) (position : Nat) :
    ∀ (args : List Node) {draft : Draft}, draft.Valid →
      site.Follows draft (Lowering.arguments name position args)
        (Emission.arguments around name position args)
  | [], _, valid => by
      rw [Lowering.arguments, Emission.arguments]
      exact follows_pure valid []
  | arg :: rest, _, valid => by
      rw [Lowering.arguments, Emission.arguments]
      apply follows_bind
        (follows_inside (.argument position name) (follows_value among arg valid))
      intro operand _ valid
      apply follows_bind (follows_arguments among name (position + 1) rest valid)
      intro operands _ valid
      exact follows_pure valid (operand :: operands)

end

theorem follows_call (among : site.Among around) (valid : draft.Valid) (name : String)
    (args : List Node) :
    site.Follows draft (Lowering.call name args) (Emission.call around name args) := by
  apply follows_callee among valid
  intro index profile names
  apply follows_bind (follows_arguments among name 1 args valid)
  intro operands _ valid
  exact follows_emitCall valid names operands

theorem follows_values (among : site.Among around) (valid : draft.Valid) (nodes : List Node) :
    site.Follows draft (Lowering.values nodes) (Emission.values around nodes) := by
  induction nodes generalizing draft with
  | nil => exact follows_pure valid []
  | cons node rest ih =>
      apply follows_bind (follows_value among node valid)
      intro operand _ valid
      apply follows_bind (ih valid)
      intro operands _ valid
      exact follows_pure valid (operand :: operands)

theorem follows_target (among : site.Among around) (valid : draft.Valid) (assigned : Target) :
    site.Follows draft (Lowering.target assigned) (Emission.target around assigned) := by
  cases assigned with
  | var use => exact follows_slotOf among valid use.name
  | decl declared => exact follows_declaration among valid declared

theorem follows_statement (among : site.Among around) (valid : draft.Valid) (node : Node) :
    site.Follows draft (Lowering.statement node) (Emission.statement around node) := by
  cases node with
  | decl declared =>
      apply follows_bind (follows_declaration among valid declared)
      intro _ _ valid
      exact follows_pure valid ()
  | assign assigned node =>
      apply follows_bind (follows_target among valid assigned)
      intro slot _ valid
      apply follows_bind (follows_inside .assignedValue (follows_value among node valid))
      intro operand _ valid
      exact follows_store valid slot operand
  | call name args =>
      apply follows_bind (follows_call among valid name args)
      intro _ _ valid
      exact follows_pure valid ()
  | ret nodes =>
      apply follows_bind (follows_values among valid nodes)
      intro operands _ valid
      exact follows_emit_map valid "" (.ret operands) fun _ => ()
  | literal value => exact follows_fail valid (.notAStatement .literal)
  | var use => exact follows_fail valid (.notAStatement .var)
  | binary op left right => exact follows_fail valid (.notAStatement .binary)
  | signature header => exact follows_fail valid (.notAStatement .signature)
  | function header body => exact follows_fail valid (.notAStatement .function)
  | group inner => exact follows_fail valid (.notAStatement .group)

theorem follows_statements (among : site.Among around) (valid : draft.Valid)
    (nodes : List Node) :
    site.Follows draft (Lowering.statements nodes) (Emission.statements around nodes) := by
  induction nodes generalizing draft with
  | nil => exact follows_pure valid ()
  | cons node rest ih =>
      apply follows_bind
        (follows_inside (.statement node.form) (follows_statement among valid node))
      intro _ _ valid
      exact ih valid

theorem follows_parameters (among : site.Among around) (valid : draft.Valid) {position : Nat}
    {params : List Parameter}
    (inRange : position + params.length ≤ site.function.params.length) :
    site.Follows draft (Lowering.parameters site.index position params)
      (Emission.parameters around position params) := by
  induction params generalizing draft position with
  | nil => exact follows_pure valid ()
  | cons param rest ih =>
      simp only [List.length_cons] at inRange
      apply follows_slot? among
      cases (site.state draft).scope.lookup param.name with
      | some slot => exact follows_fail valid (.parameterTaken param.name)
      | none =>
          apply follows_bind (follows_resolve valid param.type)
          intro type _ valid
          apply follows_bind (follows_allocate valid type param.name)
          intro slot _ valid
          have given (draft : Draft) :
              Lowering.build (Ir.Build.param site.index position) (site.state draft) =
                .ok (.param position) (site.state draft) := by
            have here : Ir.Build.function site.index (site.state draft).builder =
                .ok (draft.fill site.function) (site.state draft).builder := by
              simp [Ir.Build.function, site.function?_state draft]
            have enough : position < (draft.fill site.function).params.length := by
              simp only [Draft.fill]
              omega
            have operated : Ir.Build.param site.index position (site.state draft).builder =
                .ok (.param position) (site.state draft).builder := by
              simp only [Ir.Build.param, Result.bind_of_ok here, enough, if_true,
                Result.pure_apply]
            exact Lowering.build_of_ok operated
          refine follows_congr (Result.bind_of_ok (given _)) rfl
            (follows_bind (follows_store valid slot (.param position)) ?_)
          intro _ _ valid
          exact ih valid (by omega)

/-- Lowering a body does what its emission says. -/
theorem follows_body (among : site.Among around) (valid : draft.Valid)
    {params : List Parameter} (inRange : params.length ≤ site.function.params.length)
    (nodes : List Node) :
    site.Follows draft
      (Lowering.parameters site.index 0 params >>= fun _ => Lowering.statements nodes)
      (Emission.body around params nodes) := by
  apply follows_bind (follows_parameters among valid (by omega))
  intro _ _ valid
  exact follows_statements among valid nodes

end Site

end Tuplet
