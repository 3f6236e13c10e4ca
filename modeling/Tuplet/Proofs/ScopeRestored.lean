import Tuplet.Proofs.StackSlots
import Tuplet.Proofs.Undisturbed

/-!
# Items leave the scope as it was

A body has a frame of names of its own. It is opened before anything of the body is lowered, and
closed whether or not lowering the body fails. While the body is lowered, names are only bound in
that frame. So the scope around a body is seen in the body and is still there afterwards, and the
names of the body are gone.

The scope may be any: there may be names that stand for slots of other functions, or no frame at
all.
-/

namespace Tuplet

open Ir (Function)

namespace Lowering

variable {header : Signature} {state opened entered : LoweringState} {index : Nat}

/-- To tell of an error does nothing to the scope. -/
theorem scope_telling {α : Type} (remark : LoweringError → Diagnostic) (step : Lowering α)
    (state : LoweringState) :
    (Result.leftState (telling remark step state)).scope =
      (Result.leftState (step state)).scope := by
  rcases Workplace.leftState_telling remark step state with ⟨log, same⟩
  rw [same]
  rfl

theorem scope_signature (unknown : state.builder.module.index? header.name = none) :
    (Result.leftState (signature header state)).scope = state.scope := by
  rcases signature_cases unknown with ⟨_, function, _, signed⟩ | ⟨_, failure, failed⟩
  · rw [signed]
    rfl
  · rw [failed]
    rfl

theorem scope_definedFunction (header : Signature) (state : LoweringState) :
    (Result.leftState (definedFunction header state)).scope = state.scope := by
  rw [definedFunction, Result.get_bind]
  cases found : state.builder.module.index? header.name with
  | none => exact (scope_telling _ _ state).trans (scope_signature found)
  | some index =>
      dsimp only
      split
      · rfl
      · split <;> rfl

theorem scope_opened (begins : definedFunction header state = .ok index opened) :
    opened.scope = state.scope := by
  have kept := scope_definedFunction header state
  rw [begins] at kept
  exact kept

theorem scope_build {α : Type} (operation : Ir.Build α) (state : LoweringState) :
    (Result.leftState (build operation state)).scope = state.scope := by
  rw [build, report, scope_telling, attempt]
  cases operation state.builder <;> rfl

theorem scope_endBody (header : Signature) (state : LoweringState) :
    (Result.leftState (endBody header state)).scope = state.scope := by
  rw [endBody, Result.get_bind]
  split
  · exact scope_build _ state
  · rfl

/-- A name stands for a slot that has been made for one of some declarations in a function. -/
structure MadeIn (index : Nat) (declared : List Declaration) (state : LoweringState)
    (binding : String × Ir.Slot) : Prop where
  declared : binding.1 ∈ declared.map (·.name)
  made : ∃ function, state.builder.function? index = some function ∧
    Draft.slotInstruction binding ∈ function.code

/-- However far a body is lowered, its names are in a frame above the scope around it. -/
theorem frames_lowerAll (begins : definedFunction header state = .ok index opened)
    (enters : openBody index opened = .ok () entered) {body : List Node} {done rest : List BodyPart}
    (parts : BodyPart.all index header.params body = done ++ rest) :
    let reached := Result.leftState (BodyPart.lowerAll done entered)
    ∃ frame, reached.scope.frames = frame :: opened.scope.frames ∧
      ∀ binding ∈ frame, MadeIn index (done.filterMap (·.declared?)) reached binding := by
  intro reached
  rcases noBlocks_of_definedFunction begins with ⟨before, found, noBlocks⟩
  rcases openBody_shows found noBlocks with ⟨_, entersSo, shows⟩
  cases enters.symm.trans entersSo
  have faithful := BodyPart.faithful_all index header.params body
    ⟨index, before.nextId, opened.scope.frames⟩
  rw [parts, List.forall_mem_append] at faithful
  rcases BodyPart.makes_lowerAll faithful.1 .empty entered shows with ⟨draft, declared, lowered⟩
  rw [Draft.empty_append] at lowered
  -- The frame has the names of the slots, and these are the first of the declared names.
  have names : draft.slots.map (·.1) <+: (done.filterMap (·.declared?)).map (·.name) := by
    have wanted := (BodyPart.reached_prefix faithful.1 entered).map Prod.fst
    rw [← declared] at wanted
    simpa [Draft.declared, Declaration.wanted, Function.comp_def] using wanted
  rcases lowered.fills.function with ⟨function, present, blocks, _⟩
  refine ⟨draft.slots.reverse, lowered.frames, ?_⟩
  intro binding bound
  rw [List.mem_reverse] at bound
  refine ⟨names.subset (List.mem_map_of_mem bound), function, present, ?_⟩
  rw [Function.code, blocks, List.flatMap_singleton]
  exact List.mem_append_left draft.code (List.mem_map_of_mem bound)

theorem scope_openBody (begins : definedFunction header state = .ok index opened) :
    ∃ entered, openBody index opened = .ok () entered ∧ entered.scope = state.scope.push := by
  rcases noBlocks_of_definedFunction begins with ⟨before, found, noBlocks⟩
  rcases openBody_shows found noBlocks with ⟨entered, enters, shows⟩
  refine ⟨entered, enters, ?_⟩
  rw [← scope_opened begins]
  exact congrArg Scope.mk shows.frames

/-- There is a frame to close behind a body, and it is the one that was opened for it. -/
theorem pop_body (begins : definedFunction header state = .ok index opened)
    (enters : openBody index opened = .ok () entered) (body : List Node) :
    (Result.leftState ((parameters index 0 header.params >>= fun _ => statements body)
      entered)).scope.pop = .ok state.scope := by
  have parts := List.append_nil (BodyPart.all index header.params body)
  rcases frames_lowerAll begins enters parts.symm with ⟨frame, frames, _⟩
  rw [BodyPart.lowerAll_all] at frames
  rw [Scope.pop, frames, ← scope_opened begins]

theorem scope_inBody {α : Type} {step : Lowering α} {scope : Scope Ir.Slot}
    (enters : openBody index opened = .ok () entered)
    (pops : (Result.leftState (step entered)).scope.pop = .ok scope) :
    (Result.leftState (inBody index step opened)).scope = scope := by
  rw [leftState_inBody step enters, closeBody]
  simp only [pops]

theorem scope_function (header : Signature) (body : List Node) (state : LoweringState) :
    (Result.leftState (Lowering.function header body state)).scope = state.scope := by
  have kept := scope_definedFunction header state
  cases begins : definedFunction header state with
  | error error after =>
      rw [begins] at kept
      rw [Lowering.function, Result.bind_of_error begins]
      exact kept
  | ok index opened =>
      rcases scope_openBody begins with ⟨entered, enters, _⟩
      rw [Lowering.function, Result.bind_of_ok begins]
      -- The frame of the body is closed, and behind it nothing is done with names.
      refine Result.leftState_bind (fun after : LoweringState => after.scope = state.scope)
        (scope_inBody enters (pop_body begins enters body)) ?_
      intro _ closed same
      refine Result.leftState_bind (fun after : LoweringState => after.scope = state.scope)
        ((scope_endBody header closed).trans same) ?_
      intro _ ended same
      rcases Workplace.leftState_check index ended with ⟨log, checked⟩
      refine Result.leftState_bind (fun after : LoweringState => after.scope = state.scope) ?_
        fun _ _ same => same
      rw [checked]
      exact same

theorem scope_item (node : Node) (state : LoweringState) :
    (Result.leftState (item node state)).scope = state.scope := by
  cases node with
  | function header body =>
      rw [item, inside, scope_telling]
      exact scope_function header body state
  | signature header =>
      rw [item, Result.get_bind]
      cases found : state.builder.module.index? header.name with
      | none => exact scope_signature found
      | some index => rfl
  | _ => rfl

theorem left_eq_leftState (result : EStateM.Result LoweringError LoweringState Nat) :
    left result = Result.leftState result := by
  cases result <;> rfl

theorem scope_items (state : LoweringState) (nodes : List Node) :
    (items state nodes).2.scope = state.scope := by
  induction nodes generalizing state with
  | nil => rfl
  | cons node rest ih =>
      rw [items_cons, ih, left_eq_leftState]
      exact scope_item node state

/-- What is seen through a frame was seen without it, or is in it. -/
theorem lookup_cases {scope inner : Scope Ir.Slot} {frame : List (String × Ir.Slot)}
    {name : String} {slot : Ir.Slot} (frames : inner.frames = frame :: scope.frames)
    (seen : inner.lookup name = some slot) :
    scope.lookup name = some slot ∨ (name, slot) ∈ frame := by
  rw [Scope.lookup, frames, List.findSome?_cons] at seen
  cases found : frame.lookup name with
  | none =>
      rw [found] at seen
      exact .inl seen
  | some other =>
      rw [found] at seen
      cases seen
      rcases List.lookup_eq_some_iff.mp found with ⟨before, rest, split, _⟩
      rw [split]
      exact .inr (List.mem_append_right before List.mem_cons_self)

/--
Items leave the scope as it was, whatever state lowering is in and whether or not they fail. A
body is lowered in a new frame above that scope, which is there to be closed behind it. However
far a body is lowered, a name that is seen there was seen before all items, or it stands for a
slot of that body.
-/
theorem scope_restored (state : LoweringState) :
    (∀ node, (Result.leftState (item node state)).scope = state.scope) ∧
      (∀ header body,
        (Result.leftState (Lowering.function header body state)).scope = state.scope) ∧
      (∀ nodes, (items state nodes).2.scope = state.scope) ∧
      ∀ before header body index opened,
        definedFunction header (items state before).2 = .ok index opened →
          ∃ entered, openBody index opened = .ok () entered ∧ entered.scope = state.scope.push ∧
            (Result.leftState ((parameters index 0 header.params >>= fun _ => statements body)
              entered)).scope.pop = .ok state.scope ∧
            ∀ done rest, BodyPart.all index header.params body = done ++ rest →
              let reached := Result.leftState (BodyPart.lowerAll done entered)
              ∀ name slot, reached.scope.lookup name = some slot →
                state.scope.lookup name = some slot ∨
                  MadeIn index (done.filterMap (·.declared?)) reached (name, slot) := by
  refine ⟨fun node => scope_item node state, fun header body => scope_function header body state,
    scope_items state, ?_⟩
  intro before header body index opened begins
  have same := scope_items state before
  rcases scope_openBody begins with ⟨entered, enters, pushed⟩
  have pops := pop_body begins enters body
  rw [same] at pushed pops
  refine ⟨entered, enters, pushed, pops, ?_⟩
  intro done rest parts reached name slot seen
  rcases frames_lowerAll begins enters parts with ⟨frame, frames, made⟩
  rw [scope_opened begins, same] at frames
  rcases lookup_cases frames seen with outside | bound
  · exact .inl outside
  · exact .inr (made (name, slot) bound)

theorem scope_restored_unfinished :
    let header : Signature := ⟨"f", [], [⟨"int", "a"⟩]⟩
    (outcome (item (.function header unfinished) crowded)).isOk = false ∧
      (Result.leftState (item (.function header unfinished) crowded)).scope = crowded.scope ∧
      definedFunction header crowded = .ok 0 crowded ∧
      ∃ entered, openBody 0 crowded = .ok () entered ∧ entered.scope = crowded.scope.push ∧
        (Result.leftState ((parameters 0 0 header.params >>= fun _ => statements unfinished)
          entered)).scope.pop = .ok crowded.scope := by
  intro header
  have restored := scope_restored crowded
  have begins : definedFunction header crowded = .ok 0 crowded := rfl
  rcases restored.2.2.2 [] header unfinished 0 crowded begins with
    ⟨entered, enters, pushed, pops, _⟩
  exact ⟨by decide +kernel, restored.1 _, begins, entered, enters, pushed, pops⟩

end Lowering

end Tuplet
