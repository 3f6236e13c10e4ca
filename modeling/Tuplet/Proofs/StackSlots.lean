import Tuplet.Proofs.BodyGrowth

/-!
# Stack slots stand in front

A body is lowered part by part, the parameters of its function first and then its statements.
Lowering may fail at any part, and what has been made by then stays. In every case the function
has one block. Its stack slots come first, for parameters and then for declarations in the order
of the source, as many as have been reached. Behind them is everything else, in the order in
which it was made.
-/

namespace Tuplet

open Ir (Builder Function Instruction ValueType)

/-- The declarations of a function in order: its parameters, and then those of its body. -/
def declarations (params : List Parameter) (body : List Node) : List Declaration :=
  params.map (fun param => ⟨param.name, param.type⟩) ++ body.filterMap Node.declared?

/-- A part of a body: what it declares, and how it is lowered. -/
structure BodyPart where
  declared? : Option Declaration
  lower : Lowering Unit

namespace BodyPart

/-- A parameter at a position of a function. -/
def ofParameter (function position : Nat) (param : Parameter) : BodyPart :=
  ⟨some ⟨param.name, param.type⟩, Lowering.parameters function position [param]⟩

/-- Parameters of a function, the first of which is at a position. -/
def ofParameters (function position : Nat) : List Parameter → List BodyPart
  | [] => []
  | param :: rest =>
      ofParameter function position param :: ofParameters function (position + 1) rest

/-- A statement. -/
def ofStatement (node : Node) : BodyPart :=
  ⟨node.declared?, Lowering.inside (.statement node.form) (Lowering.statement node)⟩

/-- The parts of a body in order: its parameters and then its statements. -/
def all (function : Nat) (params : List Parameter) (body : List Node) : List BodyPart :=
  ofParameters function 0 params ++ body.map ofStatement

/-- Lowers parts in order. -/
def lowerAll : List BodyPart → Lowering Unit
  | [] => pure ()
  | part :: rest => do
      part.lower
      lowerAll rest

/-- What a part makes a slot for. -/
def accepted (part : BodyPart) (state : LoweringState) : Option (String × ValueType) :=
  part.declared?.bind (·.accepted state)

/-- What parts make slots for, up to the first one that fails. -/
def reached : List BodyPart → LoweringState → List (String × ValueType)
  | [], _ => []
  | part :: rest, state =>
      (part.accepted state).toList ++
        match part.lower state with
        | .ok _ after => reached rest after
        | .error _ _ => []

/-- A part makes a slot for what it declares, or fails. -/
structure Faithful (part : BodyPart) (place : Workplace) : Prop where
  makes : place.Makes part.lower fun state => (part.accepted state).toList
  refuses : ∀ declared state, part.declared? = some declared → declared.accepted state = none →
    ∃ failure, part.lower state = Lowering.raise failure state

theorem lowerAll_append (parts others : List BodyPart) :
    lowerAll (parts ++ others) = lowerAll parts >>= fun _ => lowerAll others := by
  induction parts with
  | nil => simp [lowerAll]
  | cons part rest ih => simp [lowerAll, ih]

theorem lowerAll_ofParameters (function position : Nat) (params : List Parameter) :
    lowerAll (ofParameters function position params) =
      Lowering.parameters function position params := by
  induction params generalizing position with
  | nil => rfl
  | cons param rest ih =>
      rw [ofParameters, lowerAll, ih, ofParameter, Lowering.parameters_cons,
        Lowering.parameters_cons, Lowering.introduce_bind]
      simp only [bind_assoc, Lowering.parameters, pure_bind]

theorem lowerAll_ofStatement (body : List Node) :
    lowerAll (body.map ofStatement) = Lowering.statements body := by
  induction body with
  | nil => rfl
  | cons node rest ih => rw [List.map_cons, lowerAll, ih]; rfl

theorem lowerAll_all (function : Nat) (params : List Parameter) (body : List Node) :
    lowerAll (all function params body) =
      Lowering.parameters function 0 params >>= fun _ => Lowering.statements body := by
  rw [all, lowerAll_append, lowerAll_ofParameters, lowerAll_ofStatement]

theorem faithful_ofParameter (function position : Nat) (param : Parameter) (place : Workplace) :
    (ofParameter function position param).Faithful place where
  makes := by
    rw [ofParameter, Lowering.parameters_cons]
    apply Workplace.makes_introduce
    intro slot
    apply (Workplace.computes_param function position).andThen
    intro operand
    apply (Workplace.computes_emit_map "" (by simp) fun _ => ()).andThen
    intro _
    exact Workplace.computes_pure ()
  refuses := by
    rintro _ state ⟨⟩ refused
    rw [ofParameter, Lowering.parameters_cons]
    exact Lowering.introduce_of_refused refused _

theorem faithful_ofStatement (node : Node) (place : Workplace) :
    (ofStatement node).Faithful place where
  makes := (Workplace.makes_statement node).inside _
  refuses := by
    intro declared state isDeclared refused
    have failed : ∃ failure,
        Lowering.declaration declared state = Lowering.raise failure state := by
      rw [Lowering.declaration_eq]
      exact Lowering.introduce_of_refused refused pure
    rcases failed with ⟨failure, failed⟩
    have stated : Lowering.statement node state = Lowering.raise failure state := by
      cases node with
      | decl declaration =>
          cases isDeclared
          exact Lowering.bind_of_raise failed
      | assign target value =>
          cases target with
          | var use => cases isDeclared
          | decl declaration =>
              cases isDeclared
              exact Lowering.bind_of_raise failed
      | _ => cases isDeclared
    exact ⟨failure.inside (.statement node.form), Lowering.inside_of_raise stated _⟩

theorem faithful_all (function : Nat) (params : List Parameter) (body : List Node)
    (place : Workplace) : ∀ part ∈ all function params body, part.Faithful place := by
  have ofParams : ∀ position, ∀ part ∈ ofParameters function position params,
      part.Faithful place := by
    induction params with
    | nil => exact fun _ => List.forall_mem_nil _
    | cons param rest ih =>
        intro position
        rw [ofParameters, List.forall_mem_cons]
        exact ⟨faithful_ofParameter function position param place, ih (position + 1)⟩
  rw [all, List.forall_mem_append, List.forall_mem_map]
  exact ⟨ofParams 0, fun node _ => faithful_ofStatement node place⟩

/-- Lowering parts makes slots for what is reached. -/
theorem makes_lowerAll {place : Workplace} {parts : List BodyPart}
    (faithful : ∀ part ∈ parts, part.Faithful place) :
    place.Makes (lowerAll parts) (reached parts) := by
  induction parts with
  | nil => exact Workplace.computes_pure ()
  | cons part rest ih =>
      rw [List.forall_mem_cons] at faithful
      intro draft state shows
      have adds := faithful.1.makes draft state shows
      rw [lowerAll, reached]
      cases lowered : part.lower state with
      | ok _ after =>
          rw [lowered] at adds
          rw [Result.bind_of_ok lowered]
          exact adds.andThen fun longer shows => ih faithful.2 longer after shows
      | error error after =>
          rw [lowered] at adds
          rw [Result.bind_of_error lowered, List.append_nil]
          exact adds

/-- What some parts have made stays in front of what the parts behind them make. -/
theorem shows_extended {place : Workplace} {done rest : List BodyPart} {draft : Draft}
    {state : LoweringState} (faithful : ∀ part ∈ rest, part.Faithful place)
    (shows : place.Shows draft (Result.leftState (lowerAll done state))) :
    ∃ added, place.Shows (draft ++ added) (Result.leftState (lowerAll (done ++ rest) state)) := by
  rw [lowerAll_append]
  cases lowered : lowerAll done state with
  | ok _ middle =>
      rw [lowered] at shows
      rw [Result.bind_of_ok lowered]
      rcases makes_lowerAll faithful draft middle shows with ⟨added, _, shows⟩
      exact ⟨added, shows⟩
  | error error middle =>
      rw [lowered] at shows
      rw [Result.bind_of_error lowered]
      exact ⟨.empty, by rwa [Draft.append_empty]⟩

theorem declared_all (function : Nat) (params : List Parameter) (body : List Node) :
    (all function params body).filterMap (·.declared?) =
      declarations params body := by
  have ofParams : ∀ position, (ofParameters function position params).filterMap (·.declared?) =
      params.map fun param => ⟨param.name, param.type⟩ := by
    induction params with
    | nil => exact fun _ => rfl
    | cons param rest ih =>
        intro position
        have declares : (ofParameter function position param).declared? =
            some ⟨param.name, param.type⟩ := rfl
        rw [ofParameters, List.filterMap_cons_some declares, ih, List.map_cons]
  rw [all, List.filterMap_append, ofParams, List.filterMap_map, declarations]
  rfl

/-- A part that does not fail makes a slot for what it declares. -/
theorem Faithful.accepted_of_ok {part : BodyPart} {place : Workplace} {state after : LoweringState}
    (faithful : part.Faithful place) (lowered : part.lower state = .ok () after) :
    (part.accepted state).toList.map (Prod.map id some) =
      part.declared?.toList.map Declaration.wanted := by
  rw [accepted]
  cases declared? : part.declared? with
  | none => rfl
  | some declared =>
      rw [Option.bind_some]
      cases accepted : declared.accepted state with
      | none =>
          rcases faithful.refuses declared state declared? accepted with ⟨failure, refused⟩
          cases lowered.symm.trans refused
      | some slot =>
          rw [Option.toList_some, List.map_singleton, Declaration.wanted_of_accepted accepted]
          rfl

theorem accepted_prefix (part : BodyPart) (state : LoweringState) :
    (part.accepted state).toList.map (Prod.map id some) <+:
      part.declared?.toList.map Declaration.wanted := by
  rw [accepted]
  cases part.declared? with
  | none => exact List.nil_prefix
  | some declared =>
      rw [Option.bind_some]
      cases accepted : declared.accepted state with
      | none => exact List.nil_prefix
      | some slot =>
          rw [Option.toList_some, List.map_singleton, Declaration.wanted_of_accepted accepted]
          exact List.prefix_rfl

/-- What parts make slots for is what their first declarations ask for. -/
theorem reached_prefix {place : Workplace} {parts : List BodyPart}
    (faithful : ∀ part ∈ parts, part.Faithful place) (state : LoweringState) :
    (reached parts state).map (Prod.map id some) <+:
      (parts.filterMap (·.declared?)).map Declaration.wanted := by
  rw [List.filterMap_eq_flatMap_toList]
  induction parts generalizing state with
  | nil => exact List.prefix_rfl
  | cons part rest ih =>
      rw [List.forall_mem_cons] at faithful
      rw [reached, List.flatMap_cons, List.map_append, List.map_append]
      cases lowered : part.lower state with
      | ok _ after =>
          rw [faithful.1.accepted_of_ok lowered, List.prefix_append_right_inj]
          exact ih faithful.2 after
      | error error after =>
          rw [List.map_nil, List.append_nil]
          exact (part.accepted_prefix state).trans (List.prefix_append _ _)

/-- If no part fails, slots are made for all declarations. -/
theorem reached_of_ok {place : Workplace} {parts : List BodyPart}
    (faithful : ∀ part ∈ parts, part.Faithful place) {state after : LoweringState}
    (succeeded : lowerAll parts state = .ok () after) :
    (reached parts state).map (Prod.map id some) =
      (parts.filterMap (·.declared?)).map Declaration.wanted := by
  rw [List.filterMap_eq_flatMap_toList]
  induction parts generalizing state with
  | nil => rfl
  | cons part rest ih =>
      rw [List.forall_mem_cons] at faithful
      rw [lowerAll] at succeeded
      rw [reached, List.flatMap_cons, List.map_append, List.map_append]
      cases lowered : part.lower state with
      | ok _ next =>
          rw [Result.bind_of_ok lowered] at succeeded
          rw [faithful.1.accepted_of_ok lowered, ih faithful.2 succeeded]
      | error error next =>
          rw [Result.bind_of_error lowered] at succeeded
          cases succeeded

end BodyPart

namespace Lowering

variable {header : Signature} {state opened : LoweringState} {index : Nat}

/-- A body is only given to a function that has none. -/
theorem noBlocks_of_definedFunction (begins : definedFunction header state = .ok index opened) :
    ∃ function, opened.builder.function? index = some function ∧ function.blocks = [] := by
  rw [definedFunction, Result.get_bind] at begins
  cases known : state.builder.module.index? header.name with
  | none =>
      simp only [known] at begins
      rcases signature_cases known with ⟨_, function, describes, signed⟩ | ⟨_, failure, failed⟩
      · cases begins.symm.trans (inside_of_ok signed _)
        refine ⟨function, ?_, ?_⟩
        · simp [Builder.function?, LoweringState.declare]
        · simpa [Function.isDeclaration, Signature.known] using describes.bodied
      · cases begins.symm.trans (inside_of_raise failed _)
  | some position =>
      simp only [known] at begins
      have inRange : position < state.builder.module.functions.length :=
        (List.findIdx?_eq_some_iff_getElem.mp known).1
      have found : state.builder.function? position =
          some (state.builder.module.functions[position]) := List.getElem?_eq_getElem inRange
      cases bodied : state.builder.hasBody position with
      | true =>
          simp only [bodied, if_true] at begins
          cases begins
      | false =>
          simp only [bodied, Bool.false_eq_true, if_false] at begins
          split at begins
          · cases begins
            refine ⟨_, found, ?_⟩
            simpa [Builder.hasBody, found, Function.isDeclaration] using bodied
          · cases begins

/-- A body is opened with nothing in it. -/
theorem openBody_shows {function : Function}
    (found : opened.builder.function? index = some function) (noBlocks : function.blocks = []) :
    ∃ entered, openBody index opened = .ok () entered ∧
      Workplace.Shows ⟨index, function.nextId, opened.scope.frames⟩ .empty entered := by
  have here : Ir.Build.function index opened.builder = .ok function opened.builder := by
    simp [Ir.Build.function, found]
  have appended : build (Ir.Build.appendEntryBlock index) opened =
      .ok () { opened with
        builder := { opened.builder.setFunction index
          { function with blocks := [⟨"entry", []⟩] } with cursor := some index } } := by
    apply build_of_ok
    simp only [Ir.Build.appendEntryBlock, Result.bind_of_ok here, noBlocks, List.nil_append,
      Result.modify_apply]
  rw [openBody, Result.bind_of_ok appended]
  refine ⟨_, rfl, ⟨rfl, _, Builder.function?_setFunction_self found, rfl, rfl⟩,
    Draft.arranged_empty _, rfl, rfl⟩

theorem builder_closeBody (outer : Option Body) (state : LoweringState) :
    (closeBody outer state).builder = state.builder := by
  rw [closeBody]
  split <;> rfl

/-- A body is closed whether or not lowering it fails. -/
theorem leftState_inBody {α : Type} {entered : LoweringState} (step : Lowering α)
    (enters : openBody index opened = .ok () entered) :
    Result.leftState (inBody index step opened) =
      closeBody opened.body (Result.leftState (step entered)) := by
  cases stepped : step entered with
  | ok value state =>
      have lowered : inBody index step opened = .ok value (closeBody opened.body state) := by
        refine (Result.bind_of_ok enters).trans ?_
        simp only [stepped]
      rw [lowered]
      rfl
  | error error state =>
      have lowered : inBody index step opened = .error error (closeBody opened.body state) := by
        refine (Result.bind_of_ok enters).trans ?_
        simp only [stepped]
      rw [lowered]
      rfl

theorem builder_inBody {α : Type} {entered : LoweringState} (step : Lowering α)
    (enters : openBody index opened = .ok () entered) :
    (Result.leftState (inBody index step opened)).builder =
      (Result.leftState (step entered)).builder := by
  rw [leftState_inBody step enters, builder_closeBody]

end Lowering

namespace Workplace

/-- The function of a workplace has a draft and perhaps more code as its body. -/
def Holds (place : Workplace) (draft : Draft) (state : LoweringState) : Prop :=
  ∃ code, (draft ++ ⟨[], code⟩).Arranged place.first ∧
    place.Fills (draft ++ ⟨[], code⟩) state.builder

variable {place : Workplace} {draft : Draft} {state : LoweringState}

theorem Shows.holds (shows : place.Shows draft state) : place.Holds draft state := by
  refine ⟨[], ?_⟩
  have nothing : draft ++ ⟨[], []⟩ = draft := draft.append_empty
  rw [nothing]
  exact ⟨shows.arranged, shows.fills⟩

theorem Holds.endBody (holds : place.Holds draft state) (header : Signature) :
    place.Holds draft (Result.leftState (Lowering.endBody header state)) := by
  rw [Lowering.endBody, Result.get_bind]
  split
  · rcases holds with ⟨code, arranged, fills⟩
    rcases fills.emit "" (.ret []) with ⟨after, emitted, fills⟩
    have ended : Lowering.build (Ir.Build.ret []) state =
        .ok () { state with builder := after } := by
      apply Lowering.build_of_ok
      rw [Ir.Build.ret, Result.bind_of_ok emitted]
      rfl
    have noSlot : ∀ type, Ir.Action.ret [] ≠ .alloca type := by simp
    have arranged := arranged.emit "" noSlot
    rw [Draft.append_assoc] at arranged fills
    rw [ended]
    exact ⟨_, arranged, fills⟩
  · exact holds

theorem leftState_check (index : Nat) (state : LoweringState) :
    ∃ log, Result.leftState (Lowering.check index state) = state.withLog log := by
  rw [Lowering.check, Result.get_bind]
  rcases state.builder.verify index with (error | error) | _
  · exact ⟨_, rfl⟩
  · exact ⟨_, rfl⟩
  · exact ⟨state.log, rfl⟩

/-- A state of lowering has come to one draft only. -/
theorem Shows.unique {other : Draft} (shows : place.Shows draft state)
    (again : place.Shows other state) : draft = other := by
  have slots : draft.slots = other.slots := by
    have frames := shows.frames.symm.trans again.frames
    exact List.reverse_injective (List.cons.inj frames).1
  rcases shows.fills.function with ⟨function, found, blocks, _⟩
  rcases again.fills.function with ⟨same, foundAgain, blocksAgain, _⟩
  cases found.symm.trans foundAgain
  have instructions : draft.instructions = other.instructions := by
    simpa using blocks.symm.trans blocksAgain
  rw [Draft.instructions, Draft.instructions, slots] at instructions
  exact Draft.ext slots (List.append_cancel_left instructions)

end Workplace

namespace Lowering

/-- Behind the body of a function, lowering adds no more than code. -/
theorem holds_function {header : Signature} {state opened entered : LoweringState} {index : Nat}
    {body : List Node} {place : Workplace} {draft : Draft}
    (begins : definedFunction header state = .ok index opened)
    (enters : openBody index opened = .ok () entered)
    (shows : place.Shows draft
      (Result.leftState (BodyPart.lowerAll (BodyPart.all index header.params body) entered))) :
    place.Holds draft (Result.leftState (Lowering.function header body state)) := by
  have held : place.Holds draft (Result.leftState (inBody index
      (parameters index 0 header.params >>= fun _ => statements body) opened)) := by
    rw [Workplace.Holds, builder_inBody _ enters, ← BodyPart.lowerAll_all]
    exact shows.holds
  rw [Lowering.function, Result.bind_of_ok begins]
  -- The body is closed, perhaps given a return, and checked; none of this touches its slots.
  refine Result.leftState_bind (place.Holds draft) held ?_
  intro _ closed held
  refine Result.leftState_bind (place.Holds draft) (held.endBody header) ?_
  intro _ finished held
  have checked : place.Holds draft (Result.leftState (check index finished)) := by
    rcases Workplace.leftState_check index finished with ⟨log, same⟩
    rw [same]
    exact held
  exact Result.leftState_bind (place.Holds draft) checked fun _ _ held => held

/-- Once a function is given its body, the body has its slots in front, whatever state lowering
is in and however far it comes. The slots are for the first declarations, and for all of them
unless a part fails. What there is after some of the parts stays in front of what follows. -/
theorem slots_in_front {header : Signature} {state opened : LoweringState} {index : Nat}
    (begins : definedFunction header state = .ok index opened) (body : List Node) :
    ∃ (before : Function) (entered : LoweringState) (draft : Draft),
      opened.builder.function? index = some before ∧
      openBody index opened = .ok () entered ∧
      Workplace.Fills ⟨index, before.nextId, opened.scope.frames⟩ draft
        (Result.leftState (Lowering.function header body state)).builder ∧
      draft.Arranged before.nextId ∧
      draft.declared = BodyPart.reached (BodyPart.all index header.params body) entered ∧
      draft.declared.map (Prod.map id some) <+:
        (declarations header.params body).map Declaration.wanted ∧
      (∀ finished, (parameters index 0 header.params >>= fun _ => statements body) entered =
          .ok () finished → draft.declared.map (Prod.map id some) =
            (declarations header.params body).map Declaration.wanted) ∧
      ∀ done rest, BodyPart.all index header.params body = done ++ rest →
        ∃ earlier : Draft, Workplace.Fills ⟨index, before.nextId, opened.scope.frames⟩ earlier
            (Result.leftState (BodyPart.lowerAll done entered)).builder ∧
          earlier.slots <+: draft.slots ∧ earlier.code <+: draft.code := by
  rcases noBlocks_of_definedFunction begins with ⟨before, found, noBlocks⟩
  rcases openBody_shows found noBlocks with ⟨entered, enters, shows⟩
  have faithful := BodyPart.faithful_all index header.params body
    ⟨index, before.nextId, opened.scope.frames⟩
  rcases BodyPart.makes_lowerAll faithful .empty entered shows with ⟨draft, declared, lowered⟩
  rw [Draft.empty_append] at lowered
  rcases holds_function begins enters lowered with ⟨code, arranged, fills⟩
  have sameDeclared : (draft ++ ⟨[], code⟩).declared =
      BodyPart.reached (BodyPart.all index header.params body) entered := by
    rw [← declared]
    simp [Draft.declared]
  refine ⟨before, entered, draft ++ ⟨[], code⟩, found, enters, fills, arranged, sameDeclared, ?_,
    ?_, ?_⟩
  · rw [sameDeclared, ← BodyPart.declared_all index]
    exact BodyPart.reached_prefix faithful entered
  · intro finished succeeded
    rw [sameDeclared, ← BodyPart.declared_all index]
    rw [← BodyPart.lowerAll_all] at succeeded
    exact BodyPart.reached_of_ok faithful succeeded
  · intro done rest split
    rw [split] at faithful lowered
    rw [List.forall_mem_append] at faithful
    rcases BodyPart.makes_lowerAll faithful.1 .empty entered shows with ⟨earlier, _, doneShown⟩
    rw [Draft.empty_append] at doneShown
    rcases BodyPart.shows_extended faithful.2 doneShown with ⟨added, extended⟩
    -- The state has come to one draft only, so the draft of the whole body extends the earlier one.
    cases lowered.unique extended
    refine ⟨earlier, doneShown.fills, ?_, ?_⟩
    · simp
    · simp

/-- A state in which a function has given out ids before it has a body, and a name is taken. -/
def crowded : LoweringState :=
  ⟨⟨⟨"m", [⟨"f", [⟨.int32, "a"⟩], .void, [], 3⟩]⟩, none⟩, ⟨[[("e", ⟨0, .int32⟩)]]⟩, none,
    []⟩

/-- A body whose third statement cannot be lowered. -/
def unfinished : List Node :=
  [.assign (.decl ⟨"b", "float"⟩) (.var ⟨"a", none⟩),
    .assign (.decl ⟨"c", "int"⟩) (.var ⟨"e", none⟩), .decl ⟨"e", "int"⟩, .decl ⟨"d", "int"⟩]

theorem slots_in_front_unfinished :
    definedFunction ⟨"f", [], [⟨"int", "a"⟩]⟩ crowded = .ok 0 crowded ∧
      ∃ draft : Draft,
        Workplace.Fills ⟨0, 3, crowded.scope.frames⟩ draft (Result.leftState
          (Lowering.function ⟨"f", [], [⟨"int", "a"⟩]⟩ unfinished crowded)).builder ∧
        draft.Arranged 3 ∧ draft.declared = [("a", .int32), ("b", .float32), ("c", .int32)] := by
  have begins : definedFunction ⟨"f", [], [⟨"int", "a"⟩]⟩ crowded = .ok 0 crowded := rfl
  have slots : BodyPart.reached (BodyPart.all 0 [⟨"int", "a"⟩] unfinished)
      (Result.leftState (openBody 0 crowded)) =
        [("a", .int32), ("b", .float32), ("c", .int32)] := by
    decide +kernel
  rcases slots_in_front begins unfinished with
    ⟨before, entered, draft, found, enters, fills, arranged, declared, _⟩
  cases found
  rw [enters] at slots
  exact ⟨begins, draft, fills, arranged, declared.trans slots⟩

end Lowering

end Tuplet
