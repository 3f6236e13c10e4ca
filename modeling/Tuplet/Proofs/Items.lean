import Tuplet.Proofs.Drafting

/-!
# Lowering items keeps to tables

Between items, the state of lowering holds nothing but functions, and a table
says what they are. Lowering an item goes wrong before the state has changed, or
it declares a function, or it gives one its body. In each case the state it
leaves is described by the table that the item leaves.
-/

namespace Tuplet

open Ir (Builder Function Module ValueType)

/-- Type names are resolved to the types of values that can be declared with them. -/
theorem scalar?_eq_some_iff {name : String} {type : ValueType} :
    scalar? name = some type ↔
      ∃ primitive, Primitive.ofName? name = some primitive ∧
        ValueType.ofPrimitive primitive = .ok type := by
  unfold scalar? Primitive.ofName?
  simp only [Primitive.all, List.find?_cons, Primitive.name, List.find?_nil]
  split
  · subst name
    simp [ValueType.ofPrimitive]
  · split
    · subst name
      simp [ValueType.ofPrimitive]
    · rename_i notInt notFloat
      simp only [beq_false_of_ne (Ne.symm notInt), beq_false_of_ne (Ne.symm notFloat)]
      cases "string" == name <;> cases "void" == name <;> simp [ValueType.ofPrimitive]

theorem scalar_cases {name : String} {type : ValueType} (known : scalar? name = some type) :
    type = .int32 ∨ type = .float32 := by
  unfold scalar? at known
  repeat' split at known
  all_goals simp_all

theorem resolve_cases (name : String) :
    (∃ type, scalar? name = some type ∧ Lowering.resolve name = pure type ∧
        Emission.resolve name = pure type) ∨
      scalar? name = none ∧ ∃ error, Lowering.resolve name = Lowering.fail error ∧
        Emission.resolve name = Emission.fail error := by
  unfold Lowering.resolve Lowering.typeNamed Emission.resolve
  cases primitive? : Primitive.ofName? name with
  | none =>
      right
      refine ⟨?_, .unknownType name, rfl, rfl⟩
      rw [Option.eq_none_iff_forall_ne_some]
      intro type known
      simp [scalar?_eq_some_iff, primitive?] at known
  | some primitive =>
      cases resolved : ValueType.ofPrimitive primitive with
      | ok type =>
          left
          refine ⟨type, scalar?_eq_some_iff.mpr ⟨primitive, primitive?, resolved⟩, ?_⟩
          simp only [resolved, and_true]
          rfl
      | error error =>
          right
          refine ⟨?_, .build error, ?_⟩
          · rw [Option.eq_none_iff_forall_ne_some]
            intro type known
            simp [scalar?_eq_some_iff, primitive?, resolved] at known
          · simp only [resolved, and_true]
            rfl

namespace Lowering

theorem resolveAll_cases (names : List String) (state : LoweringState) :
    ((∀ name ∈ names, (scalar? name).isSome = true) ∧
        resolveAll names state = .ok (names.filterMap scalar?) state) ∨
      (¬ ∀ name ∈ names, (scalar? name).isSome = true) ∧
        ∃ failure, resolveAll names state = raise failure state := by
  induction names with
  | nil => exact .inl ⟨by simp, rfl⟩
  | cons name rest ih =>
      rw [resolveAll]
      rcases resolve_cases name with ⟨type, known, resolved, _⟩ | ⟨unknown, error, failed, _⟩
      · rw [resolved, pure_bind]
        rcases ih with ⟨all, restResolved⟩ | ⟨notAll, failure, restFailed⟩
        · left
          refine ⟨by simpa [known] using all, ?_⟩
          rw [Result.bind_of_ok restResolved]
          simp [known]
        · right
          exact ⟨by simpa [known] using notAll, failure, bind_of_raise restFailed⟩
      · right
        refine ⟨by simp [unknown], .because error, ?_⟩
        rw [failed]
        rfl

theorem resolveParams_eq (params : List Parameter) :
    resolveParams params = resolveAll (params.map (·.type)) >>= fun types =>
      pure (types.zipWith (fun type param => ⟨type, param.name⟩) params) := by
  induction params with
  | nil => rfl
  | cons param rest ih => simp [resolveParams, resolveAll, ih]

end Lowering

theorem types_zipWith {params : List Parameter}
    (known : ∀ param ∈ params, (scalar? param.type).isSome = true) :
    (((params.map (·.type)).filterMap scalar?).zipWith
        (fun type param => Ir.Param.mk type param.name) params).map (·.type) =
      params.filterMap (scalar? ·.type) := by
  induction params with
  | nil => rfl
  | cons param rest ih =>
      simp only [List.forall_mem_cons] at known
      obtain ⟨type, found⟩ := Option.isSome_iff_exists.mp known.1
      simpa [found] using ih known.2

namespace Signature

theorem firstRepeated_eq_none_iff {seen names : List String} :
    firstRepeated seen names = none ↔ names.Nodup ∧ ∀ name ∈ names, name ∉ seen := by
  induction names generalizing seen with
  | nil => simp [firstRepeated]
  | cons name rest ih =>
      by_cases repeated : name ∈ seen
      · simp [firstRepeated, repeated]
      · simp only [firstRepeated, List.contains_iff_mem, repeated, if_false, ih, List.nodup_cons,
          List.mem_cons, not_or]
        grind

theorem repeatedParam?_eq_none_iff {header : Signature} :
    header.repeatedParam? = none ↔ (header.params.map (·.name)).Nodup := by
  simp [repeatedParam?, firstRepeated_eq_none_iff]

theorem scalar_known (header : Signature) (type : ValueType)
    (member : type ∈ header.known.params ++ header.known.returns) :
    type = .int32 ∨ type = .float32 := by
  simp only [known, List.mem_append, List.mem_filterMap] at member
  rcases member with ⟨_, _, found⟩ | ⟨_, _, found⟩
  · exact scalar_cases found
  · exact scalar_cases found

end Signature

/-- What is known of a function is true of it. -/
structure Known.Describes (known : Known) (function : Function) : Prop where
  name : function.name = known.name
  fits : known.toProfile.Fits function
  scalar : ∀ type ∈ known.params ++ known.returns, type = .int32 ∨ type = .float32
  bodied : function.isDeclaration = !known.bodied
  untouched : known.bodied = false → function.nextId = 0

/-- A state in which another function has been declared. -/
def LoweringState.declare (state : LoweringState) (function : Function) : LoweringState :=
  { state with builder.module.functions := state.builder.module.functions ++ [function] }

theorem Lowering.declare_of_unknown {name : String} {state : LoweringState}
    (unknown : state.builder.module.index? name = none) (params : List Ir.Param)
    (returns : List ValueType) :
    build (Ir.Build.declare name params returns) state =
      .ok state.builder.module.functions.length
        (state.declare ⟨name, params, .ofReturns returns, [], 0⟩) := by
  have operated : Ir.Build.declare name params returns state.builder =
      .ok state.builder.module.functions.length
        (state.declare ⟨name, params, .ofReturns returns, [], 0⟩).builder := by
    simp only [Ir.Build.declare, Result.get_bind, unknown]
    rfl
  exact build_of_ok operated

/-- Declaring a function that is not there yet succeeds exactly for well-formed signatures. -/
theorem Lowering.signature_cases {header : Signature} {state : LoweringState}
    (unknown : state.builder.module.index? header.name = none) :
    (header.WellFormed ∧ ∃ function, header.known.Describes function ∧
        signature header state =
          .ok state.builder.module.functions.length (state.declare function)) ∨
      ¬ header.WellFormed ∧ ∃ failure, signature header state = raise failure state := by
  unfold signature
  cases repeated : header.repeatedParam? with
  | some param =>
      right
      refine ⟨?_, .because (.repeatedParameter param header.name), rfl⟩
      intro wellFormed
      rw [Signature.repeatedParam?_eq_none_iff.mpr wellFormed.1] at repeated
      cases repeated
  | none =>
      simp only [resolveParams_eq, bind_assoc]
      rcases resolveAll_cases (header.params.map (·.type)) state with
        ⟨paramsKnown, params⟩ | ⟨paramsUnknown, failure, failed⟩
      · rw [Result.bind_of_ok params, pure_bind]
        rcases resolveAll_cases header.returns state with
          ⟨returnsKnown, returns⟩ | ⟨returnsUnknown, failure, failed⟩
        · left
          rw [Result.bind_of_ok returns]
          have paramsKnown : ∀ param ∈ header.params, (scalar? param.type).isSome = true := by
            simpa using paramsKnown
          exact ⟨⟨Signature.repeatedParam?_eq_none_iff.mp repeated, paramsKnown, returnsKnown⟩, _,
            ⟨rfl, ⟨types_zipWith paramsKnown, rfl⟩, header.scalar_known, rfl, fun _ => rfl⟩,
            declare_of_unknown unknown _ _⟩
        · right
          refine ⟨?_, failure, bind_of_raise failed⟩
          intro wellFormed
          exact returnsUnknown wellFormed.2.2
      · right
        refine ⟨?_, failure, bind_of_raise failed⟩
        intro wellFormed
        exact paramsUnknown (by simpa using wellFormed.2.1)

/-- A table says what the functions of a state are, which is in the middle of no body. -/
structure FunctionTable.Describes (table : FunctionTable) (state : LoweringState) : Prop where
  functions : List.Forall₂ Known.Describes table state.builder.module.functions
  distinct : (table.map (·.name)).Nodup
  frames : state.scope.frames = []
  body : state.body = none

theorem FunctionTable.Describes.withLog {table : FunctionTable} {state : LoweringState}
    (describes : table.Describes state) (log : List Diagnostic) :
    table.Describes (state.withLog log) :=
  ⟨describes.functions, describes.distinct, describes.frames, describes.body⟩

/-- A function is found in a module exactly if it is known. -/
theorem Known.lookup_cases {table : FunctionTable} {functions : List Function}
    (described : List.Forall₂ Known.Describes table functions) (name : String) :
    (table.known? name = none ∧ functions.findIdx? (·.name == name) = none) ∨
      ∃ known index function, table.known? name = some known ∧
        functions.findIdx? (·.name == name) = some index ∧ table[index]? = some known ∧
          functions[index]? = some function ∧ known.name = name ∧ known.Describes function := by
  unfold FunctionTable.known?
  induction described with
  | nil => simp
  | @cons known function table functions describes _ ih =>
      by_cases same : known.name = name
      · right
        exact ⟨known, 0, function, by simp [same],
          by simp [List.findIdx?_cons, describes.name, same], rfl, rfl, same, describes⟩
      · have here : (function.name == name) = false := by simpa [describes.name] using same
        have there : (known.name == name) = false := by simpa using same
        rcases ih with ⟨unknown, notFound⟩ | ⟨known, index, function, found, index?, rest⟩
        · left
          simp [here, there, List.findIdx?_cons, unknown, notFound]
        · right
          refine ⟨known, index + 1, function, ?_, ?_, rest⟩
          · simp [there, found]
          · simp [List.findIdx?_cons, here, index?]

theorem FunctionTable.Describes.declares {table : FunctionTable} {state : LoweringState}
    (describes : table.Describes state) :
    Declares state.builder.module.functions table.profile? where
  unknown name missing := by
    rcases Known.lookup_cases describes.functions name with
      ⟨_, notFound⟩ | ⟨known, _, _, found, _⟩
    · exact notFound
    · simp [FunctionTable.profile?, found] at missing
  known name profile declared := by
    rcases Known.lookup_cases describes.functions name with
      ⟨unknown, _⟩ | ⟨known, index, function, found, index?, _, present, named, describesFunction⟩
    · simp [FunctionTable.profile?, unknown] at declared
    · obtain rfl : known.toProfile = profile := by
        simpa [FunctionTable.profile?, found] using declared
      exact ⟨index, function, index?, present, describesFunction.name.trans named,
        describesFunction.fits⟩

variable {table : FunctionTable} {state : LoweringState} {header : Signature}

namespace FunctionTable

theorem declare_of_known (known : (table.known? header.name).isSome = true) :
    table.declare header = table := by
  simp [declare, Option.isSome_iff_ne_none.mp known]

theorem declare_of_unknown (unknown : table.known? header.name = none)
    (wellFormed : header.WellFormed) : table.declare header = table ++ [header.known] := by
  simp [declare, unknown, wellFormed]

theorem Describes.declare {function : Function} (describes : table.Describes state)
    (unknown : table.known? header.name = none) (function? : header.known.Describes function) :
    (table ++ [header.known]).Describes (state.declare function) where
  functions := List.rel_append describes.functions (.cons function? .nil)
  distinct := by
    have new : header.name ∉ table.map (·.name) := by
      simpa [known?] using unknown
    simpa [List.nodup_append, describes.distinct, Signature.known] using new
  frames := describes.frames
  body := describes.body

/-- The function of a header stands at an index and is ready to be given a body. -/
structure Ready (table : FunctionTable) (state : LoweringState) (header : Signature)
    (known : Known) (index : Nat) (function : Function) : Prop where
  describes : table.Describes state
  known? : table.known? header.name = some known
  listed : table[index]? = some known
  found : state.builder.module.functions[index]? = some function
  named : known.name = header.name
  function? : known.Describes function
  blank : known.bodied = false
  count : known.params.length = header.params.length

end FunctionTable

open FunctionTable in
/-- The function that a body is meant for is found or declared, or a failure is all there is. -/
theorem Lowering.definedFunction_cases (describes : table.Describes state) :
    (table.Opens header ∧ ∃ known index function declared,
        definedFunction header state = .ok index declared ∧
          (declared = state ∨
            table.known? header.name = none ∧ declared = state.declare function) ∧
          (table.declare header).Ready declared header known index function) ∨
      ¬ table.Opens header ∧ ∃ failure, definedFunction header state = raise failure state := by
  unfold definedFunction Opens
  rw [Result.get_bind]
  rcases Known.lookup_cases describes.functions header.name with
    ⟨unknown, notFound⟩ |
      ⟨known, index, function, found, index?, listed, present, named, describesFunction⟩
  · have index? : state.builder.module.index? header.name = none := notFound
    simp only [unknown, index?]
    rcases signature_cases index? with
      ⟨wellFormed, function, describesFunction, declared⟩ | ⟨illFormed, failure, failed⟩
    · left
      refine ⟨wellFormed, header.known, state.builder.module.functions.length, function,
        state.declare function, inside_of_ok declared _, .inr ⟨trivial, rfl⟩, ?_⟩
      rw [FunctionTable.declare_of_unknown unknown wellFormed]
      have sameLength := describes.functions.length_eq
      exact
        { describes := describes.declare unknown describesFunction
          known? := by
            have missing : List.find? (·.name == header.name) table = none := unknown
            simp [known?, Signature.known, missing]
          listed := by simp [← sameLength]
          found := by simp [LoweringState.declare]
          named := rfl
          function? := describesFunction
          blank := rfl
          count := List.filterMap_length_eq_length.mpr wellFormed.2.1 }
    · right
      exact ⟨illFormed, failure.inside (.declaring header.name), inside_of_raise failed _⟩
  · have index? : state.builder.module.index? header.name = some index := index?
    have here : state.builder.function? index = some function := present
    have hasBody : state.builder.hasBody index = known.bodied := by
      simp [Builder.hasBody, here, describesFunction.bodied]
    have paramCount : state.builder.paramCount index = known.params.length := by
      simp [Builder.paramCount, here, ← describesFunction.fits.params]
    simp only [found, index?, hasBody, paramCount]
    rw [declare_of_known (by simp [found])]
    by_cases bodied : known.bodied = true
    · right
      exact ⟨by simp [bodied], .because (.alreadyHasBody header.name), by simp only [bodied]; rfl⟩
    have blank : known.bodied = false := by simpa using bodied
    by_cases count : known.params.length = header.params.length
    · left
      exact ⟨⟨blank, count⟩, known, index, function, state, by simp [blank, count], .inl rfl,
        ⟨describes, found, listed, present, named, describesFunction, blank, count⟩⟩
    · right
      exact ⟨by simp [count], .because (.mismatchedDeclaration header.name),
        by simp only [blank, count]; rfl⟩

/-- What the bodies of functions are lowered among once the functions of a table are declared. -/
def FunctionTable.around (table : FunctionTable) : Surroundings := ⟨table.profile?, []⟩

/-- Whether a draft has come to a return. -/
def Draft.isEnded (draft : Draft) : Bool :=
  (Ir.Block.mk "entry" draft.instructions).terminator?.isSome

/-- A draft with the return that a function without results need not have. -/
def Draft.finished (draft : Draft) (header : Signature) : Draft :=
  if header.isVoid && !draft.isEnded then draft ++ ⟨[], [⟨draft.next, "", .ret []⟩]⟩ else draft

namespace Site

variable {α : Type} {site : Site}

/-- The state of lowering when the body has been closed at a draft. -/
def closed (site : Site) (draft : Draft) : LoweringState :=
  { site.state draft with scope := ⟨site.frames⟩, body := none }

theorem openBody_eq (builder : state.builder = site.builder)
    (frames : state.scope.frames = site.frames) (log : state.log = site.log)
    (noBlocks : site.function.blocks = []) (noIds : site.function.nextId = 0) :
    Lowering.openBody site.index state = .ok () (site.state .empty) := by
  have here : Ir.Build.function site.index state.builder = .ok site.function state.builder := by
    have found := site.found
    rw [← builder] at found
    simp [Ir.Build.function, Builder.function?, found]
  have filled : Draft.empty.fill site.function =
      { site.function with blocks := site.function.blocks ++ [⟨"entry", []⟩] } := by
    simp [Draft.fill, Draft.instructions, Draft.next, noBlocks, noIds]
  have entered : Lowering.build (Ir.Build.appendEntryBlock site.index) state =
      .ok () { state with builder := (site.state .empty).builder } := by
    apply Lowering.build_of_ok
    simp only [Ir.Build.appendEntryBlock, Result.bind_of_ok here, ← filled]
    simp [Site.state, builder, Builder.setFunction]
  rw [Lowering.openBody, Result.bind_of_ok entered]
  simp [Site.state, Scope.push, frames, log, Draft.lastSlot]

/-- The result of lowering a body whose emission has an outcome. -/
def closing (site : Site) (outcome : Draft × Except LoweringFailure α) :
    EStateM.Result LoweringError LoweringState α :=
  match outcome.2 with
  | .ok value => .ok value (site.closed outcome.1)
  | .error failure => Lowering.raise failure (site.closed outcome.1)

/-- A body is closed at the draft that its emission leads to, whether or not it fails. -/
theorem inBody_eq {step : Lowering α} {emission : Emission α} (idle : state.body = none)
    (opened : Lowering.openBody site.index state = .ok () (site.state .empty))
    (follows : site.Follows .empty step emission) :
    Lowering.inBody site.index step state = site.closing (emission .empty) := by
  rw [Lowering.inBody, Result.get_bind]
  refine (Result.bind_of_ok opened).trans ?_
  simp only [follows.step_eq, result, closing, Draft.empty_append, idle]
  cases (emission .empty).2 <;> rfl

theorem function?_closed (site : Site) (draft : Draft) :
    (site.closed draft).builder.function? site.index = some (draft.fill site.function) :=
  site.function?_state draft

theorem isTerminated_closed (site : Site) (draft : Draft) :
    (site.closed draft).builder.isTerminated = draft.isEnded := by
  have cursor : (site.closed draft).builder.cursor = some site.index := rfl
  simp only [Builder.isTerminated, cursor, Option.bind_some, site.function?_closed draft]
  simp [Draft.fill, Draft.isEnded]

theorem endBody_eq (site : Site) (header : Signature) (draft : Draft) :
    Lowering.endBody header (site.closed draft) = .ok () (site.closed (draft.finished header)) := by
  rw [Lowering.endBody, Result.get_bind, isTerminated_closed]
  unfold Draft.finished
  split
  · have emitted : Ir.Build.emit "" (.ret []) (site.closed draft).builder = _ :=
      site.emit_state draft "" (.ret [])
    have operated : Ir.Build.ret [] (site.closed draft).builder =
        .ok () (site.closed (draft ++ ⟨[], [⟨draft.next, "", .ret []⟩]⟩)).builder := by
      rw [Ir.Build.ret, Result.bind_of_ok emitted]
      rfl
    exact Lowering.build_of_ok operated
  · rfl

theorem check_eq (site : Site) (draft : Draft) :
    Lowering.check site.index (site.closed draft) =
      match (site.closed draft).builder.module.verify (draft.fill site.function) with
      | .ok () => .ok () (site.closed draft)
      | .error error => Lowering.raise (.because (.verify error)) (site.closed draft) := by
  rw [Lowering.check, Result.get_bind, Builder.verify, function?_closed]
  cases verified : (site.closed draft).builder.module.verify (draft.fill site.function) <;>
    simp only [verified, Result.mapError_ok, Result.mapError_error] <;> rfl

end Site

theorem Draft.describes_fill {known : Known} {function : Function} (draft : Draft)
    (describes : known.Describes function) :
    { known with bodied := true }.Describes (draft.fill function) :=
  ⟨describes.name, ⟨describes.fits.params, describes.fits.returns⟩, describes.scalar, rfl,
    by simp⟩

namespace FunctionTable

theorem giveBody_of_not_mem {name : String} (absent : name ∉ table.map (·.name)) :
    table.giveBody name = table := by
  unfold giveBody
  conv_rhs => rw [← List.map_id table]
  apply List.map_congr_left
  intro known member
  have differ : known.name ≠ name := fun same => absent (List.mem_map.mpr ⟨known, member, same⟩)
  simp [differ]

theorem forall₂_giveBody {functions : List Function} {index : Nat} {known : Known}
    {function : Function} (described : List.Forall₂ Known.Describes table functions)
    (distinct : (table.map (·.name)).Nodup) (listed : table[index]? = some known)
    (describes : { known with bodied := true }.Describes function) :
    List.Forall₂ Known.Describes (table.giveBody known.name) (functions.set index function) := by
  induction described generalizing index with
  | nil => simp at listed
  | @cons first firstFunction rest functions head tail ih =>
      rw [List.map_cons, List.nodup_cons] at distinct
      cases index with
      | zero =>
          obtain rfl : first = known := by simpa using listed
          have unchanged := giveBody_of_not_mem distinct.1
          unfold giveBody at unchanged ⊢
          simpa [unchanged] using And.intro describes tail
      | succ index =>
          have listed : rest[index]? = some known := by simpa using listed
          have differ : first.name ≠ known.name := fun same =>
            distinct.1 (List.mem_map.mpr ⟨known, List.mem_of_getElem? listed, same.symm⟩)
          simpa [giveBody, differ] using And.intro head (ih distinct.2 listed)

namespace Ready

variable {known : Known} {index : Nat} {function : Function}

/-- Where the body of a function that is ready for it is lowered. -/
def site (ready : table.Ready state header known index function) : Site :=
  ⟨state.builder, index, function, [], state.log, ready.found⟩

theorem paramCount (ready : table.Ready state header known index function) :
    header.params.length = function.params.length := by
  rw [← ready.count, ← ready.function?.fits.params, List.length_map]

theorem among (ready : table.Ready state header known index function) :
    ready.site.Among table.around :=
  ⟨rfl, ready.describes.declares⟩

/-- Whatever a body has come to, its function has one now. -/
theorem describes_closed (ready : table.Ready state header known index function) (draft : Draft) :
    (table.giveBody header.name).Describes (ready.site.closed draft) where
  functions := by
    rw [← ready.named]
    exact forall₂_giveBody ready.describes.functions ready.describes.distinct ready.listed
      (draft.describes_fill ready.function?)
  distinct := by
    have names : (table.giveBody header.name).map (·.name) = table.map (·.name) := by
      simp only [giveBody, List.map_map]
      apply List.map_congr_left
      intro known _
      simp only [Function.comp]
      split <;> rfl
    rw [names]
    exact ready.describes.distinct
  frames := rfl
  body := rfl

end Ready

end FunctionTable

/-- The result of lowering a function whose body has an outcome. -/
def Site.completing (site : Site) (header : Signature) :
    Draft × Except LoweringFailure Unit → EStateM.Result LoweringError LoweringState Nat
  | (draft, .error failure) => Lowering.raise failure (site.closed draft)
  | (draft, .ok ()) =>
      let finished := draft.finished header
      match (site.closed finished).builder.module.verify (finished.fill site.function) with
      | .ok () => .ok site.index (site.closed finished)
      | .error error => Lowering.raise (.because (.verify error)) (site.closed finished)

/-- Lowering a function succeeds exactly if its body has been lowered and is then verified. -/
theorem Site.completing_eq_ok_iff {site : Site} {outcome : Draft × Except LoweringFailure Unit}
    {index : Nat} {after : LoweringState} :
    site.completing header outcome = .ok index after ↔
      ∃ draft, outcome = (draft, .ok ()) ∧
        (site.closed (draft.finished header)).builder.module.verify
            ((draft.finished header).fill site.function) = .ok () ∧
          site.index = index ∧ site.closed (draft.finished header) = after := by
  rcases outcome with ⟨draft, failure | _⟩
  · simp [completing]
  · simp only [completing]
    split <;> simp_all

namespace Lowering

open FunctionTable

/-- Lowering a function that is ready for its body is completing the outcome of the body. -/
theorem function_eq {known : Known} {index : Nat} {function : Function} {declared : LoweringState}
    (defined : definedFunction header state = .ok index declared)
    (ready : table.Ready declared header known index function) (body : List Node) :
    Lowering.function header body state =
      ready.site.completing header (Emission.body table.around header.params body .empty) := by
  have noBlocks : function.blocks = [] := by
    simpa [Function.isDeclaration, ready.blank] using ready.function?.bodied
  have opened := ready.site.openBody_eq rfl ready.describes.frames rfl noBlocks
    (ready.function?.untouched ready.blank)
  have lowered := Site.inBody_eq ready.describes.body opened
    (Site.follows_body ready.among Draft.valid_empty (Nat.le_of_eq ready.paramCount) body)
  rw [Lowering.function, Result.bind_of_ok defined]
  rcases outcome : Emission.body table.around header.params body .empty with ⟨draft, failure | _⟩
  · rw [outcome] at lowered
    exact Lowering.bind_of_raise lowered
  · rw [outcome] at lowered
    refine (Result.bind_of_ok lowered).trans ?_
    rw [Result.bind_of_ok (ready.site.endBody_eq header draft)]
    have checked := ready.site.check_eq (draft.finished header)
    simp only [Site.completing]
    cases verified : (ready.site.closed (draft.finished header)).builder.module.verify
        ((draft.finished header).fill ready.site.function) with
    | ok _ =>
        rw [verified] at checked
        exact Result.bind_of_ok checked
    | error error =>
        rw [verified] at checked
        exact bind_of_raise checked

/-- A function is lowered where it is ready for its body, or a failure is all there is. -/
theorem function_cases (describes : table.Describes state) (header : Signature)
    (body : List Node) :
    (table.Opens header ∧ ∃ known index function declared,
        (declared = state ∨
          table.known? header.name = none ∧ declared = state.declare function) ∧
        ∃ ready : (table.declare header).Ready declared header known index function,
          Lowering.function header body state = ready.site.completing header
            (Emission.body (table.declare header).around header.params body .empty)) ∨
      ¬ table.Opens header ∧
        ∃ failure, Lowering.function header body state = raise failure state := by
  rcases definedFunction_cases describes with
    ⟨opens, known, index, function, declared, defined, origin, ready⟩ | ⟨closed, failure, failed⟩
  · exact .inl ⟨opens, known, index, function, declared, origin, ready,
      function_eq defined ready body⟩
  · exact .inr ⟨closed, failure, bind_of_raise failed⟩

/-- What a result has left of the state is described by a table. -/
def Leaves (table : FunctionTable) : EStateM.Result LoweringError LoweringState Nat → Prop
  | .ok _ after | .error _ after => table.Describes after

theorem leaves_raise (describes : table.Describes state) (failure : LoweringFailure) :
    Leaves table (raise failure state) :=
  describes.withLog _

theorem leaves_completing {known : Known} {index : Nat} {function : Function}
    (ready : table.Ready state header known index function)
    (outcome : Draft × Except LoweringFailure Unit) :
    Leaves (table.giveBody header.name) (ready.site.completing header outcome) := by
  rcases outcome with ⟨draft, failure | _⟩
  · exact leaves_raise (ready.describes_closed draft) failure
  · simp only [Site.completing]
    split
    · exact ready.describes_closed (draft.finished header)
    · exact leaves_raise (ready.describes_closed (draft.finished header)) _

theorem Leaves.inside {step : Lowering Nat} {context : LoweringContext}
    (leaves : Leaves table (step state)) : Leaves table (Lowering.inside context step state) := by
  cases stepped : step state with
  | ok value after =>
      rw [inside_of_ok stepped]
      rwa [stepped] at leaves
  | error error after =>
      rw [Lowering.inside, telling_of_error stepped]
      rw [stepped] at leaves
      exact FunctionTable.Describes.withLog leaves _

/-- Lowering any item leaves a state that the table after the item describes. -/
theorem leaves_item (describes : table.Describes state) (node : Node) :
    Leaves (table.after node) (item node state) := by
  cases node with
  | signature header =>
      simp only [item, after, Result.get_bind]
      rcases Known.lookup_cases describes.functions header.name with
        ⟨unknown, notFound⟩ | ⟨known, index, _, found, index?, _⟩
      · have missing : state.builder.module.index? header.name = none := notFound
        simp only [missing]
        rcases signature_cases missing with
          ⟨wellFormed, function, describesFunction, declared⟩ | ⟨illFormed, failure, failed⟩
        · rw [declared, FunctionTable.declare_of_unknown unknown wellFormed]
          exact describes.declare unknown describesFunction
        · rw [failed, FunctionTable.declare, if_neg (by simp [illFormed])]
          exact leaves_raise describes failure
      · have present : state.builder.module.index? header.name = some index := index?
        simp only [present]
        rw [declare_of_known (by simp [found])]
        exact describes
  | function header body =>
      apply Leaves.inside
      simp only [after]
      rcases function_cases describes header body with
        ⟨opens, _, _, _, _, _, ready, lowered⟩ | ⟨closed, failure, failed⟩
      · rw [if_pos opens, lowered]
        exact leaves_completing ready _
      · rw [if_neg closed, failed]
        exact leaves_raise describes failure
  | _ => exact leaves_raise describes (.because (.notAFunction _))

theorem describes_items (describes : table.Describes state) (nodes : List Node) :
    (nodes.foldl FunctionTable.after table).Describes (items state nodes).2 := by
  induction nodes generalizing table state with
  | nil => exact describes
  | cons node rest ih =>
      have step := leaves_item describes node
      rw [items]
      cases lowered : item node state with
      | ok index after =>
          rw [lowered] at step
          exact ih step
      | error error after =>
          rw [lowered] at step
          exact ih step

end Lowering

end Tuplet
