import Tuplet.Proofs.FailureCauses

/-!
# The builder is never misused

Lowering asks the builder only for what it can do: there is a place to put instructions, functions
and parameters are there, and slots are made in front. So no failure is about the builder,
whatever trees are lowered and whatever has failed before.

Nor does lowering ask for an id and not use it. Each id that a function has given out is the id of
one of its instructions, also if its body is unfinished.
-/

namespace Tuplet

open Ir (Function)

/-- The ids of the instructions are those that have been given out, each of them once. -/
def Ir.Function.UsesAllIds (function : Function) : Prop :=
  (function.code.map (·.id)).Perm (List.range function.nextId)

namespace Draft

variable {draft : Draft}

theorem Valid.finished (valid : draft.Valid) (header : Signature) :
    (draft.finished header).Valid := by
  rw [Draft.finished]
  split
  · exact valid.emit "" (.ret [])
  · exact valid

theorem Valid.usesAllIds_fill (valid : draft.Valid) (function : Function) :
    (draft.fill function).UsesAllIds := by
  rw [Function.UsesAllIds, Function.code, fill, List.flatMap_singleton]
  exact valid

end Draft

theorem Known.Describes.usesAllIds {known : Known} {function : Function}
    (describes : known.Describes function) (blank : known.bodied = false) :
    function.UsesAllIds := by
  have noBlocks : function.blocks = [] := by
    simpa [Function.isDeclaration, blank] using describes.bodied
  simp [Function.UsesAllIds, Function.code, noBlocks, describes.untouched blank]

theorem LoweringError.category_ne_backend {error : LoweringError}
    (noMisuse : ¬ error.MisusesBuilder) : Fault.category error ≠ .backend := by
  cases error with
  | build error =>
      cases error with
      | stringUnsupported | voidHasNoValues => decide
      | _ => exact absurd trivial noMisuse
  | _ =>
      intro isBackend
      cases isBackend

namespace Lowering

variable {table : FunctionTable} {state : LoweringState} {header : Signature}

/-- All functions of a state use all their ids. -/
def UsesAllIds (state : LoweringState) : Prop :=
  ∀ function ∈ state.builder.module.functions, function.UsesAllIds

theorem UsesAllIds.declare (used : UsesAllIds state) {function : Function}
    (usesAll : function.UsesAllIds) : UsesAllIds (state.declare function) := by
  rw [UsesAllIds, LoweringState.declare, List.forall_mem_append, List.forall_mem_singleton]
  exact ⟨used, usesAll⟩

theorem usesAllIds_closed {site : Site} {draft : Draft}
    (used : ∀ function ∈ site.builder.module.functions, function.UsesAllIds)
    (valid : draft.Valid) : UsesAllIds (site.closed draft) := by
  intro function present
  rcases List.mem_or_eq_of_mem_set present with present | rfl
  · exact used function present
  · exact valid.usesAllIds_fill site.function

theorem usesAllIds_completing {site : Site} {outcome : Draft × Except LoweringFailure Unit}
    (used : ∀ function ∈ site.builder.module.functions, function.UsesAllIds)
    (valid : outcome.1.Valid) : UsesAllIds (left (site.completing header outcome)) := by
  rcases outcome with ⟨draft, failure | _⟩
  · exact usesAllIds_closed used valid
  · simp only [Site.completing]
    split
    · exact usesAllIds_closed used (valid.finished header)
    · exact usesAllIds_closed used (valid.finished header)

theorem usesAllIds_function (describes : table.Describes state) (used : UsesAllIds state)
    (header : Signature) (body : List Node) :
    UsesAllIds (left (Lowering.function header body state)) := by
  rcases function_cases describes header body with
    ⟨_, known, index, function, declared, origin, ready, lowered⟩ | ⟨_, failure, failed⟩
  · have usedThere : UsesAllIds declared := by
      rcases origin with rfl | ⟨_, rfl⟩
      · exact used
      · exact used.declare (ready.function?.usesAllIds ready.blank)
    have valid := (Site.follows_body ready.among Draft.valid_empty
      (Nat.le_of_eq ready.paramCount) body).valid
    rw [Draft.empty_append] at valid
    rw [lowered]
    exact usesAllIds_completing usedThere valid
  · rw [failed]
    exact used

theorem usesAllIds_item (describes : table.Describes state) (used : UsesAllIds state)
    (node : Node) : UsesAllIds (left (item node state)) := by
  cases node with
  | signature header =>
      rw [item, Result.get_bind]
      cases found : state.builder.module.index? header.name with
      | none =>
          dsimp only
          rcases signature_cases found with ⟨_, function, describes, signed⟩ | ⟨_, failure, failed⟩
          · rw [signed]
            exact used.declare (describes.usesAllIds rfl)
          · rw [failed]
            exact used
      | some index => exact used
  | function header body =>
      rcases left_inside (.function header.name) (function header body) state with ⟨log, same⟩
      rw [item, same]
      exact usesAllIds_function describes used header body
  | _ => exact used

theorem usesAllIds_items (describes : table.Describes state) (used : UsesAllIds state)
    (nodes : List Node) : UsesAllIds (items state nodes).2 := by
  induction nodes generalizing table state with
  | nil => exact used
  | cons node rest ih =>
      rw [items_cons]
      exact ih (describes_left describes node) (usesAllIds_item describes used node)

/--
Whatever trees are lowered into a new module, no item fails because of the builder, nothing is
told of the builder, and no id is wasted.
-/
theorem builder_never_misused (moduleName : String) (nodes : List Node) :
    let lowered := items (.new (.new moduleName)) nodes
    (∀ error, .error error ∈ lowered.1 → Fault.category error ≠ .backend ∧
        ∀ name, error ≠ .build (.alreadyDeclared name)) ∧
      (∀ diagnostic ∈ lowered.2.log, diagnostic.category ≠ .backend) ∧
      ∀ function ∈ lowered.2.builder.module.functions,
        (function.code.map (·.id)).Perm (List.range function.nextId) := by
  intro lowered
  have excusable : ∀ error, .error error ∈ lowered.1 → ¬ error.MisusesBuilder :=
    fun error failed => (excusable_of_items (describes_new moduleName) failed).builder
  refine ⟨?_, ?_, ?_⟩
  · intro error failed
    refine ⟨LoweringError.category_ne_backend (excusable error failed), ?_⟩
    rintro name rfl
    exact excusable _ failed trivial
  · intro diagnostic told
    have log : lowered.2.log = (tellings (.new (.new moduleName)) nodes).flatten :=
      log_items _ nodes
    rw [log] at told
    rcases exists_failure_of_told told with ⟨failure, failed, told⟩
    rw [(Failure.of_mem_remarks told).2]
    exact LoweringError.category_ne_backend (excusable failure.cause failed)
  · exact usesAllIds_items (describes_new moduleName) (List.forall_mem_nil _) nodes

/-- Trees that no source has: a literal as an item, and a declaration as a returned value. -/
def misplacing : List Node :=
  [.literal 1,
    .function ⟨"f", [], [⟨"int", "a"⟩]⟩ [.decl ⟨"b", "int"⟩, .ret [.decl ⟨"c", "int"⟩]]]

theorem builder_never_misused_misplacing :
    let lowered := items (.new (.new "m")) misplacing
    lowered.1.map (·.isOk) = [false, false] ∧
      lowered.2.builder.module.functions.map (·.code.map (·.id)) = [[0, 2, 1]] ∧
      (∀ diagnostic ∈ lowered.2.log, diagnostic.category ≠ .backend) ∧
      ∀ function ∈ lowered.2.builder.module.functions,
        (function.code.map (·.id)).Perm (List.range function.nextId) :=
  ⟨by decide +kernel, by decide +kernel, (builder_never_misused "m" misplacing).2⟩

end Lowering

end Tuplet
