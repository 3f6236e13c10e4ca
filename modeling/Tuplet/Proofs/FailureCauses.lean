import Tuplet.Proofs.Isolation
import Tuplet.Proofs.SourceTrees

/-!
# What lowering fails because of

Most errors of lowering are about the program: a name is not declared, or has been declared
before. There are two other kinds. The builder refuses what it is asked to do, or there is a node
where no such node may stand. The first kind never comes up, whatever is lowered. The second
comes up for trees that are made by hand, and never for trees that come from a source.

A body is lowered as its emission says, so it fails as its emission does, and an emission does not
use the builder at all.
-/

namespace Tuplet

namespace LoweringError

/-- The builder was asked for something other than the type of a value, and refused it. -/
def MisusesBuilder : LoweringError → Prop
  | .build .stringUnsupported | .build .voidHasNoValues => False
  | .build _ => True
  | _ => False

/-- There is a node where no such node may stand. -/
def Misplaces : LoweringError → Prop
  | .notAFunction _ | .notAStatement _ | .notAValue _ => True
  | _ => False

/-- The builder has not refused anything, and if nodes are placed well, none is misplaced. -/
structure Excusable (placed : Prop) (error : LoweringError) : Prop where
  builder : ¬ error.MisusesBuilder
  place : placed → ¬ error.Misplaces

theorem Excusable.mono {placed other : Prop} {error : LoweringError}
    (excusable : error.Excusable placed) (stronger : other → placed) : error.Excusable other :=
  ⟨excusable.builder, fun holds => excusable.place (stronger holds)⟩

/-- The type of a value is asked for by name. -/
theorem excusable_ofPrimitive {type : Primitive} {error : Ir.BuildError} {placed : Prop}
    (refused : Ir.ValueType.ofPrimitive type = .error error) : (build error).Excusable placed := by
  cases type with
  | string | void =>
      cases refused
      exact ⟨id, fun _ => id⟩
  | int | float => cases refused

end LoweringError

namespace Emission

variable {α β : Type} {placed other : Prop}

/-- However a step fails, it is excusable. -/
def FailsExcusably (step : Emission α) (placed : Prop) : Prop :=
  ∀ draft failure, (step draft).2 = .error failure → failure.cause.Excusable placed

theorem FailsExcusably.mono {step : Emission α} (excusable : step.FailsExcusably placed)
    (stronger : other → placed) : step.FailsExcusably other :=
  fun draft failure failed => (excusable draft failure failed).mono stronger

theorem failsExcusably_fail {error : LoweringError} (excusable : error.Excusable placed) :
    (fail error : Emission α).FailsExcusably placed := by
  intro draft failure failed
  cases failed
  exact excusable

/-- A step that always succeeds does not fail inexcusably. -/
theorem failsExcusably_of_ok {step : Emission α}
    (succeeds : ∀ draft, ∃ value, (step draft).2 = .ok value) : step.FailsExcusably placed := by
  intro draft failure failed
  rcases succeeds draft with ⟨value, succeeded⟩
  cases failed.symm.trans succeeded

theorem FailsExcusably.andThen {step : Emission α} {next : α → Emission β}
    (first : step.FailsExcusably placed) (second : ∀ value, (next value).FailsExcusably placed) :
    (step >>= next).FailsExcusably placed := by
  intro draft failure failed
  rcases stepped : step draft with ⟨added, failureToo | value⟩
  · have same : (step >>= next) draft = (added, .error failureToo) := by
      simp only [bind, stepped]
    rw [same] at failed
    cases failed
    exact first draft failure (congrArg Prod.snd stepped)
  · have same : ((step >>= next) draft).2 = (next value (draft ++ added)).2 := by
      simp only [bind, stepped]
    rw [same] at failed
    exact second value _ failure failed

theorem FailsExcusably.inside {step : Emission α} (excusable : step.FailsExcusably placed)
    (context : LoweringContext) : (inside context step).FailsExcusably placed := by
  intro draft failure failed
  rw [Emission.inside] at failed
  cases stepped : (step draft).2 with
  | ok value =>
      simp only [stepped, Result.mapError_ok] at failed
      cases failed
  | error inner =>
      simp only [stepped, Result.mapError_error] at failed
      cases failed
      exact excusable draft inner stepped

theorem failsExcusably_pure (value : α) : (pure value : Emission α).FailsExcusably placed :=
  failsExcusably_of_ok fun _ => ⟨value, rfl⟩

theorem failsExcusably_emit (name : String) (action : Ir.Action) :
    (emit name action).FailsExcusably placed :=
  failsExcusably_of_ok fun draft => ⟨draft.next, rfl⟩

theorem failsExcusably_allocate (type : Ir.ValueType) (name : String) :
    (allocate type name).FailsExcusably placed :=
  failsExcusably_of_ok fun _ => ⟨_, rfl⟩

theorem failsExcusably_slot? (around : Surroundings) (name : String) :
    (slot? around name).FailsExcusably placed :=
  failsExcusably_of_ok fun _ => ⟨_, rfl⟩

theorem failsExcusably_store (slot : Ir.Slot) (operand : Ir.Operand) :
    (store slot operand).FailsExcusably placed :=
  (failsExcusably_emit _ _).andThen fun _ => failsExcusably_pure ()

theorem failsExcusably_resolve (name : String) : (resolve name).FailsExcusably placed := by
  rw [resolve]
  cases Primitive.ofName? name with
  | none => exact failsExcusably_fail ⟨id, fun _ => id⟩
  | some type =>
      cases resolved : Ir.ValueType.ofPrimitive type with
      | ok type =>
          simp only [resolved]
          exact failsExcusably_pure type
      | error error =>
          simp only [resolved]
          exact failsExcusably_fail (LoweringError.excusable_ofPrimitive resolved)

theorem failsExcusably_slotOf (around : Surroundings) (name : String) :
    (slotOf around name).FailsExcusably placed := by
  apply (failsExcusably_slot? around name).andThen
  intro slot?
  cases slot? with
  | none => exact failsExcusably_fail ⟨id, fun _ => id⟩
  | some slot => exact failsExcusably_pure slot

theorem failsExcusably_callee (around : Surroundings) (name : String) (given : Nat) :
    (callee around name given).FailsExcusably placed := by
  rw [callee]
  cases around.profile? name with
  | none => exact failsExcusably_fail ⟨id, fun _ => id⟩
  | some profile =>
      dsimp only
      split
      · exact failsExcusably_pure profile
      · exact failsExcusably_fail ⟨id, fun _ => id⟩

theorem failsExcusably_emitCall (profile : Profile) (name : String) (args : List Ir.Operand) :
    (emitCall profile name args).FailsExcusably placed := by
  apply (failsExcusably_emit _ _).andThen
  intro id
  split
  · exact failsExcusably_pure none
  · exact (failsExcusably_emit _ _).andThen fun _ => failsExcusably_pure _

theorem failsExcusably_emitOperator (op : Operator) (left right : Ir.Operand) :
    (emitOperator op left right).FailsExcusably placed := by
  rw [emitOperator]
  cases op.arithmetic? with
  | none => exact failsExcusably_fail ⟨id, fun _ => id⟩
  | some arithmetic => exact (failsExcusably_emit _ _).andThen fun _ => failsExcusably_pure _

mutual

theorem failsExcusably_value (around : Surroundings) :
    ∀ node : Node, (value around node).FailsExcusably node.SourceValue
  | .literal number => failsExcusably_pure _
  | .var use => by
      rw [value]
      apply (failsExcusably_slotOf around use.name).andThen
      intro slot
      exact (failsExcusably_emit _ _).andThen fun _ => failsExcusably_pure _
  | .binary op left right => by
      rw [value]
      have onLeft : (value around left).FailsExcusably (Node.binary op left right).SourceValue := by
        apply (failsExcusably_value around left).mono
        intro isValue
        cases isValue with
        | binary isLeft isRight => exact isLeft
      have onRight :
          (value around right).FailsExcusably (Node.binary op left right).SourceValue := by
        apply (failsExcusably_value around right).mono
        intro isValue
        cases isValue with
        | binary isLeft isRight => exact isRight
      exact onLeft.andThen fun _ => onRight.andThen fun _ => failsExcusably_emitOperator _ _ _
  | .call name args => by
      rw [value]
      apply (failsExcusably_callee around name args.length).andThen
      intro profile
      apply FailsExcusably.andThen
      · apply (failsExcusably_arguments around name 1 args).mono
        intro isValue
        cases isValue with
        | call plain areArgs => exact areArgs
      intro operands
      apply (failsExcusably_emitCall profile name operands).andThen
      intro operand?
      cases operand? with
      | none => exact failsExcusably_fail ⟨id, fun _ => id⟩
      | some operand => exact failsExcusably_pure operand
  | .group inner => by
      rw [value]
      apply (failsExcusably_value around inner).mono
      intro isValue
      cases isValue with
      | group isInner => exact isInner
  | .assign _ _ | .decl _ | .signature _ | .function _ _ | .ret _ => by
      rw [value]
      -- The node is misplaced, but then it is not a value that comes from a source.
      refine failsExcusably_fail ⟨id, ?_⟩
      intro isValue
      cases isValue

theorem failsExcusably_arguments (around : Surroundings) (name : String) (position : Nat) :
    ∀ args : List Node,
      (arguments around name position args).FailsExcusably (∀ arg ∈ args, arg.SourceValue)
  | [] => failsExcusably_pure []
  | arg :: rest => by
      rw [arguments]
      apply FailsExcusably.andThen
      · apply ((failsExcusably_value around arg).inside _).mono
        exact fun areArgs => (List.forall_mem_cons.mp areArgs).1
      intro operand
      apply FailsExcusably.andThen
      · apply (failsExcusably_arguments around name (position + 1) rest).mono
        exact fun areArgs => (List.forall_mem_cons.mp areArgs).2
      intro operands
      exact failsExcusably_pure _

end

theorem failsExcusably_values (around : Surroundings) (nodes : List Node) :
    (values around nodes).FailsExcusably (∀ node ∈ nodes, node.SourceValue) := by
  induction nodes with
  | nil => exact failsExcusably_pure []
  | cons node rest ih =>
      apply FailsExcusably.andThen
      · apply (failsExcusably_value around node).mono
        exact fun areValues => (List.forall_mem_cons.mp areValues).1
      intro operand
      apply FailsExcusably.andThen
      · exact ih.mono fun areValues => (List.forall_mem_cons.mp areValues).2
      intro operands
      exact failsExcusably_pure _

theorem failsExcusably_call (around : Surroundings) (name : String) (args : List Node) :
    (call around name args).FailsExcusably (∀ arg ∈ args, arg.SourceValue) := by
  apply (failsExcusably_callee around name args.length).andThen
  intro profile
  apply (failsExcusably_arguments around name 1 args).andThen
  intro operands
  exact failsExcusably_emitCall profile name operands

theorem failsExcusably_declaration (around : Surroundings) (declared : Declaration) :
    (declaration around declared).FailsExcusably placed := by
  apply (failsExcusably_slot? around declared.name).andThen
  intro slot?
  split
  · exact failsExcusably_fail ⟨id, fun _ => id⟩
  · apply (failsExcusably_resolve declared.type).andThen
    intro type
    exact failsExcusably_allocate type declared.name

theorem failsExcusably_target (around : Surroundings) (assigned : Target) :
    (target around assigned).FailsExcusably placed := by
  cases assigned with
  | decl declared => exact failsExcusably_declaration around declared
  | var use => exact failsExcusably_slotOf around use.name

theorem failsExcusably_statement (around : Surroundings) (node : Node) :
    (statement around node).FailsExcusably node.SourceStatement := by
  cases node with
  | decl declared =>
      apply (failsExcusably_declaration around declared).andThen
      intro slot
      exact failsExcusably_pure ()
  | assign assigned node =>
      apply (failsExcusably_target around assigned).andThen
      intro slot
      apply FailsExcusably.andThen
      · apply ((failsExcusably_value around node).inside _).mono
        intro isStatement
        cases isStatement with
        | assign writable isValue => exact isValue
      intro operand
      exact failsExcusably_store slot operand
  | call name args =>
      apply FailsExcusably.andThen
      · apply (failsExcusably_call around name args).mono
        intro isStatement
        cases isStatement with
        | call plain areArgs => exact areArgs
      intro operand?
      exact failsExcusably_pure ()
  | ret nodes =>
      apply FailsExcusably.andThen
      · apply (failsExcusably_values around nodes).mono
        intro isStatement
        cases isStatement with
        | ret areValues => exact areValues
      intro operands
      apply (failsExcusably_emit _ _).andThen
      intro id
      exact failsExcusably_pure ()
  | _ =>
      refine failsExcusably_fail ⟨id, ?_⟩
      intro isStatement
      cases isStatement

theorem failsExcusably_statements (around : Surroundings) (nodes : List Node) :
    (statements around nodes).FailsExcusably (∀ node ∈ nodes, node.SourceStatement) := by
  induction nodes with
  | nil => exact failsExcusably_pure ()
  | cons node rest ih =>
      apply FailsExcusably.andThen
      · apply ((failsExcusably_statement around node).inside _).mono
        exact fun areStatements => (List.forall_mem_cons.mp areStatements).1
      intro _
      exact ih.mono fun areStatements => (List.forall_mem_cons.mp areStatements).2

theorem failsExcusably_parameters (around : Surroundings) (position : Nat)
    (params : List Parameter) : (parameters around position params).FailsExcusably placed := by
  induction params generalizing position with
  | nil => exact failsExcusably_pure ()
  | cons param rest ih =>
      apply (failsExcusably_slot? around param.name).andThen
      intro slot?
      split
      · exact failsExcusably_fail ⟨id, fun _ => id⟩
      · apply (failsExcusably_resolve param.type).andThen
        intro type
        apply (failsExcusably_allocate type param.name).andThen
        intro slot
        apply (failsExcusably_store slot (.param position)).andThen
        intro _
        exact ih (position + 1)

theorem failsExcusably_body (around : Surroundings) (params : List Parameter)
    (nodes : List Node) :
    (body around params nodes).FailsExcusably (∀ node ∈ nodes, node.SourceStatement) :=
  (failsExcusably_parameters around 0 params).andThen fun _ =>
    failsExcusably_statements around nodes

end Emission

namespace Lowering

variable {table : FunctionTable} {state after : LoweringState} {error : LoweringError}
  {header : Signature} {placed : Prop}

theorem excusable_of_inside {α : Type} {context : LoweringContext} {step : Lowering α}
    (excusable : ∀ left, step state = .error error left → error.Excusable placed)
    (failed : inside context step state = .error error after) : error.Excusable placed := by
  cases stepped : step state with
  | ok value left => cases failed.symm.trans (inside_of_ok stepped context)
  | error inner left =>
      cases failed.symm.trans (telling_of_error stepped)
      exact excusable left stepped

theorem excusable_of_resolve {name : String} (failed : resolve name state = .error error after) :
    error.Excusable placed := by
  rcases resolve_cases name with ⟨type, _, resolved, _⟩ | ⟨_, _, refused, emitted⟩
  · rw [resolved] at failed
    cases failed
  · rw [refused] at failed
    cases failed
    apply Emission.failsExcusably_resolve name .empty (.because error)
    rw [emitted]
    rfl

theorem excusable_of_resolveAll {names : List String}
    (failed : resolveAll names state = .error error after) : error.Excusable placed := by
  induction names generalizing state with
  | nil => cases failed
  | cons name rest ih =>
      rcases Result.bind_eq_error_cases failed with failed | ⟨type, middle, _, failed⟩
      · exact excusable_of_resolve failed
      · rcases Result.bind_eq_error_cases failed with failed | ⟨types, _, _, failed⟩
        · exact ih failed
        · cases failed

theorem excusable_of_signature (unknown : state.builder.module.index? header.name = none)
    (failed : signature header state = .error error after) :
    error.Excusable placed := by
  rw [signature] at failed
  cases repeated : header.repeatedParam? with
  | some param =>
      rw [repeated] at failed
      cases failed
      exact ⟨id, fun _ => id⟩
  | none =>
      rw [repeated] at failed
      simp only [resolveParams_eq, bind_assoc, pure_bind] at failed
      rcases resolveAll_cases (header.params.map (·.type)) state with
        ⟨_, params⟩ | ⟨_, refused, params⟩
      · rw [Result.bind_of_ok params] at failed
        rcases resolveAll_cases header.returns state with ⟨_, returns⟩ | ⟨_, refused, returns⟩
        · rw [Result.bind_of_ok returns, declare_of_unknown unknown] at failed
          cases failed
        · cases failed.symm.trans (bind_of_raise returns)
          exact excusable_of_resolveAll returns
      · cases failed.symm.trans (bind_of_raise params)
        exact excusable_of_resolveAll params

theorem excusable_of_definedFunction
    (failed : definedFunction header state = .error error after) :
    error.Excusable placed := by
  rw [definedFunction, Result.get_bind] at failed
  cases found : state.builder.module.index? header.name with
  | none =>
      simp only [found] at failed
      exact excusable_of_inside (fun _ => excusable_of_signature found) failed
  | some index =>
      simp only [found] at failed
      split at failed
      · cases failed
        exact ⟨id, fun _ => id⟩
      · split at failed
        · cases failed
        · cases failed
          exact ⟨id, fun _ => id⟩

theorem excusable_of_completing {site : Site} {outcome : Draft × Except LoweringFailure Unit}
    (excusable : ∀ failure, outcome.2 = .error failure → failure.cause.Excusable placed)
    (failed : site.completing header outcome = .error error after) :
    error.Excusable placed := by
  rcases outcome with ⟨draft, inner | _⟩
  · cases failed
    exact excusable inner rfl
  · simp only [Site.completing] at failed
    split at failed
    · cases failed
    · cases failed
      exact ⟨id, fun _ => id⟩

theorem excusable_of_function (describes : table.Describes state) {body : List Node}
    (failed : Lowering.function header body state = .error error after) :
    error.Excusable (∀ node ∈ body, node.SourceStatement) := by
  cases defined : definedFunction header state with
  | error refused left =>
      rw [Lowering.function, Result.bind_of_error defined] at failed
      cases failed
      exact excusable_of_definedFunction defined
  | ok index declared =>
      rcases exists_ready describes defined with ⟨known, function, ready⟩
      rw [function_eq defined ready body] at failed
      exact excusable_of_completing (Emission.failsExcusably_body _ _ body .empty) failed

theorem excusable_of_item (describes : table.Describes state) {node : Node}
    (failed : item node state = .error error after) :
    error.Excusable node.SourceItem := by
  cases node with
  | signature header =>
      rw [item, Result.get_bind] at failed
      cases found : state.builder.module.index? header.name with
      | none =>
          simp only [found] at failed
          exact excusable_of_signature found failed
      | some index =>
          simp only [found] at failed
          cases failed
  | function header body =>
      refine excusable_of_inside (fun left failed => ?_) failed
      apply (excusable_of_function describes failed).mono
      intro isItem
      cases isItem with
      | function writable areStatements => exact areStatements
  | _ =>
      cases failed
      refine ⟨id, ?_⟩
      intro isItem
      cases isItem

/-- However an item fails, the builder has not refused anything, and if all items come from a
source, no node is misplaced. -/
theorem excusable_of_items (describes : table.Describes state) {nodes : List Node}
    (failed : .error error ∈ (items state nodes).1) :
    error.Excusable (∀ node ∈ nodes, node.SourceItem) := by
  induction nodes generalizing table state with
  | nil => cases failed
  | cons node rest ih =>
      rw [results_cons] at failed
      rcases List.mem_cons.mp failed with first | failed
      · cases lowered : item node state with
        | ok index left =>
            rw [lowered] at first
            cases first
        | error inner left =>
            rw [lowered] at first
            cases first
            apply (excusable_of_item describes lowered).mono
            exact fun areItems => (List.forall_mem_cons.mp areItems).1
      · apply (ih (describes_left describes node) failed).mono
        exact fun areItems => (List.forall_mem_cons.mp areItems).2

end Lowering

end Tuplet
