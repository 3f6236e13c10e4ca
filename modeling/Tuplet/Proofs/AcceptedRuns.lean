import Tuplet.Compile
import Tuplet.Proofs.AcceptedProgram
import Tuplet.Proofs.VerifierSoundness

/-!
# Accepted programs do not go wrong

The functions of an accepted program have been verified one by one, in a module
that was still growing. In the end all of them are verified in the whole module,
and verified modules run safely. It does not matter that integers are
passed for parameters of any type: where floats are expected, integers are as
good as any other value, since nothing can be done with floats but keeping them.
-/

namespace Tuplet

open Ir (Function Instruction Module Operand Slot ValueType)
open Run (Value)

/-- All slots of a draft hold integers or floats. -/
def Draft.Scalar (draft : Draft) : Prop :=
  ∀ instruction ∈ draft.instructions, ∀ type, instruction.action = .alloca type →
    type = .int32 ∨ type = .float32

namespace Draft

variable {draft : Draft}

theorem scalar_empty : empty.Scalar := by simp [Scalar, instructions]

theorem Scalar.extend {code : List Instruction} (scalar : draft.Scalar)
    (noSlots : ∀ instruction ∈ code, ∀ type, instruction.action ≠ .alloca type) :
    (draft.extend code).Scalar := by
  intro instruction member type action
  simp only [instructions, slots_extend, code_extend, ← List.append_assoc] at member
  rcases List.mem_append.mp member with before | added
  · exact scalar instruction before type action
  · exact absurd action (noSlots instruction added type)

theorem Scalar.computing {code : List Instruction} (scalar : draft.Scalar)
    (computes : Computes code) : (draft.extend code).Scalar := by
  apply scalar.extend
  intro instruction member type action
  simpa [action, Ir.Action.computes] using computes instruction member

theorem Scalar.allocate {name : String} {type : ValueType} (scalar : draft.Scalar)
    (known : type = .int32 ∨ type = .float32) : (draft.allocate name type).Scalar := by
  intro instruction member other action
  simp only [instructions, slots_allocate, code_allocate, List.map_append, List.map_cons,
    List.map_nil, List.mem_append, List.mem_singleton] at member
  rcases member with (before | rfl) | before
  · exact scalar instruction (List.mem_append_left _ before) other action
  · obtain rfl : type = other := by simpa [slotInstruction] using action
    exact known
  · exact scalar instruction (List.mem_append_right _ before) other action

theorem Scalar.finished (scalar : draft.Scalar) (header : Signature) :
    (draft.finished header).Scalar := by
  unfold Draft.finished
  split
  · exact scalar.extend (by simp)
  · exact scalar

end Draft

namespace Node

variable {table : FunctionTable} {draft after : Draft}

theorem EmitsTarget.scalar {assigned : Target} {slot : Slot}
    (emits : EmitsTarget draft assigned slot after) (scalar : draft.Scalar) : after.Scalar := by
  cases emits with
  | var _ => exact scalar
  | decl _ known => exact scalar.allocate (scalar_cases known)

theorem EmitsStatement.scalar {node : Node} (emits : node.EmitsStatement table draft after)
    (scalar : draft.Scalar) : after.Scalar := by
  cases emits with
  | decl target => exact target.scalar scalar
  | assign target emits =>
      rw [← Draft.extend_extend]
      exact ((target.scalar scalar).computing emits.computes).extend (by simp)
  | call _ _ arguments =>
      exact scalar.computing (by simp [arguments.computes, computes_callCode])
  | ret emits =>
      rw [← Draft.extend_extend]
      exact (scalar.computing emits.computes).extend (by simp)

theorem EmitsStatements.scalar {nodes : List Node}
    (emits : EmitsStatements table draft nodes after) (scalar : draft.Scalar) : after.Scalar := by
  induction emits with
  | nil => exact scalar
  | cons first _ ih => exact ih (first.scalar scalar)

theorem EmitsParameters.scalar {position : Nat} {params : List Parameter}
    (emits : EmitsParameters draft position params after) (scalar : draft.Scalar) :
    after.Scalar := by
  induction emits with
  | nil => exact scalar
  | cons _ known _ ih => exact ih ((scalar.allocate (scalar_cases known)).extend (by simp))

end Node

theorem Ir.ValueType.Storable.of_scalar {type : ValueType}
    (scalar : type = .int32 ∨ type = .float32) : type.Storable := by
  rcases scalar with rfl | rfl
  · exact .int32
  · exact .float32

theorem Ir.ValueType.Storable.ofReturns {types : List ValueType}
    (scalar : ∀ type ∈ types, type = .int32 ∨ type = .float32) :
    (ValueType.ofReturns types).Storable := by
  cases types with
  | nil => exact .void
  | cons first rest =>
      exact .struct (by simp) fun field member => .of_scalar (scalar field member)

theorem Known.Describes.storable {known : Known} {function : Function}
    (describes : known.Describes function) :
    (∀ param ∈ function.params, param.type.Storable) ∧ function.returns.Storable := by
  constructor
  · intro param member
    apply ValueType.Storable.of_scalar
    apply describes.scalar
    rw [← describes.fits.params]
    exact List.mem_append_left _ (List.mem_map_of_mem member)
  · rw [describes.fits.returns]
    exact .ofReturns fun type member => describes.scalar type (List.mem_append_right _ member)

theorem Implementation.verified_function {module : Module} {function : Function}
    {header : Signature} {body : List Node}
    (implementation : Implementation module function header body)
    (storable : (∀ param ∈ function.params, param.type.Storable) ∧ function.returns.Storable) :
    module.Verified function where
  passed := implementation.verified
  distinct := by
    rw [implementation.code_eq]
    exact implementation.sequential.valid.distinct
  params := storable.1
  returns := storable.2
  slots := by
    rw [implementation.code_eq]
    intro instruction member type action
    exact .of_scalar ((implementation.statements.scalar
      (implementation.params.scalar Draft.scalar_empty)).finished header instruction member type
        action)

/-- In a module that realises a program, all functions are verified. -/
theorem Program.Realised.verified {program : Program} {table : FunctionTable}
    {state : LoweringState} (realised : program.Realised state.builder.module)
    (describes : table.Describes state) :
    ∀ function ∈ state.builder.module.functions, state.builder.module.Verified function := by
  intro function member
  obtain ⟨known, describesFunction⟩ := describes.exists_known member
  have found := describes.get?_of_mem member
  cases definition : program.definition? function.name with
  | none =>
      have noBlocks : function.blocks = [] := by
        simpa [Function.isDeclaration] using realised.declared _ _ definition found
      have noCode : function.code = [] := by simp [Function.code, noBlocks]
      exact ⟨by rw [Module.verify, noBlocks]; rfl, by simp [noCode],
        describesFunction.storable.1, describesFunction.storable.2, by simp [noCode]⟩
  | some defined =>
      obtain ⟨other, foundOther, ⟨implementation⟩⟩ :=
        realised.defined _ defined.1 defined.2 definition
      obtain rfl : function = other := Option.some.inj (found.symm.trans foundOther)
      exact implementation.verified_function describesFunction.storable

namespace Run.Value

/-- A value is an integer. -/
def IsInt (value : Value) : Prop := ∃ number, value = .int number

/-- A value consists of one integer for each result of a return type. -/
def IntegersFor (value : Value) : ValueType → Prop
  | .void => value = .void
  | .struct fields => ∃ numbers : List Int32,
      value = .aggregate (numbers.map .int) ∧ numbers.length = fields.length
  | _ => False

theorem HasType.isInt {value : Value} {type : ValueType} (typed : value.HasType IsInt type)
    (scalar : type = .int32 ∨ type = .float32) : value.IsInt := by
  rcases scalar with rfl | rfl
  · cases typed with
    | int number => exact ⟨number, rfl⟩
  · cases typed with
    | float floating => exact floating

/-- Where floats are integers, everything that consists of both does of integers. -/
theorem exists_integers {values : List Value} {types : List ValueType}
    (typed : List.Forall₂ (HasType IsInt) values types)
    (scalar : ∀ type ∈ types, type = .int32 ∨ type = .float32) :
    ∃ numbers : List Int32, values = numbers.map .int ∧ numbers.length = types.length := by
  induction typed with
  | nil => exact ⟨[], rfl, rfl⟩
  | cons head _ ih =>
      rw [List.forall_mem_cons] at scalar
      obtain ⟨number, rfl⟩ := head.isInt scalar.1
      obtain ⟨numbers, rfl, sameLength⟩ := ih scalar.2
      exact ⟨number :: numbers, rfl, by simp [sameLength]⟩

theorem HasType.integersFor {value : Value} {types : List ValueType}
    (typed : value.HasType IsInt (.ofReturns types))
    (scalar : ∀ type ∈ types, type = .int32 ∨ type = .float32) :
    value.IntegersFor (.ofReturns types) := by
  cases types with
  | nil =>
      cases typed with
      | void => rfl
  | cons first rest =>
      cases typed with
      | aggregate parts =>
          obtain ⟨numbers, rfl, sameLength⟩ := exists_integers parts scalar
          exact ⟨numbers, rfl, sameLength⟩

theorem forall₂_int {numbers : List Int32} {types : List ValueType}
    (count : types.length = numbers.length)
    (scalar : ∀ type ∈ types, type = .int32 ∨ type = .float32) :
    List.Forall₂ (HasType IsInt) (numbers.map .int) types := by
  induction numbers generalizing types with
  | nil =>
      obtain rfl := List.eq_nil_of_length_eq_zero count
      exact .nil
  | cons number numbers ih =>
      cases types with
      | nil => simp at count
      | cons type types =>
          rw [List.forall_mem_cons] at scalar
          refine .cons ?_ (ih (by simpa using count) scalar.2)
          rcases scalar.1 with rfl | rfl
          · exact .int number
          · exact .float ⟨number, rfl⟩

end Run.Value

/-- How a run can end. -/
inductive Ending where
  | unknownEntry
  | noBody
  | wrongCount
  | trap
  | value

namespace Ending

/-- A run of a function of a module with a number of integers has ended in a way. -/
def Describes (module : Module) (entry : String) (count : Nat)
    (result : Except SourceError Value) : Ending → Prop
  | unknownEntry => result = .error (.run (.unknownFunction entry))
  | noBody => ∃ callee target, module.get? callee = some target ∧ target.isDeclaration = true ∧
      Relation.ReflTransGen module.Calls entry callee ∧ result = .error (.run (.noBody callee))
  | wrongCount => ∃ expected, result = .error (.run (.argumentCount entry expected count))
  | trap => ∃ error, error.category = .trap ∧ result = .error (.run error)
  | value => ∃ function value, module.get? entry = some function ∧
      value.IntegersFor function.returns ∧ result = .ok value

/-- The only way in which a run with a result can have ended. -/
def of? : Except SourceError Value → Option Ending
  | .ok _ => some value
  | .error (.notCompiled _) => none
  | .error (.run error) =>
      match error.category with
      | .unresolvedName => some unknownEntry
      | .backend => some noBody
      | .arity => some wrongCount
      | .trap => some trap
      | _ => none

variable {module : Module} {entry : String} {count : Nat} {result : Except SourceError Value}

theorem Describes.of?_eq {ending : Ending}
    (describes : ending.Describes module entry count result) : of? result = some ending := by
  cases ending with
  | unknownEntry =>
      obtain rfl := describes
      rfl
  | noBody =>
      obtain ⟨_, _, _, _, _, rfl⟩ := describes
      rfl
  | wrongCount =>
      obtain ⟨_, rfl⟩ := describes
      rfl
  | trap =>
      obtain ⟨_, trapped, rfl⟩ := describes
      simp [of?, trapped]
  | value =>
      obtain ⟨_, _, _, _, rfl⟩ := describes
      rfl

variable {args : List Int32}

/-- A call that passes the right number of integers traps, finds no body or gives integers. -/
theorem describes_call {function : Function} {known : Known}
    (verified : ∀ function ∈ module.functions, module.Verified function)
    (found : module.get? entry = some function) (described : known.Describes function)
    (count : function.params.length = args.length) :
    ∃ ending : Ending, ending.Describes module entry args.length
      ((module.call entry (args.map .int)).mapError .run) ∧
        ending ≠ .unknownEntry ∧ ending ≠ .wrongCount := by
  have scalarParams : ∀ type ∈ function.params.map (·.type), type = .int32 ∨ type = .float32 := by
    rw [described.fits.params]
    exact fun type member => described.scalar type (List.mem_append_left _ member)
  have scalarReturns : ∀ type ∈ known.returns, type = .int32 ∨ type = .float32 :=
    fun type member => described.scalar type (List.mem_append_right _ member)
  have safe := Run.invoke_safe verified found
    (Value.forall₂_int (by simpa using count) scalarParams) Run.maxFrames
  rw [← Module.call_eq_invoke] at safe
  cases called : module.call entry (args.map .int) with
  | ok result =>
      rw [called, described.fits.returns] at safe
      refine ⟨.value, ⟨function, result, found, ?_, rfl⟩, by simp⟩
      rw [described.fits.returns]
      exact Value.HasType.integersFor safe scalarReturns
  | error error =>
      rw [called] at safe
      rcases safe with trapped | ⟨callee, target, rfl, targetFound, declared, reached⟩
      · exact ⟨.trap, ⟨error, trapped, rfl⟩, by simp⟩
      · exact ⟨.noBody, ⟨callee, target, targetFound, declared, reached, rfl⟩, by simp⟩

/-- In a verified module, every call with integers ends in the way that the entry allows. -/
theorem exists_describes (verified : ∀ function ∈ module.functions, module.Verified function)
    (described : ∀ function ∈ module.functions, ∃ known : Known, known.Describes function)
    (entry : String) (args : List Int32) :
    ∃ ending : Ending, ending.Describes module entry args.length
        ((module.call entry (args.map .int)).mapError .run) ∧
      (ending = .unknownEntry ↔ module.get? entry = none) ∧
        (ending = .wrongCount ↔ ∃ function, module.get? entry = some function ∧
          function.isDeclaration = false ∧ function.params.length ≠ args.length) := by
  cases found : module.get? entry with
  | none =>
      refine ⟨.unknownEntry, ?_, by simp, by simp⟩
      rw [Module.call_eq_invoke, Module.invoke_unknown _ found]
      rfl
  | some function =>
      obtain ⟨known, describes⟩ := described function (List.mem_of_find?_eq_some found)
      cases declared : function.isDeclaration with
      | true =>
          refine ⟨.noBody, ⟨entry, function, found, declared, .refl, ?_⟩, by simp,
            by simp [declared]⟩
          rw [Module.call_eq_invoke, Module.invoke_declaration _ found declared]
          rfl
      | false =>
          by_cases count : function.params.length = args.length
          · obtain ⟨ending, ends, known, counted⟩ := describes_call verified found describes count
            exact ⟨ending, ends, by simp [known], by simp [counted, count]⟩
          · refine ⟨.wrongCount, ⟨function.params.length, ?_⟩, by simp, by simp [declared, count]⟩
            rw [Module.call_eq_invoke,
              Module.invoke_wrongCount _ found declared (by simpa using count)]
            simp

end Ending

theorem Report.accepted {moduleName source : String}
    (isOk : (compile moduleName source).isOk = true) :
    ∀ result ∈ (Lowering.items (.new (.new moduleName)) (compile moduleName source).items).1,
      ∃ index, result = .ok index := by
  intro result member
  rw [← compile_functions] at member
  have noneFailed : (compile moduleName source).failed = 0 := by
    simpa using (Bool.and_eq_true_iff.mp isOk).2
  have fine := List.countP_eq_zero.mp noneFailed _ member
  cases result with
  | ok index => exact ⟨index, rfl⟩
  | error error => simp at fine

/--
Running a source text that is accepted ends in exactly one of five ways. The
entry is unknown exactly if the module has no function of its name, and the
number of arguments is wrong exactly if the entry has a body and another number
of parameters.
-/
theorem runSource_ends {moduleName source : String}
    (isOk : (compile moduleName source).isOk = true) (entry : String) (args : List Int32) :
    let module := (compile moduleName source).module
    let Ends := Ending.Describes module entry args.length (runSource moduleName source entry args)
    (∃! ending, Ends ending) ∧ (Ends .unknownEntry ↔ module.get? entry = none) ∧
      (Ends .wrongCount ↔ ∃ function, module.get? entry = some function ∧
        function.isDeclaration = false ∧ function.params.length ≠ args.length) := by
  intro module Ends
  have called : runSource moduleName source entry args =
      (module.call entry (args.map .int)).mapError .run := by
    simp only [runSource, isOk, if_true, module]
  have realised := Lowering.realised_of_accepted (Report.accepted isOk)
  have describes := Lowering.describes_items (Lowering.describes_new moduleName)
    (compile moduleName source).items
  have ended := Ending.exists_describes (realised.verified describes)
    (fun _ member => describes.exists_known member) entry args
  rw [← compile_module] at ended
  obtain ⟨ending, callEnds, unknown, counted⟩ := ended
  have ends : Ends ending := by
    simp only [Ends, called]
    exact callEnds
  -- The result shows how the run has ended, so that it cannot have ended in two ways.
  have unique {other : Ending} : Ends other ↔ ending = other := by
    constructor
    · intro otherEnds
      exact Option.some.inj (ends.of?_eq.symm.trans otherEnds.of?_eq)
    · rintro rfl
      exact ends
  exact ⟨⟨ending, ends, fun other otherEnds => (unique.mp otherEnds).symm⟩,
    unique.trans unknown, unique.trans counted⟩

/-- A function that divides integers and hands back a float. -/
def halving : String := "(int, float) halve(int a, float b) \x7b return a / 2, b; \x7d"

/-- The run returns a value, although an integer is passed for the float. -/
theorem runSource_ends_halving :
    (compile "halving" halving).isOk = true ∧
      (runSource "halving" halving "halve" [7, 5]).toOption.map Value.render =
        some "\x7b 3, 5 \x7d" ∧
      ∀ ending, Ending.Describes (compile "halving" halving).module "halve" 2
        (runSource "halving" halving "halve" [7, 5]) ending ↔ ending = .value := by
  have isOk : (compile "halving" halving).isOk = true := by decide +kernel
  have rendered : (runSource "halving" halving "halve" [7, 5]).toOption.map Value.render =
      some "\x7b 3, 5 \x7d" := by decide +kernel
  obtain ⟨ending, ends, unique⟩ := (runSource_ends isOk "halve" [7, 5]).1
  obtain rfl : ending = .value := by
    have way := ends.of?_eq
    cases returned : runSource "halving" halving "halve" [7, 5] with
    | error error =>
        rw [returned] at rendered
        cases rendered
    | ok value =>
        rw [returned] at way
        exact (Option.some.inj way).symm
  refine ⟨isOk, rendered, ?_⟩
  intro other
  constructor
  · exact unique other
  · rintro rfl
    exact ends

end Tuplet
