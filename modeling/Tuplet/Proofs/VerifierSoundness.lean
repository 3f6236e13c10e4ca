import Mathlib.Logic.Relation
import Tuplet.Proofs.Lookup
import Tuplet.Proofs.Recursion
import Tuplet.Proofs.Verification

/-!
# Soundness of the verifier

A call of a function in a verified module gives a value of the function's return
type, or traps, or stops at a function without a body.

Verification finds the type of an operand in the text of the function; running
finds its value in two tables that fill up as instructions are run. `Conforms`
links the two: each instruction that has been run has left a value of its type,
and each slot it has made holds nothing or a value of the slot's type. Every
instruction that verification admits keeps this up, and a call is answered by
induction on the room for frames.

Which values the floating-point type has is left open, since arguments from
outside need not be what the parameters say.
-/

namespace Tuplet.Ir

/-- Neither a pointer nor an empty aggregate occurs in a type. -/
inductive ValueType.Storable : ValueType → Prop
  | int32 : Storable .int32
  | float32 : Storable .float32
  | void : Storable .void
  | struct {fields : List ValueType} (nonempty : fields ≠ [])
      (parts : ∀ field ∈ fields, Storable field) : Storable (.struct fields)

theorem ValueType.Storable.ne_pointer {type : ValueType} (storable : type.Storable) :
    type ≠ .pointer := by
  rintro rfl
  cases storable

/-- A caller has an instruction that calls a function. -/
def Module.Calls (module : Module) (caller callee : String) : Prop :=
  ∃ function, module.get? caller = some function ∧
    ∃ instruction ∈ function.code, ∃ args, instruction.action = .call callee args

/-- A function passes verification, its ids are distinct and its types are storable. -/
structure Module.Verified (module : Module) (function : Function) : Prop where
  passed : module.verify function = .ok ()
  distinct : (function.code.map (·.id)).Nodup
  params : ∀ param ∈ function.params, param.type.Storable
  returns : function.returns.Storable
  slots : ∀ instruction ∈ function.code, ∀ type,
    instruction.action = .alloca type → type.Storable

/-- An instruction of a verified function is admitted right behind the instructions `done`. -/
structure Module.Admits (module : Module) (function : Function) (done : List Instruction)
    (instruction : Instruction) : Prop where
  verified : module.Verified function
  member : instruction ∈ function.code
  doneInCode : done ⊆ function.code
  fresh : instruction.id ∉ done.map (·.id)
  available : ∀ operand ∈ instruction.action.operands,
    function.Available (done.map (·.id)) operand
  agree : module.TypesAgree function instruction.action

theorem Module.Admits.resultType {module : Module} {function : Function}
    {done : List Instruction} {instruction : Instruction} {type : ValueType}
    (admits : module.Admits function done instruction)
    (typed : module.typeOf? function (.instr instruction.id) = some type) :
    module.resultType (module.typeOf? function) instruction.action = some type := by
  obtain ⟨found, present, result⟩ := Module.resultType_of_typeOf? typed
  rw [Function.instruction?_of_mem admits.verified.distinct admits.member] at present
  obtain rfl := Option.some.inj present
  exact result

theorem exists_ret_of_isTerminator {instruction : Instruction}
    (terminator : instruction.isTerminator = true) :
    ∃ values, instruction.action = .ret values := by
  unfold Instruction.isTerminator at terminator
  split at terminator
  · exact ⟨_, ‹_›⟩
  · simp at terminator

/-- Arithmetic goes wrong only by trapping. -/
theorem Arithmetic.category_of_eval_error {op : Arithmetic} {left right : Int32}
    {error : Run.RunError} (failed : op.eval left right = .error error) :
    error.category = .trap := by
  unfold eval at failed
  repeat' split at failed
  all_goals
    first
      | (obtain rfl := Except.error.inj failed; rfl)
      | simp at failed

end Tuplet.Ir

namespace Tuplet.Run

open Ir

/-- A value has a type, where `Floating` says which values the floating-point type has. -/
inductive Value.HasType (Floating : Value → Prop) : Value → ValueType → Prop
  | int (value : Int32) : HasType Floating (.int value) .int32
  | float {value : Value} (floating : Floating value) : HasType Floating value .float32
  | void : HasType Floating .void .void
  | aggregate {values : List Value} {fields : List ValueType}
      (parts : List.Forall₂ (HasType Floating) values fields) :
      HasType Floating (.aggregate values) (.struct fields)

/-- A call may come out this way if the function of the name returns this type. -/
def Safe (Floating : Value → Prop) (module : Module) (name : String) (returns : ValueType) :
    Except RunError Value → Prop
  | .ok value => value.HasType Floating returns
  | .error error => error.category = .trap ∨
      ∃ callee target, error = .noBody callee ∧ module.get? callee = some target ∧
        target.isDeclaration = true ∧ Relation.ReflTransGen module.Calls name callee

/-- What goes wrong safely in a call goes wrong safely in its caller. -/
theorem Safe.of_call {Floating : Value → Prop} {module : Module} {caller callee : String}
    {returns returns' : ValueType} {error : RunError} (calls : module.Calls caller callee)
    (safe : Safe Floating module callee returns (.error error)) :
    Safe Floating module caller returns' (.error error) := by
  rcases safe with trapped | ⟨other, target, noBody, found, declared, reached⟩
  · exact .inl trapped
  · exact .inr ⟨other, target, noBody, found, declared, .head calls reached⟩

variable {Floating : Value → Prop} {module : Module} {function : Function}

namespace Frame

/-- What running the instructions `done` of a function has left in a frame has the right types. -/
structure Conforms (Floating : Value → Prop) (module : Module) (function : Function)
    (done : List Instruction) (frame : Frame) : Prop where
  args : List.Forall₂ (Value.HasType Floating) frame.args (function.params.map (·.type))
  values : ∀ instruction ∈ done, ∀ type,
    module.typeOf? function (.instr instruction.id) = some type → type ≠ .pointer →
      ∃ value, frame.values.lookup instruction.id = some value ∧ value.HasType Floating type
  slots : ∀ instruction ∈ done, ∀ type, instruction.action = .alloca type →
    ∃ content, frame.slots.lookup instruction.id = some content ∧
      ∀ value, content = some value → value.HasType Floating type

variable {done : List Instruction} {frame : Frame}

theorem Conforms.start {args : List Value}
    (typed : List.Forall₂ (Value.HasType Floating) args (function.params.map (·.type))) :
    (Frame.start function args).Conforms Floating module function [] :=
  ⟨typed, by simp, by simp⟩

/-- An operand that is available and has a type evaluates to a value of it. -/
theorem Conforms.eval {operand : Operand} {type : ValueType}
    (conforms : frame.Conforms Floating module function done)
    (available : function.Available (done.map (·.id)) operand)
    (typed : module.typeOf? function operand = some type) (notPointer : type ≠ .pointer) :
    ∃ value, frame.eval operand = .ok value ∧ value.HasType Floating type := by
  cases operand with
  | const value =>
      simp only [Module.typeOf?_const, Option.some.injEq] at typed
      subst type
      exact ⟨.int value, rfl, .int value⟩
  | param index =>
      rw [Module.typeOf?_param, ← List.getElem?_map] at typed
      obtain ⟨value, found, hasType⟩ := Lookup.getElem?_of_forall₂ conforms.args typed
      exact ⟨value, by simp [Frame.eval, found], hasType⟩
  | instr id =>
      obtain ⟨instruction, member, rfl⟩ := List.mem_map.mp available
      obtain ⟨value, found, hasType⟩ := conforms.values instruction member type typed notPointer
      exact ⟨value, by simp [Frame.eval, found], hasType⟩

theorem Conforms.evalAll {operands : List Operand} {types : List ValueType}
    (conforms : frame.Conforms Floating module function done)
    (available : ∀ operand ∈ operands, function.Available (done.map (·.id)) operand)
    (typed : operands.map (module.typeOf? function) = types.map some)
    (noPointer : ∀ type ∈ types, type ≠ .pointer) :
    ∃ values, frame.evalAll operands = .ok values ∧
      List.Forall₂ (Value.HasType Floating) values types := by
  induction operands generalizing types with
  | nil =>
      obtain rfl : types = [] := by simpa using typed.symm
      exact ⟨[], rfl, .nil⟩
  | cons operand rest ih =>
      cases types with
      | nil => simp at typed
      | cons type types =>
          simp only [List.map_cons, List.cons.injEq] at typed
          simp only [List.forall_mem_cons] at available noPointer
          obtain ⟨value, evaluated, hasType⟩ :=
            conforms.eval available.1 typed.1 noPointer.1
          obtain ⟨values, restEvaluated, restHasTypes⟩ :=
            ih available.2 typed.2 noPointer.2
          exact ⟨value :: values, by simp [Frame.evalAll, evaluated, restEvaluated],
            .cons hasType restHasTypes⟩

/-- A pointer that an admitted instruction reads points to a slot that has been made. -/
theorem Conforms.slot {pointer : Operand} {type : ValueType} {instruction : Instruction}
    (conforms : frame.Conforms Floating module function done)
    (admits : module.Admits function done instruction)
    (reads : pointer ∈ instruction.action.operands)
    (typed : function.slotType? pointer = some type) :
    ∃ slot ∈ done, ∃ content, pointer = .instr slot.id ∧ slot.action = .alloca type ∧
      frame.content slot.id = .ok content ∧
      ∀ value, content = some value → value.HasType Floating type := by
  cases pointer with
  | const value => simp [Function.slotType?] at typed
  | param index => simp [Function.slotType?] at typed
  | instr id =>
      obtain ⟨slot, member, rfl⟩ := List.mem_map.mp (admits.available _ reads)
      have found :=
        Function.instruction?_of_mem admits.verified.distinct (admits.doneInCode member)
      have action : slot.action = .alloca type := by
        rw [Function.slotType?, found] at typed
        split at typed <;> simp_all
      obtain ⟨content, held, hasType⟩ := conforms.slots slot member type action
      exact ⟨slot, member, content, rfl, action, by simp [Frame.content, held], hasType⟩

/-- Giving an admitted instruction a value of its type keeps a frame conforming. -/
theorem Conforms.define {instruction : Instruction} {value : Value}
    (conforms : frame.Conforms Floating module function done)
    (admits : module.Admits function done instruction)
    (notSlot : ∀ type, instruction.action ≠ .alloca type)
    (typed : ∀ type, module.resultType (module.typeOf? function) instruction.action = some type →
      value.HasType Floating type) :
    (frame.define instruction.id value).Conforms Floating module function
      (done ++ [instruction]) where
  args := conforms.args
  values := by
    intro other member type otherTyped notPointer
    rcases List.mem_append.mp member with old | new
    · have differ : other.id ≠ instruction.id := fun same =>
        admits.fresh (List.mem_map.mpr ⟨other, old, same⟩)
      obtain ⟨found, held⟩ := conforms.values other old type otherTyped notPointer
      exact ⟨found, by simpa [Frame.define, Lookup.lookup_cons_of_ne differ] using held⟩
    · obtain rfl : other = instruction := by simpa using new
      exact ⟨value, by simp [Frame.define], typed type (admits.resultType otherTyped)⟩
  slots := by
    intro other member type action
    rcases List.mem_append.mp member with old | new
    · exact conforms.slots other old type action
    · obtain rfl : other = instruction := by simpa using new
      exact absurd action (notSlot type)

theorem Conforms.allocate {instruction : Instruction} {type : ValueType}
    (conforms : frame.Conforms Floating module function done)
    (admits : module.Admits function done instruction)
    (action : instruction.action = .alloca type) :
    (frame.setSlot instruction.id none).Conforms Floating module function
      (done ++ [instruction]) where
  args := conforms.args
  values := by
    intro other otherMember otherType typed notPointer
    rcases List.mem_append.mp otherMember with old | new
    · exact conforms.values other old otherType typed notPointer
    · obtain rfl : other = instruction := by simpa using new
      have result := admits.resultType typed
      simp only [action, Module.resultType, Option.some.injEq] at result
      exact absurd result.symm notPointer
  slots := by
    intro other otherMember otherType otherAction
    rcases List.mem_append.mp otherMember with old | new
    · have differ : other.id ≠ instruction.id := fun same =>
        admits.fresh (List.mem_map.mpr ⟨other, old, same⟩)
      obtain ⟨content, held, hasType⟩ := conforms.slots other old otherType otherAction
      exact ⟨content, by simpa [setSlot, Lookup.lookup_cons_of_ne differ] using held, hasType⟩
    · obtain rfl : other = instruction := by simpa using new
      exact ⟨none, by simp [setSlot], by simp⟩

/-- Writing a value of a slot's type keeps a frame conforming. -/
theorem Conforms.write {slot instruction : Instruction} {stored pointer : Operand}
    {type : ValueType} {value : Value}
    (conforms : frame.Conforms Floating module function done)
    (admits : module.Admits function done instruction)
    (action : instruction.action = .store stored pointer)
    (slotMember : slot ∈ done) (slotAction : slot.action = .alloca type)
    (hasType : value.HasType Floating type) :
    (frame.setSlot slot.id (some value)).Conforms Floating module function
      (done ++ [instruction]) where
  args := conforms.args
  values := by
    intro other otherMember otherType typed notPointer
    rcases List.mem_append.mp otherMember with old | new
    · exact conforms.values other old otherType typed notPointer
    · obtain rfl : other = instruction := by simpa using new
      simpa [action, Module.resultType] using admits.resultType typed
  slots := by
    intro other otherMember otherType otherAction
    rcases List.mem_append.mp otherMember with old | new
    · by_cases same : other.id = slot.id
      · have distinct := admits.verified.distinct
        obtain rfl : other = slot := by
          have found := Function.instruction?_of_mem distinct (admits.doneInCode old)
          rw [same, Function.instruction?_of_mem distinct (admits.doneInCode slotMember)] at found
          exact (Option.some.inj found).symm
        obtain rfl : otherType = type := by simpa [slotAction] using otherAction.symm
        exact ⟨some value, by simp [setSlot], by simpa using hasType⟩
      · obtain ⟨content, held, contentType⟩ := conforms.slots other old otherType otherAction
        exact ⟨content, by simpa [setSlot, Lookup.lookup_cons_of_ne same] using held, contentType⟩
    · obtain rfl : other = instruction := by simpa using new
      simp [action] at otherAction

end Frame

/-- What a step of a frame leads to conforms once the instructions `done` have been run. -/
def Progress.Conforms (Floating : Value → Prop) (module : Module) (function : Function)
    (done : List Instruction) : Progress → Prop
  | .next frame => frame.Conforms Floating module function done
  | .call callee args caller =>
      (∃ instruction ∈ done, ∃ operands, instruction.action = .call callee operands) ∧
        ∃ target, module.get? callee = some target ∧
          List.Forall₂ (Value.HasType Floating) args (target.params.map (·.type)) ∧
            ∀ value, value.HasType Floating target.returns →
              (caller.frame.define caller.result value).Conforms Floating module function done
  | .ret value => value.HasType Floating function.returns

namespace Frame

variable {done : List Instruction} {frame : Frame} {instruction : Instruction}

/-- An instruction is performed and leads to something that conforms, or it traps. -/
def Performs (Floating : Value → Prop) (module : Module) (function : Function)
    (done : List Instruction) (instruction : Instruction) (frame : Frame) : Prop :=
  (∃ progress, frame.perform instruction.id instruction.action = .ok progress ∧
      progress.Conforms Floating module function (done ++ [instruction])) ∨
    ∃ error, frame.perform instruction.id instruction.action = .error error ∧
      error.category = .trap

theorem Conforms.load {type : ValueType} {pointer : Operand}
    (conforms : frame.Conforms Floating module function done)
    (admits : module.Admits function done instruction)
    (action : instruction.action = .load type pointer) :
    frame.Performs Floating module function done instruction := by
  have slotType : function.slotType? pointer = some type := by
    simpa [action, Module.TypesAgree] using admits.agree
  obtain ⟨slot, _, content, rfl, _, held, hasType⟩ :=
    conforms.slot admits (by simp [action, Action.operands]) slotType
  cases content with
  | none =>
      right
      exact ⟨.uninitialised slot.id, by simp [Frame.perform, action, slotId, held], rfl⟩
  | some value =>
      left
      refine ⟨.next (frame.define instruction.id value),
        by simp [Frame.perform, action, slotId, held],
        conforms.define admits (by simp [action]) ?_⟩
      intro resultType result
      obtain rfl : type = resultType := by simpa [action, Module.resultType] using result
      exact hasType value rfl

theorem Conforms.store {value pointer : Operand}
    (conforms : frame.Conforms Floating module function done)
    (admits : module.Admits function done instruction)
    (action : instruction.action = .store value pointer) :
    frame.Performs Floating module function done instruction := by
  obtain ⟨type, slotType, valueType⟩ : module.TypesAgree function (.store value pointer) := by
    simpa [action] using admits.agree
  obtain ⟨slot, slotMember, content, rfl, slotAction, held, _⟩ :=
    conforms.slot admits (by simp [action, Action.operands]) slotType
  have storable := admits.verified.slots slot (admits.doneInCode slotMember) type slotAction
  obtain ⟨stored, evaluated, hasType⟩ :=
    conforms.eval (admits.available value (by simp [action, Action.operands])) valueType
      storable.ne_pointer
  left
  exact ⟨.next (frame.setSlot slot.id (some stored)),
    by simp [Frame.perform, action, slotId, held, evaluated],
    conforms.write admits action slotMember slotAction hasType⟩

theorem Conforms.arith {op : Arithmetic} {left right : Operand}
    (conforms : frame.Conforms Floating module function done)
    (admits : module.Admits function done instruction)
    (action : instruction.action = .arith op left right) :
    frame.Performs Floating module function done instruction := by
  obtain ⟨leftType, rightType⟩ : module.TypesAgree function (.arith op left right) := by
    simpa [action] using admits.agree
  obtain ⟨_, leftEvaluated, ⟨leftInt⟩⟩ :=
    conforms.eval (admits.available left (by simp [action, Action.operands])) leftType (by simp)
  obtain ⟨_, rightEvaluated, ⟨rightInt⟩⟩ :=
    conforms.eval (admits.available right (by simp [action, Action.operands])) rightType (by simp)
  cases computed : op.eval leftInt rightInt with
  | error error =>
      right
      exact ⟨error,
        by simp [Frame.perform, action, leftEvaluated, rightEvaluated, Value.toInt, computed],
        Arithmetic.category_of_eval_error computed⟩
  | ok value =>
      left
      refine ⟨.next (frame.define instruction.id (.int value)),
        by simp [Frame.perform, action, leftEvaluated, rightEvaluated, Value.toInt, computed],
        conforms.define admits (by simp [action]) ?_⟩
      intro type result
      obtain rfl : ValueType.int32 = type := by simpa [action, Module.resultType] using result
      exact .int value

theorem Conforms.call {callee : String} {args : List Operand}
    (verified : ∀ function ∈ module.functions, module.Verified function)
    (conforms : frame.Conforms Floating module function done)
    (admits : module.Admits function done instruction)
    (action : instruction.action = .call callee args) :
    frame.Performs Floating module function done instruction := by
  obtain ⟨target, found, argTypes⟩ : module.TypesAgree function (.call callee args) := by
    simpa only [action] using admits.agree
  have targetVerified := verified target (List.mem_of_find?_eq_some found)
  have noPointer : ∀ type ∈ target.params.map (·.type), type ≠ .pointer := by
    intro type member
    obtain ⟨param, paramMember, rfl⟩ := List.mem_map.mp member
    exact (targetVerified.params param paramMember).ne_pointer
  have available : ∀ operand ∈ args, function.Available (done.map (·.id)) operand := by
    simpa [action, Action.operands] using admits.available
  obtain ⟨values, evaluated, hasTypes⟩ := conforms.evalAll available argTypes noPointer
  left
  refine ⟨.call callee values ⟨frame, instruction.id⟩,
    by simp [Frame.perform, action, evaluated],
    ⟨instruction, by simp, args, action⟩, target, found, hasTypes, ?_⟩
  intro value hasType
  apply conforms.define admits (by simp [action])
  intro type result
  simp only [action, Module.resultType, found, Option.bind_some, Option.ite_none_left_eq_some,
    Option.some.injEq] at result
  exact result.2 ▸ hasType

theorem Conforms.extract {aggregate : Operand} {index : Nat}
    (conforms : frame.Conforms Floating module function done)
    (admits : module.Admits function done instruction)
    (action : instruction.action = .extract aggregate index) :
    frame.Performs Floating module function done instruction := by
  obtain ⟨fields, aggregateType, inRange⟩ :
      module.TypesAgree function (.extract aggregate index) := by
    simpa only [action] using admits.agree
  obtain ⟨whole, evaluated, wholeType⟩ :=
    conforms.eval (admits.available aggregate (by simp [action, Action.operands])) aggregateType
      (by simp)
  cases wholeType with
  | aggregate partTypes =>
      obtain ⟨value, present, hasType⟩ :=
        Lookup.getElem?_of_forall₂ partTypes (List.getElem?_eq_getElem inRange)
      left
      refine ⟨.next (frame.define instruction.id value),
        by simp [Frame.perform, action, evaluated, Value.field, present],
        conforms.define admits (by simp [action]) ?_⟩
      intro type result
      simp only [action, Module.resultType, aggregateType, List.getElem?_eq_getElem inRange,
        Option.some.injEq] at result
      exact result ▸ hasType

theorem Conforms.ret {values : List Operand}
    (conforms : frame.Conforms Floating module function done)
    (admits : module.Admits function done instruction)
    (action : instruction.action = .ret values) :
    ∃ value, frame.perform instruction.id instruction.action = .ok (.ret value) ∧
      value.HasType Floating function.returns := by
  have agree : module.TypesAgree function (.ret values) := by
    simpa only [action] using admits.agree
  have available : ∀ operand ∈ values, function.Available (done.map (·.id)) operand := by
    simpa [action, Action.operands] using admits.available
  have storable := admits.verified.returns
  rcases agree with ⟨returns, rfl⟩ | ⟨fields, returns, typed⟩
  · rw [returns, action]
    exact ⟨.void, rfl, .void⟩
  · rw [returns] at storable ⊢
    cases storable with
    | struct nonempty parts =>
        obtain ⟨results, evaluated, hasTypes⟩ :=
          conforms.evalAll available typed (fun type member => (parts type member).ne_pointer)
        cases hasTypes with
        | nil => exact absurd rfl nonempty
        | cons first others =>
            exact ⟨.aggregate _, by simp [Frame.perform, action, evaluated, Value.ofReturns],
              .aggregate (.cons first others)⟩

/-- Every instruction that verification admits is performed safely. -/
theorem Conforms.performs
    (verified : ∀ function ∈ module.functions, module.Verified function)
    (conforms : frame.Conforms Floating module function done)
    (admits : module.Admits function done instruction) :
    frame.Performs Floating module function done instruction := by
  cases action : instruction.action with
  | alloca type =>
      exact .inl ⟨.next (frame.setSlot instruction.id none), by rw [action]; rfl,
        conforms.allocate admits action⟩
  | load type pointer => exact conforms.load admits action
  | store value pointer => exact conforms.store admits action
  | arith op left right => exact conforms.arith admits action
  | call callee args => exact conforms.call verified admits action
  | extract aggregate index => exact conforms.extract admits action
  | ret values =>
      obtain ⟨value, performed, hasType⟩ := conforms.ret admits action
      exact .inl ⟨.ret value, performed, hasType⟩

/-- The instruction that comes next in an admissible block is admitted. -/
theorem admits_of_admissible {defined : List Nat} {rest behind : List Instruction}
    (verified : module.Verified function)
    (split : function.code = done ++ instruction :: rest ++ behind)
    (defines : defined ⊆ done.map (·.id))
    (admissible : module.Admissible function defined (instruction :: rest)) :
    module.Admits function done instruction where
  verified := verified
  member := by simp [split]
  doneInCode := by simp [split]
  fresh := by
    have nodup := verified.distinct
    rw [split, List.append_assoc, List.map_append, List.nodup_append] at nodup
    intro repeated
    exact nodup.2.2 instruction.id repeated instruction.id (by simp) rfl
  available operand member := (admissible.2.1 operand member).mono defines
  agree := admissible.2.2.1

/-- Going on from where a step has led is safe if the frame that is left is. -/
theorem safe_of_progress {invoke : Invoke} {name : String} {progress : Progress}
    {code : List Instruction} (found : module.get? name = some function)
    (answers : ∀ callee target args, module.get? callee = some target →
      List.Forall₂ (Value.HasType Floating) args (target.params.map (·.type)) →
        Safe Floating module callee target.returns (invoke callee args))
    (doneInCode : done ⊆ function.code) (leaves : progress.Leaves code)
    (conforms : progress.Conforms Floating module function done)
    (safe : ∀ frame : Frame, frame.code = code → frame.Conforms Floating module function done →
      Safe Floating module name function.returns (frame.finish invoke)) :
    Safe Floating module name function.returns (progress.finish invoke) := by
  cases progress with
  | next frame => exact safe frame leaves conforms
  | ret value => exact conforms
  | call callee args caller =>
      obtain ⟨⟨calling, member, operands, action⟩, target, targetFound, argTypes, resumes⟩ :=
        conforms
      have calls : module.Calls name callee :=
        ⟨function, found, calling, doneInCode member, operands, action⟩
      have answer := answers callee target args targetFound argTypes
      rw [Progress.finish]
      cases answered : invoke callee args with
      | error error =>
          rw [answered] at answer
          exact answer.of_call calls
      | ok value =>
          rw [answered] at answer
          exact safe _ leaves (resumes value answer)

/--
Running the rest of a verified block is safe if calls are answered safely.
Behind the block there may be others, which are never reached.
-/
theorem Conforms.finish {invoke : Invoke} {name : String} {defined : List Nat}
    {todo behind : List Instruction}
    (verified : ∀ function ∈ module.functions, module.Verified function)
    (found : module.get? name = some function)
    (answers : ∀ callee target args, module.get? callee = some target →
      List.Forall₂ (Value.HasType Floating) args (target.params.map (·.type)) →
        Safe Floating module callee target.returns (invoke callee args))
    (split : function.code = done ++ todo ++ behind) (code : frame.code = todo ++ behind)
    (ends : ∃ last ∈ todo.getLast?, last.isTerminator = true)
    (defines : defined ⊆ done.map (·.id))
    (admissible : module.Admissible function defined todo)
    (conforms : frame.Conforms Floating module function done) :
    Safe Floating module name function.returns (frame.finish invoke) := by
  -- Instructions move from `todo` to `done` one by one, which keeps the frame conforming.
  induction todo generalizing done defined frame with
  | nil => simp at ends
  | cons instruction rest ih =>
      have admits := admits_of_admissible
        (verified function (List.mem_of_find?_eq_some found)) split defines admissible
      have opened : frame.finish invoke =
          (frame.withCode (rest ++ behind)).perform instruction.id instruction.action >>=
            Progress.finish invoke := by
        rw [← finish_cons, withCode, ← List.cons_append, ← code]
      have advanced : (frame.withCode (rest ++ behind)).Conforms Floating module function done :=
        ⟨conforms.args, conforms.values, conforms.slots⟩
      rw [opened]
      by_cases terminator : instruction.isTerminator = true
      · obtain ⟨values, action⟩ := exists_ret_of_isTerminator terminator
        obtain ⟨value, performed, hasType⟩ := advanced.ret admits action
        rw [performed]
        exact hasType
      · have restEnds : ∃ last ∈ rest.getLast?, last.isTerminator = true := by
          cases rest with
          | nil => simp [terminator] at ends
          | cons second others => simpa using ends
        have splitAfter : function.code = done ++ [instruction] ++ rest ++ behind := by
          simp [split]
        have definesAfter : instruction.id :: defined ⊆ (done ++ [instruction]).map (·.id) := by
          simpa using List.subset_append_of_subset_left _ defines
        rcases advanced.performs verified admits with
          ⟨progress, performed, progressConforms⟩ | ⟨error, performed, trapped⟩
        · rw [performed]
          refine safe_of_progress found answers (by simp [splitAfter])
            (leaves_of_perform performed) progressConforms ?_
          intro next nextCode nextConforms
          exact ih splitAfter nextCode restEnds definesAfter admissible.2.2.2 nextConforms
        · rw [performed]
          exact .inl trapped

end Frame

theorem Safe.declaration {name : String} {args : List Value} {returns : ValueType} (room : Nat)
    (found : module.get? name = some function) (declared : function.isDeclaration = true) :
    Safe Floating module name returns (module.invoke room name args) := by
  rw [Module.invoke_declaration room found declared]
  exact .inr ⟨name, function, rfl, found, declared, .refl⟩

/-- The body of a verified function starts with a block that is admissible and has an end. -/
theorem entry_of_verified (verified : module.Verified function)
    (body : function.isDeclaration = false) :
    ∃ todo behind, function.code = todo ++ behind ∧ module.Admissible function [] todo ∧
      ∃ last ∈ todo.getLast?, last.isTerminator = true := by
  cases blocks : function.blocks with
  | nil => simp [Function.isDeclaration, blocks] at body
  | cons entry others =>
      have passed := verified.passed
      rw [Module.verify, blocks, Module.checkBlocks_cons_eq_ok_iff] at passed
      obtain ⟨ended, admissible, _⟩ := passed
      refine ⟨entry.code, others.flatMap (·.code), by simp [Function.code, blocks], admissible, ?_⟩
      obtain ⟨last, isLast⟩ := Option.isSome_iff_exists.mp ended
      exact ⟨last, by simpa [Block.terminator?] using isLast⟩

/-- Calling a function with arguments of its parameters' types is safe. -/
theorem invoke_safe (verified : ∀ function ∈ module.functions, module.Verified function)
    {name : String} {args : List Value} (found : module.get? name = some function)
    (typed : List.Forall₂ (Value.HasType Floating) args (function.params.map (·.type)))
    (room : Nat) : Safe Floating module name function.returns (module.invoke room name args) := by
  induction room generalizing name function args with
  | zero =>
      have count : function.params.length = args.length := by simpa using typed.length_eq.symm
      cases body : function.isDeclaration with
      | true => exact .declaration 0 found body
      | false =>
          rw [Module.invoke_full found body count]
          exact .inl rfl
  | succ room ih =>
      have count : function.params.length = args.length := by simpa using typed.length_eq.symm
      cases body : function.isDeclaration with
      | true => exact .declaration (room + 1) found body
      | false =>
          rw [Module.invoke_succ room found body count]
          obtain ⟨todo, behind, split, admissible, ends⟩ :=
            entry_of_verified (verified function (List.mem_of_find?_eq_some found)) body
          exact Frame.Conforms.finish verified found
            (fun callee target args targetFound argTypes => ih targetFound argTypes)
            split split ends (List.nil_subset _) admissible (Frame.Conforms.start typed)

/-- A value of the floating-point type, as functions of a module pass them on. -/
def Value.IsFloat (value : Value) : Prop := ∃ single, value = .float single

end Tuplet.Run

namespace Tuplet.Ir.Module

open Run

/--
In a module whose functions are verified, calling a function that has a body
with arguments of its parameters' types returns a value of its return type, or
traps, or reaches a function that has no body. Nothing else can go wrong.
-/
theorem call_of_verified {module : Module}
    (verified : ∀ function ∈ module.functions, module.Verified function)
    {name : String} {function : Function} (found : module.get? name = some function)
    (body : function.isDeclaration = false) {args : List Value}
    (typed : List.Forall₂ (Value.HasType Value.IsFloat) args (function.params.map (·.type))) :
    (∃ value, module.call name args = .ok value ∧
        value.HasType Value.IsFloat function.returns) ∨
      (∃ error, module.call name args = .error error ∧ error.category = .trap) ∨
      ∃ callee target, module.call name args = .error (.noBody callee) ∧
        module.get? callee = some target ∧ target.isDeclaration = true ∧
        Relation.TransGen module.Calls name callee := by
  have safe := invoke_safe verified found typed maxFrames
  rw [← call_eq_invoke] at safe
  cases called : module.call name args with
  | ok value =>
      rw [called] at safe
      exact .inl ⟨value, rfl, safe⟩
  | error error =>
      rw [called] at safe
      rcases safe with trapped | ⟨callee, target, rfl, targetFound, declared, reached⟩
      · exact .inr (.inl ⟨error, rfl, trapped⟩)
      · rcases Relation.reflTransGen_iff_eq_or_transGen.mp reached with rfl | reached
        · rw [found] at targetFound
          obtain rfl := Option.some.inj targetFound
          simp [body] at declared
        · exact .inr (.inr ⟨callee, target, rfl, targetFound, declared, reached⟩)

end Tuplet.Ir.Module

namespace Tuplet.Ir.Module

open Run

/-- A function that divides what another one hands back, which it has kept in a slot. -/
def sharing : Module :=
  { name := "sharing"
    functions :=
      [{ name := "swap"
         params := [⟨.int32, "count"⟩, ⟨.float32, "weight"⟩]
         returns := .struct [.float32, .int32]
         blocks := [⟨"entry",
           [⟨0, "kept", .alloca .int32⟩,
            ⟨1, "", .store (.param 0) (.instr 0)⟩,
            ⟨2, "kept", .load .int32 (.instr 0)⟩,
            ⟨3, "", .ret [.param 1, .instr 2]⟩]⟩]
         nextId := 4 },
       { name := "half"
         params := [⟨.int32, "count"⟩, ⟨.float32, "weight"⟩]
         returns := .struct [.int32]
         blocks := [⟨"entry",
           [⟨0, "swap", .call "swap" [.param 0, .param 1]⟩,
            ⟨1, "", .extract (.instr 0) 1⟩,
            ⟨2, "", .arith .sdiv (.instr 1) (.const 2)⟩,
            ⟨3, "", .ret [.instr 2]⟩]⟩]
         nextId := 4 }] }

theorem sharing_verified : ∀ function ∈ sharing.functions, sharing.Verified function := by
  have storable : ∀ type ∈ [ValueType.int32, .float32], type.Storable := by
    simp [ValueType.Storable.int32, ValueType.Storable.float32]
  intro function member
  simp only [sharing, List.mem_cons, List.not_mem_nil, or_false] at member
  rcases member with rfl | rfl
  · exact ⟨rfl, by decide, by simp [storable], .struct (by simp) (by simp [storable]),
      by simp [Function.code, storable]⟩
  · exact ⟨rfl, by decide, by simp [storable], .struct (by simp) (by simp [storable]),
      by simp [Function.code]⟩

/-- The call returns a value, of the type that the function returns. -/
theorem call_of_verified_sharing :
    (∀ function ∈ sharing.functions, sharing.Verified function) ∧
      sharing.call "half" [.int 7, .float ⟨0x3f800000⟩] = .ok (.aggregate [.int 3]) ∧
      (Value.aggregate [.int 3]).HasType Value.IsFloat (.struct [.int32]) := by
  have found : sharing.get? "half" = some sharing.functions[1] := rfl
  have returned : sharing.call "half" [.int 7, .float ⟨0x3f800000⟩] =
      .ok (.aggregate [.int 3]) := by
    rw [call_eq_invoke]
    with_unfolding_all rfl
  refine ⟨sharing_verified, returned, ?_⟩
  rcases call_of_verified sharing_verified found rfl
    (.cons (.int 7) (.cons (.float ⟨⟨0x3f800000⟩, rfl⟩) .nil)) with
    ⟨value, succeeded, typed⟩ | ⟨error, failed, _⟩ | ⟨callee, target, failed, _⟩
  · cases returned.symm.trans succeeded
    exact typed
  · cases returned.symm.trans failed
  · cases returned.symm.trans failed

end Tuplet.Ir.Module
