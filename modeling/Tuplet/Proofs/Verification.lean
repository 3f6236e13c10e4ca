import Tuplet.Ir.Verify
import Tuplet.Proofs.Lookup
import Tuplet.Proofs.Result

/-!
# What verification establishes

A block passes verification exactly if its last instruction is its only
terminator and every instruction is admissible where it stands: its operands are
available by then, and the types of its parts agree. Availability is about the
order of instructions, agreement about the text of the whole function, so the
two are kept apart.

Agreement depends on a module only through the parameters and results of the
functions that are called. A function that has passed verification therefore
still passes it after the module has grown.
-/

namespace Tuplet.Ir

/-- The operands of an instruction in the order in which they are checked. -/
def Action.operands : Action → List Operand
  | .alloca _ => []
  | .load _ pointer => [pointer]
  | .store value pointer => [value, pointer]
  | .arith _ left right => [left, right]
  | .call _ args => args
  | .extract aggregate _ => [aggregate]
  | .ret values => values

namespace Function

/-- An operand can be read once the instructions `defined` have been run. -/
def Available (function : Function) (defined : List Nat) : Operand → Prop
  | .const _ => True
  | .param index => index < function.params.length
  | .instr id => id ∈ defined

theorem checkOperand_eq_ok_iff {function : Function} {defined : List Nat} {operand : Operand} :
    function.checkOperand defined operand = .ok () ↔ function.Available defined operand := by
  cases operand with
  | const value => simp [checkOperand, Available]
  | param index => exact Result.ite_eq_ok_iff
  | instr id => exact Result.ite_eq_ok_iff

theorem checkOperands_eq_ok_iff {function : Function} {defined : List Nat}
    {operands : List Operand} :
    function.checkOperands defined operands = .ok () ↔
      ∀ operand ∈ operands, function.Available defined operand := by
  induction operands with
  | nil => simp [checkOperands]
  | cons operand rest ih =>
      simp [checkOperands, Result.check_bind_eq_ok_iff, checkOperand_eq_ok_iff, ih]

theorem Available.mono {function : Function} {defined more : List Nat} {operand : Operand}
    (available : function.Available defined operand) (subset : defined ⊆ more) :
    function.Available more operand := by
  cases operand with
  | const value => trivial
  | param index => exact available
  | instr id => exact subset available

theorem instruction?_of_mem {function : Function} {instruction : Instruction}
    (distinct : (function.code.map (·.id)).Nodup) (member : instruction ∈ function.code) :
    function.instruction? instruction.id = some instruction :=
  Lookup.find?_of_mem distinct member

end Function

namespace Module

/-- The types of the parts of an instruction agree. -/
def TypesAgree (module : Module) (function : Function) : Action → Prop
  | .alloca _ => True
  | .load type pointer => function.slotType? pointer = some type
  | .store value pointer => ∃ type,
      function.slotType? pointer = some type ∧ module.typeOf? function value = some type
  | .arith _ left right =>
      module.typeOf? function left = some .int32 ∧ module.typeOf? function right = some .int32
  | .call callee args => ∃ target, module.get? callee = some target ∧
      args.map (module.typeOf? function) = (target.params.map (·.type)).map some
  | .extract aggregate index => ∃ fields,
      module.typeOf? function aggregate = some (.struct fields) ∧ index < fields.length
  | .ret values =>
      function.returns = .void ∧ values = [] ∨
        ∃ fields, function.returns = .struct fields ∧
          values.map (module.typeOf? function) = fields.map some

theorem checkArguments_eq_ok_iff {module : Module} {function : Function} {callee : String}
    {args : List Operand} {params : List Param} (sameLength : params.length = args.length) :
    module.checkArguments function callee args params = .ok () ↔
      args.map (module.typeOf? function) = (params.map (·.type)).map some := by
  induction args generalizing params with
  | nil =>
      obtain rfl : params = [] := List.length_eq_zero_iff.mp sameLength
      simp [checkArguments]
  | cons arg args ih =>
      cases params with
      | nil => simp at sameLength
      | cons param params =>
          simp only [List.length_cons, Nat.add_right_cancel_iff] at sameLength
          by_cases agree : module.typeOf? function arg = some param.type
          · simp [checkArguments, agree, ih sameLength]
          · simp [checkArguments, agree]

theorem returnsMatch_iff {module : Module} {function : Function} {values : List Operand} :
    module.returnsMatch function values = true ↔ module.TypesAgree function (.ret values) := by
  unfold returnsMatch TypesAgree
  cases function.returns <;> simp

/-- An instruction passes exactly if its operands are available and its types agree. -/
theorem checkAction_eq_ok_iff {module : Module} {function : Function} {defined : List Nat}
    {id : Nat} {action : Action} :
    module.checkAction function defined id action = .ok () ↔
      (∀ operand ∈ action.operands, function.Available defined operand) ∧
        module.TypesAgree function action := by
  cases action with
  | alloca type => simp [checkAction, Action.operands, TypesAgree]
  | load type pointer =>
      simp [checkAction, Action.operands, TypesAgree, Result.check_bind_eq_ok_iff,
        Function.checkOperand_eq_ok_iff]
  | store value pointer =>
      simp only [checkAction, Action.operands, TypesAgree, Result.check_bind_eq_ok_iff,
        Function.checkOperand_eq_ok_iff, List.forall_mem_cons, List.not_mem_nil, false_imp_iff,
        implies_true, and_true, and_assoc, and_congr_right_iff]
      intro _ _
      cases function.slotType? pointer <;> simp
  | arith op left right =>
      simp [checkAction, Action.operands, TypesAgree, Result.check_bind_eq_ok_iff,
        Function.checkOperand_eq_ok_iff, and_assoc]
  | call callee args =>
      simp only [checkAction, Action.operands, TypesAgree, Result.check_bind_eq_ok_iff,
        Function.checkOperands_eq_ok_iff, and_congr_right_iff]
      intro _
      cases module.get? callee with
      | none => simp
      | some target =>
          by_cases sameLength : target.params.length = args.length
          · simp [sameLength, checkArguments_eq_ok_iff sameLength]
          · have differ : args.map (module.typeOf? function) ≠
                (target.params.map (·.type)).map some := by
              intro same
              exact sameLength (by simpa using (congrArg List.length same).symm)
            simpa [sameLength] using differ
  | extract aggregate index =>
      simp only [checkAction, Action.operands, TypesAgree, Result.check_bind_eq_ok_iff,
        Function.checkOperand_eq_ok_iff, List.forall_mem_cons, List.not_mem_nil, false_imp_iff,
        implies_true, and_true, and_congr_right_iff]
      intro _
      rcases module.typeOf? function aggregate with _ | type
      · simp
      · cases type <;> simp
  | ret values =>
      simp [checkAction, Action.operands, Result.check_bind_eq_ok_iff,
        Function.checkOperands_eq_ok_iff, returnsMatch_iff]

/-- Instructions are admissible in this order, once the instructions `defined` have been run. -/
def Admissible (module : Module) (function : Function) (defined : List Nat) :
    List Instruction → Prop
  | [] => True
  | instruction :: rest =>
      (instruction.isTerminator = true → rest = []) ∧
        (∀ operand ∈ instruction.action.operands, function.Available defined operand) ∧
          module.TypesAgree function instruction.action ∧
            module.Admissible function (instruction.id :: defined) rest

theorem checkCode_eq_ok_iff {module : Module} {function : Function} {block : String}
    {defined after : List Nat} {code : List Instruction} :
    module.checkCode function block defined code = .ok after ↔
      module.Admissible function defined code ∧
        after = (code.map (·.id)).reverse ++ defined := by
  induction code generalizing defined with
  | nil => simp [checkCode, Admissible, eq_comm]
  | cons instruction rest ih =>
      by_cases early : instruction.isTerminator = true ∧ rest ≠ []
      · simp [checkCode, Admissible, early]
      · have last : instruction.isTerminator = true → rest = [] := by
          simpa using early
        have passes : (instruction.isTerminator && !rest.isEmpty) = false := by
          simpa using last
        simp only [checkCode, passes, Admissible, and_iff_right last]
        simp [Result.check_bind_eq_ok_iff, checkAction_eq_ok_iff, ih, and_assoc]

theorem checkBlocks_cons_eq_ok_iff {module : Module} {function : Function} {defined : List Nat}
    {block : Block} {rest : List Block} :
    module.checkBlocks function defined (block :: rest) = .ok () ↔
      block.terminator?.isSome = true ∧ module.Admissible function defined block.code ∧
        module.checkBlocks function ((block.code.map (·.id)).reverse ++ defined) rest = .ok () := by
  cases ended : block.terminator? with
  | none => simp [checkBlocks, ended]
  | some terminator =>
      simp [checkBlocks, ended, Result.bind_eq_ok_iff, checkCode_eq_ok_iff, and_assoc]

/-- A function with a single block passes exactly if the block has a good end and order. -/
theorem verify_eq_ok_iff {module : Module} {function : Function} {block : Block}
    (single : function.blocks = [block]) :
    module.verify function = .ok () ↔
      block.terminator?.isSome = true ∧ module.Admissible function [] block.code := by
  rw [verify, single, checkBlocks_cons_eq_ok_iff]
  simp [checkBlocks]

/-- The type of what an instruction evaluates to, when `typeOf` says the types of operands. -/
def resultType (module : Module) (typeOf : Operand → Option ValueType) :
    Action → Option ValueType
  | .alloca _ => some .pointer
  | .load type _ => some type
  | .arith _ _ _ => some .int32
  | .call callee _ => (module.get? callee).bind fun target =>
      if target.returns = .void then none else some target.returns
  | .extract aggregate index =>
      match typeOf aggregate with
      | some (.struct fields) => fields[index]?
      | _ => none
  | .store _ _ | .ret _ => none

theorem typeWithin_instr (module : Module) (function : Function) (depth id : Nat) :
    module.typeWithin function (depth + 1) (.instr id) =
      (function.instruction? id).bind fun instruction =>
        module.resultType (module.typeWithin function depth) instruction.action := by
  rw [typeWithin]
  cases function.instruction? id with
  | none => rfl
  | some instruction =>
      cases action : instruction.action with
      | call callee args => cases found : module.get? callee <;> simp [resultType, action, found]
      | extract aggregate index =>
          cases typed : module.typeWithin function depth aggregate with
          | none => simp [resultType, action, typed]
          | some type => cases type <;> simp [resultType, action, typed]
      | _ => simp [resultType, action]

/-- A module has at least the functions of another one, with the same parameters and results. -/
def Extends (larger smaller : Module) : Prop :=
  ∀ name function, smaller.get? name = some function →
    ∃ other, larger.get? name = some other ∧ other.params = function.params ∧
      other.returns = function.returns

theorem Extends.refl (module : Module) : module.Extends module :=
  fun _ function found => ⟨function, found, rfl, rfl⟩

/-- A type that was found is found again where at least as much is known. -/
theorem resultType_mono {larger smaller : Module} (extended : larger.Extends smaller)
    {typeOf typeOf' : Operand → Option ValueType}
    (known : ∀ operand type, typeOf operand = some type → typeOf' operand = some type)
    {action : Action} {type : ValueType} (found : smaller.resultType typeOf action = some type) :
    larger.resultType typeOf' action = some type := by
  cases action with
  | call callee args =>
      simp only [resultType, Option.bind_eq_some_iff] at found ⊢
      obtain ⟨target, targetFound, returned⟩ := found
      obtain ⟨other, otherFound, _, returnsEq⟩ := extended callee target targetFound
      exact ⟨other, otherFound, by rw [returnsEq]; exact returned⟩
  | extract aggregate index =>
      simp only [resultType] at found ⊢
      cases inner : typeOf aggregate with
      | none => simp [inner] at found
      | some aggregateType =>
          rw [known aggregate aggregateType inner]
          simpa [inner] using found
  | store value pointer => simp [resultType] at found
  | ret values => simp [resultType] at found
  | _ => simpa [resultType] using found

/-- Searching deeper, and in a larger module, finds the same type. -/
theorem typeWithin_mono {larger smaller : Module} (extended : larger.Extends smaller)
    {function : Function} {depth : Nat} (more : Nat) {operand : Operand} {type : ValueType}
    (found : smaller.typeWithin function depth operand = some type) :
    larger.typeWithin function (depth + more) operand = some type := by
  induction depth generalizing operand type with
  | zero =>
      cases operand with
      | const value => cases more <;> simpa [typeWithin] using found
      | param index => cases more <;> simpa [typeWithin] using found
      | instr id => simp [typeWithin] at found
  | succ depth ih =>
      rw [Nat.add_right_comm]
      cases operand with
      | const value => simpa [typeWithin] using found
      | param index => simpa [typeWithin] using found
      | instr id =>
          rw [typeWithin_instr, Option.bind_eq_some_iff] at found ⊢
          obtain ⟨instruction, present, typed⟩ := found
          exact ⟨instruction, present, resultType_mono extended (fun _ _ => ih) typed⟩

theorem typeOf?_mono {larger smaller : Module} (extended : larger.Extends smaller)
    {function : Function} {operand : Operand} {type : ValueType}
    (found : smaller.typeOf? function operand = some type) :
    larger.typeOf? function operand = some type :=
  typeWithin_mono extended 0 found

theorem map_typeOf?_mono {larger smaller : Module} (extended : larger.Extends smaller)
    {function : Function} {operands : List Operand} {types : List ValueType}
    (found : operands.map (smaller.typeOf? function) = types.map some) :
    operands.map (larger.typeOf? function) = types.map some := by
  induction operands generalizing types with
  | nil => simpa using found
  | cons operand rest ih =>
      cases types with
      | nil => simp at found
      | cons type types =>
          simp only [List.map_cons, List.cons.injEq] at found ⊢
          exact ⟨typeOf?_mono extended found.1, ih found.2⟩

theorem TypesAgree.mono {larger smaller : Module} (extended : larger.Extends smaller)
    {function : Function} {action : Action} (agree : smaller.TypesAgree function action) :
    larger.TypesAgree function action := by
  cases action with
  | alloca type => trivial
  | load type pointer => exact agree
  | store value pointer =>
      obtain ⟨type, slot, valueType⟩ := agree
      exact ⟨type, slot, typeOf?_mono extended valueType⟩
  | arith op left right => exact ⟨typeOf?_mono extended agree.1, typeOf?_mono extended agree.2⟩
  | call callee args =>
      obtain ⟨target, found, argTypes⟩ := agree
      obtain ⟨other, otherFound, paramsEq, _⟩ := extended callee target found
      exact ⟨other, otherFound, by rw [paramsEq]; exact map_typeOf?_mono extended argTypes⟩
  | extract aggregate index =>
      obtain ⟨fields, aggregateType, inRange⟩ := agree
      exact ⟨fields, typeOf?_mono extended aggregateType, inRange⟩
  | ret values =>
      rcases agree with nothing | ⟨fields, returns, valueTypes⟩
      · exact .inl nothing
      · exact .inr ⟨fields, returns, map_typeOf?_mono extended valueTypes⟩

theorem Admissible.mono {larger smaller : Module} (extended : larger.Extends smaller)
    {function : Function} {defined : List Nat} {code : List Instruction}
    (admissible : smaller.Admissible function defined code) :
    larger.Admissible function defined code := by
  induction code generalizing defined with
  | nil => trivial
  | cons instruction rest ih =>
      obtain ⟨last, available, agree, restAdmissible⟩ := admissible
      exact ⟨last, available, agree.mono extended, ih restAdmissible⟩

theorem checkBlocks_mono {larger smaller : Module} (extended : larger.Extends smaller)
    {function : Function} {defined : List Nat} {blocks : List Block}
    (passed : smaller.checkBlocks function defined blocks = .ok ()) :
    larger.checkBlocks function defined blocks = .ok () := by
  induction blocks generalizing defined with
  | nil => rfl
  | cons block rest ih =>
      rw [checkBlocks_cons_eq_ok_iff] at passed ⊢
      obtain ⟨ended, admissible, restPassed⟩ := passed
      exact ⟨ended, admissible.mono extended, ih restPassed⟩

/-- A function that has passed verification still passes it when the module has grown. -/
theorem verify_mono {larger smaller : Module} (extended : larger.Extends smaller)
    {function : Function} (passed : smaller.verify function = .ok ()) :
    larger.verify function = .ok () :=
  checkBlocks_mono extended passed

@[simp]
theorem typeOf?_const (module : Module) (function : Function) (value : Int32) :
    module.typeOf? function (.const value) = some .int32 := by
  unfold typeOf?
  cases function.code.length <;> rfl

@[simp]
theorem typeOf?_param (module : Module) (function : Function) (index : Nat) :
    module.typeOf? function (.param index) = function.params[index]?.map (·.type) := by
  unfold typeOf?
  cases function.code.length <;> rfl

/-- The type of an instruction that has one is the type of what it evaluates to. -/
theorem resultType_of_typeOf? {module : Module} {function : Function} {id : Nat}
    {type : ValueType} (found : module.typeOf? function (.instr id) = some type) :
    ∃ instruction, function.instruction? id = some instruction ∧
      module.resultType (module.typeOf? function) instruction.action = some type := by
  unfold typeOf? at found ⊢
  generalize function.code.length = depth at found
  cases depth with
  | zero => simp [typeWithin] at found
  | succ depth =>
      rw [typeWithin_instr, Option.bind_eq_some_iff] at found
      obtain ⟨instruction, present, typed⟩ := found
      refine ⟨instruction, present, resultType_mono (Extends.refl module) ?_ typed⟩
      intro operand inner
      exact typeWithin_mono (Extends.refl module) 1

end Module

end Tuplet.Ir
