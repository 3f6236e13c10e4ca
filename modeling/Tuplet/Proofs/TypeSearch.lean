import Tuplet.Proofs.BodyOrder

/-!
# Searching for types without a bound

The type of an operand is searched for by following extractions from field to aggregate. The
search of a listing or a verification is bounded by the length of the function. Here is the
same search without the bound. On extractions that lead in a circle it never ends.

It ends where every id that it comes to first occurs earlier in the function than the
instruction that names it. The place of the first occurrence goes down with each step, so
there are no more steps than places, and the bound is never reached: the bounded search
finds the same. Ids may repeat, and blocks do not matter; only the first occurrence counts.
-/

namespace Tuplet.Ir

namespace Module

/--
The search for the type of an operand comes to an end with this type, or with none. The steps
that it takes are those of the derivation, so a search that never ends has no derivation.
-/
inductive Finds (module : Module) (function : Function) : Operand → Option ValueType → Prop
  | const (value : Int32) : Finds module function (.const value) (some .int32)
  | param (index : Nat) :
      Finds module function (.param index) (function.params[index]?.map (·.type))
  | dangling {id : Nat} (missing : function.instruction? id = none) :
      Finds module function (.instr id) none
  | field {id index : Nat} {instruction : Instruction} {aggregate : Operand}
      {type : Option ValueType} (found : function.instruction? id = some instruction)
      (isField : instruction.action = .extract aggregate index)
      (inner : Finds module function aggregate type) :
      Finds module function (.instr id) (module.resultType (fun _ => type) instruction.action)
  | other {id : Nat} {instruction : Instruction}
      (found : function.instruction? id = some instruction)
      (noField : ∀ aggregate index, instruction.action ≠ .extract aggregate index) :
      Finds module function (.instr id) (module.resultType (fun _ => none) instruction.action)

open Classical in
/-- What the search for the type of an operand finds; nothing if it never ends. -/
noncomputable def search (module : Module) (function : Function) (operand : Operand) :
    Option (Option ValueType) :=
  if ends : ∃ type, module.Finds function operand type then some ends.choose else none

variable {module : Module} {function : Function} {id : Nat} {instruction : Instruction}
  {operand : Operand} {type : Option ValueType}

theorem Finds.unique {other : Option ValueType} (finds : module.Finds function operand type)
    (findsOther : module.Finds function operand other) : type = other := by
  induction finds generalizing other with
  | const value =>
      cases findsOther
      rfl
  | param index =>
      cases findsOther
      rfl
  | dangling missing =>
      cases findsOther with
      | dangling _ => rfl
      | field found _ _ => cases missing.symm.trans found
      | other found _ => cases missing.symm.trans found
  | field found isField inner ih =>
      cases findsOther with
      | dangling missing => cases missing.symm.trans found
      | field otherFound otherIsField otherInner =>
          cases found.symm.trans otherFound
          cases isField.symm.trans otherIsField
          rw [ih otherInner]
      | other otherFound noField =>
          cases found.symm.trans otherFound
          exact absurd isField (noField _ _)
  | other found noField =>
      cases findsOther with
      | dangling missing => cases missing.symm.trans found
      | field otherFound isField _ =>
          cases found.symm.trans otherFound
          exact absurd isField (noField _ _)
      | other otherFound _ =>
          cases found.symm.trans otherFound
          rfl

theorem search_eq_some_iff :
    module.search function operand = some type ↔ module.Finds function operand type := by
  rw [search]
  constructor
  · intro found
    split at found
    case isTrue ends =>
      cases found
      exact ends.choose_spec
    case isFalse => cases found
  · intro finds
    have ends : ∃ type, module.Finds function operand type := ⟨type, finds⟩
    rw [dif_pos ends, ends.choose_spec.unique finds]

/-- A search that comes to an instruction ends if the one for an aggregate does, one step later. -/
theorem finds_instr {depth : Nat} (found : function.instruction? id = some instruction)
    (inner : ∀ aggregate index, instruction.action = .extract aggregate index →
      module.Finds function aggregate (module.typeWithin function depth aggregate)) :
    module.Finds function (.instr id) (module.typeWithin function (depth + 1) (.instr id)) := by
  rw [typeWithin_instr, found, Option.bind_some]
  cases action : instruction.action with
  | extract aggregate index =>
      have finds := Finds.field found action (inner aggregate index action)
      rwa [action] at finds
  | _ =>
      have finds := @Finds.other module function id instruction found (by simp [action])
      rwa [action] at finds

/-- The search never leaves a circle of extractions. -/
theorem search_of_circle {circle : Nat → Prop}
    (closed : ∀ id, circle id → ∃ instruction next index,
      function.instruction? id = some instruction ∧
        instruction.action = .extract (.instr next) index ∧ circle next)
    (inside : circle id) : module.search function (.instr id) = none := by
  rw [Option.eq_none_iff_forall_ne_some]
  intro type ended
  rw [search_eq_some_iff] at ended
  generalize isInstr : Operand.instr id = operand at ended
  induction ended generalizing id with
  | const value => cases isInstr
  | param index => cases isInstr
  | dangling missing =>
      cases isInstr
      rcases closed _ inside with ⟨instruction, next, index, found, _, _⟩
      cases missing.symm.trans found
  | field found isField inner ih =>
      cases isInstr
      rcases closed _ inside with ⟨instruction, next, index, foundHere, isFieldHere, insideNext⟩
      cases found.symm.trans foundHere
      cases isField.symm.trans isFieldHere
      exact ih insideNext rfl
  | other found noField =>
      cases isInstr
      rcases closed _ inside with ⟨instruction, next, index, foundHere, isFieldHere, _⟩
      cases found.symm.trans foundHere
      exact noField _ _ isFieldHere

end Module

namespace Function

variable {function : Function} {place : Nat} {operand : Operand}

/-- Where an id first occurs in a function. -/
def place? (function : Function) (id : Nat) : Option Nat :=
  function.code.findIdx? (·.id == id)

/--
The search for the type of an operand goes down from a place: the id of the operand first
occurs before that place, and if a field is extracted there, the search for the type of the
aggregate goes down from there.
-/
inductive Descends (function : Function) : Nat → Operand → Prop
  | const {place : Nat} (value : Int32) : Descends function place (.const value)
  | param {place : Nat} (index : Nat) : Descends function place (.param index)
  | instr {place earlier id : Nat} {instruction : Instruction}
      (first : function.place? id = some earlier) (before : earlier < place)
      (found : function.instruction? id = some instruction)
      (onwards : ∀ aggregate index, instruction.action = .extract aggregate index →
        Descends function earlier aggregate) :
      Descends function place (.instr id)

/-- Going down, the search ends, and a bound that is no smaller than the place does not matter. -/
theorem Descends.finds_typeWithin (module : Module) (descends : function.Descends place operand)
    {depth : Nat} (deep : place ≤ depth) :
    module.Finds function operand (module.typeWithin function depth operand) := by
  induction descends generalizing depth with
  | const value =>
      rw [Module.typeWithin]
      exact .const value
  | param index =>
      rw [Module.typeWithin]
      exact .param index
  | @instr place earlier id instruction first before found onwards ih =>
      obtain ⟨less, rfl⟩ : ∃ less, depth = less + 1 := ⟨depth - 1, by omega⟩
      apply Module.finds_instr found
      intro aggregate index isField
      exact ih aggregate index isField (by omega)

theorem place?_lt {id : Nat} (found : function.place? id = some place) :
    place < function.code.length :=
  (List.findIdx?_eq_some_iff_findIdx_eq.mp found).1

theorem Descends.finds (module : Module) (descends : function.Descends place operand) :
    module.Finds function operand (module.typeOf? function operand) := by
  have fromEnd : function.Descends function.code.length operand := by
    cases descends with
    | const value => exact .const value
    | param index => exact .param index
    | instr first before found onwards => exact .instr first (place?_lt first) found onwards
  exact fromEnd.finds_typeWithin module (Nat.le_refl _)

/-- An id that occurs in the first part of a function first occurs there. -/
theorem exists_first_of_mem {front behind : List Instruction} {id : Nat}
    (split : function.code = front ++ behind) (occurs : id ∈ front.map (·.id)) :
    ∃ earlier instruction later, front = earlier ++ instruction :: later ∧
      function.place? id = some earlier.length ∧ function.instruction? id = some instruction := by
  have present : (front.find? (·.id == id)).isSome = true := by
    rw [List.find?_isSome]
    simpa using occurs
  rcases Option.isSome_iff_exists.mp present with ⟨instruction, found⟩
  rcases List.find?_eq_some_iff_append.mp found with ⟨same, earlier, later, rfl, others⟩
  have notEarlier : earlier.findIdx? (·.id == id) = none := by
    rw [List.findIdx?_eq_none_iff]
    simpa using others
  refine ⟨earlier, instruction, later, rfl, ?_, ?_⟩
  · rw [place?, split, List.append_assoc, List.findIdx?_append, notEarlier, List.cons_append,
      List.findIdx?_cons, same]
    simp
  · rw [instruction?, split, List.find?_append, found, Option.some_or]

/--
Behind instructions that read only what was available to them, the search for an operand that
is available goes down.
-/
theorem descends_of_available {front behind : List Instruction}
    (split : function.code = front ++ behind) (ordered : function.Ordered [] front)
    (available : function.Available (front.map (·.id)) operand) :
    function.Descends front.length operand := by
  induction length : front.length using Nat.strongRecOn generalizing front behind operand with
  | _ _ ih =>
      cases operand with
      | const value => exact .const value
      | param index => exact .param index
      | instr id =>
          rcases exists_first_of_mem split available with
            ⟨earlier, instruction, later, rfl, first, found⟩
          have shorter : earlier.length < (earlier ++ instruction :: later).length := by simp
          rcases ordered_append.mp ordered with ⟨earlierOrdered, reads, _⟩
          refine .instr first (length ▸ shorter) found ?_
          intro aggregate index isField
          -- what is extracted from was available where the field was extracted
          have known := reads aggregate (by simp [isField, Action.operands])
          exact ih _ (length ▸ shorter) (by rw [split, List.append_assoc]) earlierOrdered
            (known.mono (by simp)) rfl

end Function

end Tuplet.Ir
