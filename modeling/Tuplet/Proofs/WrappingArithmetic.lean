import Tuplet.Proofs.BuilderInvariant
import Tuplet.Proofs.Evaluation
import Tuplet.Proofs.Termination

/-!
# Arithmetic is exact modulo 2³²

Sums, differences and products are computed on words of 32 bits, and each result is brought back
into their range on its own. What comes out at the end is nevertheless the one word that agrees
with the exact integer modulo 2³², since to take the word of an integer goes along with all three
operations.

This is shown of code that is lowered and run. A node may be lowered wherever instructions can be
put at the end of a function, and its code may be run in any frame in which the variables have
words in their slots, below any callers and in front of any other code.
-/

namespace Tuplet

open Ir (Builder Function Instruction Module Operand)
open Run (Caller Frame Machine RunError Value)

/-- Exactly one word agrees with an integer modulo 2³². -/
theorem Word.emod_eq_iff (number : Int32) (exact : Int) :
    number.toInt % 0x100000000 = exact % 0x100000000 ↔ number = Int32.ofInt exact := by
  rw [eq_comm (a := number), Int32.ofInt_eq_iff_bmod_eq_toInt]
  have lower := number.le_toInt
  have upper := number.toInt_lt
  constructor
  · intro same
    rw [Int.bmod_eq_iff (by decide)]
    omega
  · intro same
    rw [← same]
    exact Int.bmod_emod

/-- The exact result of a sum, a difference or a product. -/
def Operator.exactValue? : Operator → Int → Int → Option Int
  | add, left, right => some (left + right)
  | sub, left, right => some (left - right)
  | mul, left, right => some (left * right)
  | _, _, _ => none

/-- To compute with words of integers is to take the word of the exact result. -/
theorem Operator.eval_of_exactValue? {op : Operator} {left right exact : Int}
    (meant : op.exactValue? left right = some exact) :
    ∃ arithmetic, op.arithmetic? = some arithmetic ∧
      arithmetic.eval (.ofInt left) (.ofInt right) = .ok (.ofInt exact) := by
  cases op with
  | add =>
      cases meant
      exact ⟨.add, rfl, congrArg _ (Int32.ofInt_add left right).symm⟩
  | sub =>
      cases meant
      exact ⟨.sub, rfl, congrArg _ (Int32.ofInt_sub left right).symm⟩
  | mul =>
      cases meant
      exact ⟨.mul, rfl, congrArg _ (Int32.ofInt_mul left right).symm⟩
  | _ => cases meant

/-- The exact integer that a node stands for, where names stand for words. There is none unless
the node is made of literals, such names, groups, sums, differences and products. -/
def Node.exactValue? (word? : String → Option Int32) : Node → Option Int
  | .literal value => some value.toInt
  | .var use => (word? use.name).map Int32.toInt
  | .group inner => inner.exactValue? word?
  | .binary op left right => do
      op.exactValue? (← left.exactValue? word?) (← right.exactValue? word?)
  | _ => none

namespace Run.Frame

/-- The word that a name stands for, if there is one in the slot that a scope has for it. -/
def word? (frame : Frame) (scope : Scope Ir.Slot) (name : String) : Option Int32 :=
  match (scope.lookup name).bind (frame.slots.lookup ·.id) with
  | some (some (.int value)) => some value
  | _ => none

/-- A frame runs through some code, an instruction in each turn of the machine, and is another one
then, whatever code is behind it and whatever callers wait below it. -/
def Crosses (module : Module) (frame : Frame) (code : List Instruction) (after : Frame) : Prop :=
  ∀ (rest : List Instruction) (callers : List Caller),
    (Machine.turn module)^[code.length] (.ok (.running ⟨frame.withCode (code ++ rest), callers⟩)) =
      .ok (.running ⟨after.withCode rest, callers⟩)

variable {module : Module} {frame middle after : Frame} {code more : List Instruction}

theorem Crosses.refl (frame : Frame) : frame.Crosses module [] frame := fun _ _ => rfl

theorem Crosses.trans (first : frame.Crosses module code middle)
    (second : middle.Crosses module more after) : frame.Crosses module (code ++ more) after := by
  intro rest callers
  rw [List.length_append, Nat.add_comm, Function.iterate_add_apply, List.append_assoc, first,
    second]

theorem crosses_of_perform {instruction : Instruction}
    (performed : frame.perform instruction.id instruction.action = .ok (.next after)) :
    frame.Crosses module [instruction] after := by
  intro rest callers
  have stepped : (frame.withCode (instruction :: rest)).step =
      .ok (.next (after.withCode rest)) := by
    change (frame.withCode rest).perform instruction.id instruction.action = _
    rw [perform_withCode, performed]
    rfl
  change Machine.step module ⟨frame.withCode (instruction :: rest), callers⟩ = _
  rw [Machine.step, stepped]

end Run.Frame

namespace Ir

/-- The function with more code at the end of its last block. -/
def Function.grow (function : Function) (code : List Instruction) : Function :=
  { function with
    blocks := code.foldl (fun blocks instruction => Block.appendToLast instruction blocks)
      function.blocks
    nextId := function.nextId + code.length }

namespace Function

theorem grow_append (function : Function) (code more : List Instruction) :
    (function.grow code).grow more = function.grow (code ++ more) := by
  simp [grow, Nat.add_assoc]

theorem blocks_grow_ne_nil {function : Function} (hasBlocks : function.blocks ≠ [])
    (code : List Instruction) : (function.grow code).blocks ≠ [] := by
  induction code generalizing function with
  | nil => exact hasBlocks
  | cons instruction rest ih =>
      have longer : (function.grow [instruction]).blocks ≠ [] :=
        (Block.inserts_appendToLast hasBlocks).ne_nil
      rw [← List.singleton_append, ← grow_append]
      exact ih longer

end Function

theorem Block.code_appendToLast (instruction : Instruction) {blocks : List Block}
    (hasBlocks : blocks ≠ []) :
    (appendToLast instruction blocks).flatMap (·.code) =
      blocks.flatMap (·.code) ++ [instruction] := by
  fun_induction appendToLast instruction blocks with
  | case1 => exact absurd rfl hasBlocks
  | case2 block => simp
  | case3 block next rest ih => rw [List.flatMap_cons, ih (List.cons_ne_nil _ _)]; simp

theorem Function.code_grow {function : Function} (hasBlocks : function.blocks ≠ [])
    (code : List Instruction) : (function.grow code).code = function.code ++ code := by
  induction code generalizing function with
  | nil => simp [grow, Function.code]
  | cons instruction rest ih =>
      have first : (function.grow [instruction]).code = function.code ++ [instruction] :=
        Block.code_appendToLast instruction hasBlocks
      rw [← List.singleton_append, ← grow_append, ih (blocks_grow_ne_nil hasBlocks _), first,
        List.append_assoc]

end Ir

namespace Lowering

/-- Instructions are put at the end of a function, which has a block for them. -/
structure OpenAt (state : LoweringState) (index : Nat) (function : Function) : Prop where
  stands : state.builder.cursor = some index
  found : state.builder.function? index = some function
  hasBlocks : function.blocks ≠ []

/-- The state in which more code has been put at the end of the function at an index. -/
def grown (state : LoweringState) (index : Nat) (function : Function) (code : List Instruction) :
    LoweringState :=
  { state with builder := state.builder.setFunction index (function.grow code) }

variable {state : LoweringState} {index : Nat} {function : Function}

theorem OpenAt.grown (opened : OpenAt state index function) (code : List Instruction) :
    OpenAt (grown state index function code) index (function.grow code) where
  stands := opened.stands
  found := Builder.function?_setFunction_self opened.found
  hasBlocks := Function.blocks_grow_ne_nil opened.hasBlocks code

theorem grown_grown (code more : List Instruction) :
    grown (grown state index function code) index (function.grow code) more =
      grown state index function (code ++ more) := by
  simp [grown, Builder.setFunction, Function.grow_append]

theorem grown_nil (opened : OpenAt state index function) :
    grown state index function [] = state := by
  rcases List.getElem?_eq_some_iff.mp opened.found with ⟨inside, rfl⟩
  exact congrArg (fun functions => { state with builder.module.functions := functions })
    (List.set_getElem_self inside)

theorem emit_of_openAt (opened : OpenAt state index function) (name : String) (action : Ir.Action) :
    Ir.Build.emit name action state.builder = .ok function.nextId
      (grown state index function [⟨function.nextId, name, action⟩]).builder := by
  have here : Ir.Build.current state.builder = .ok (index, function) state.builder := by
    simp [Ir.Build.current, opened.stands, opened.found]
  have made : Ir.Build.makeInstruction name action state.builder = .ok
      (index, { function with nextId := function.nextId + 1 }, ⟨function.nextId, name, action⟩)
      (state.builder.spendId index function) := Result.bind_of_ok here
  rw [Ir.Build.emit, Result.bind_of_ok made]
  simp only [List.isEmpty_iff, opened.hasBlocks, if_false, Result.modify_bind,
    Builder.setFunction_spendId]
  rfl

theorem build_of_openAt (opened : OpenAt state index function) (name : String)
    (action : Ir.Action) :
    build (do pure (Operand.instr (← Ir.Build.emit name action))) state =
      .ok (.instr function.nextId)
        (grown state index function [⟨function.nextId, name, action⟩]) := by
  apply build_of_ok
  rw [Result.bind_of_ok (emit_of_openAt opened name action)]
  rfl

/-- An operand can be read as soon as the instructions with ids below a bound have been run. -/
def Below (bound : Nat) : Operand → Prop
  | .const _ => True
  | .param _ => False
  | .instr id => id < bound

theorem Below.eval_eq {bound : Nat} {operand : Operand} {frame after : Frame}
    (below : Below bound operand) (keeps : frame.Keeps bound after) :
    after.eval operand = frame.eval operand := by
  cases operand with
  | const value => rfl
  | param position => cases below
  | instr id => simp only [Frame.eval, keeps.values id below]

theorem perform_load {frame : Frame} {slot : Ir.Slot} {word : Int32} {scope : Scope Ir.Slot}
    {name : String} (bound : scope.lookup name = some slot)
    (held : frame.word? scope name = some word) (id : Nat) :
    frame.perform id (.load slot.type (.instr slot.id)) =
      .ok (.next (frame.define id (.int word))) := by
  have stored : frame.slots.lookup slot.id = some (some (.int word)) := by
    simp only [Frame.word?, bound, Option.bind_some] at held
    split at held
    · cases held
      assumption
    · cases held
  simp [Frame.perform, Frame.slotId, Frame.content, stored]

/-- What comes of a node that stands for an exact integer: code that runs in a frame, and an
operand which has the word of that integer in the frame that the code leads to. -/
structure Computes (state : LoweringState) (index : Nat) (function : Function) (frame : Frame)
    (node : Node) (exact : Int) (code : List Instruction) (operand : Operand) (after : Frame) :
    Prop where
  lowered : value node state = .ok operand (grown state index function code)
  below : Below (function.nextId + code.length) operand
  keeps : frame.Keeps function.nextId after
  evaluated : after.eval operand = .ok (.int (.ofInt exact))
  crossed : ∀ module, frame.Crosses module code after

theorem Computes.binary {op : Operator} {left right : Node} {leftExact rightExact exact : Int}
    {frame middle after : Frame} {code more : List Instruction} {leftOperand rightOperand : Operand}
    (opened : OpenAt state index function)
    (first : Computes state index function frame left leftExact code leftOperand middle)
    (second : Computes (grown state index function code) index (function.grow code) middle right
      rightExact more rightOperand after)
    (meant : op.exactValue? leftExact rightExact = some exact) :
    ∃ code operand final,
      Computes state index function frame (.binary op left right) exact code operand final := by
  rcases Operator.eval_of_exactValue? meant with ⟨arithmetic, computable, computed⟩
  let id := function.nextId + (code ++ more).length
  have made := build_of_openAt (opened.grown (code ++ more)) ""
    (.arith arithmetic leftOperand rightOperand)
  have leftKept : after.eval leftOperand = .ok (.int (.ofInt leftExact)) :=
    (first.below.eval_eq second.keeps).trans first.evaluated
  have performed : after.perform id (.arith arithmetic leftOperand rightOperand) =
      .ok (.next (after.define id (.int (.ofInt exact)))) := by
    simp [Frame.perform, leftKept, second.evaluated, Value.toInt, computed]
  have above : function.nextId ≤ id := by omega
  refine ⟨code ++ more ++ [⟨id, "", .arith arithmetic leftOperand rightOperand⟩], .instr id,
    after.define id (.int (.ofInt exact)), ?_, ?_, ?_, ?_, ?_⟩
  · rw [value, Result.bind_of_ok first.lowered, Result.bind_of_ok second.lowered, grown_grown,
      emitOperator, computable]
    rw [grown_grown] at made
    exact made
  · simp [Below, id]
  · exact (first.keeps.trans second.keeps (by simp [Function.grow])).define above _
  · simp
  · intro module
    exact ((first.crossed module).trans (second.crossed module)).trans
      (Frame.crosses_of_perform performed)

/-- Lowering a node with an exact integer computes its word. The induction is on the node: what is
in the slots stays, and an operand keeps its word while others are computed, since every
instruction gets an id of its own. -/
theorem exists_computes : ∀ (node : Node) {state : LoweringState} {function : Function}
    {frame : Frame} {exact : Int}, OpenAt state index function →
      node.exactValue? (frame.word? state.scope) = some exact →
      ∃ code operand after, Computes state index function frame node exact code operand after
  | .literal number, state, function, frame, _, opened, meant => by
      cases meant
      exact ⟨[], .const number, frame, congrArg _ (grown_nil opened).symm, trivial, .refl _ _,
        by simp [Frame.eval], fun _ => .refl frame⟩
  | .var use, state, function, frame, _, opened, meant => by
      rcases Option.map_eq_some_iff.mp meant with ⟨word, held, rfl⟩
      cases bound : state.scope.lookup use.name with
      | none => simp [Frame.word?, bound] at held
      | some slot =>
          let load : Ir.Action := .load slot.type (.instr slot.id)
          have standing : slotOf use.name state = .ok slot state := by simp [slotOf, bound]
          refine ⟨[⟨function.nextId, use.name, load⟩], .instr function.nextId,
            frame.define function.nextId (.int word), ?_, Nat.lt_succ_self _,
            (Frame.Keeps.refl _ frame).define (Nat.le_refl _) _, by simp, fun module => ?_⟩
          · rw [value, Result.bind_of_ok standing]
            exact build_of_openAt opened use.name load
          · exact Frame.crosses_of_perform (perform_load bound held function.nextId)
  | .group inner, _, _, _, _, opened, meant => by
      rcases exists_computes inner opened meant with ⟨code, operand, after, computes⟩
      exact ⟨code, operand, after, { computes with lowered := computes.lowered }⟩
  | .binary op left right, state, function, frame, exact, opened, meant => by
      rcases Option.bind_eq_some_iff.mp meant with ⟨leftExact, leftMeant, meant⟩
      rcases Option.bind_eq_some_iff.mp meant with ⟨rightExact, rightMeant, meant⟩
      rcases exists_computes left opened leftMeant with ⟨code, leftOperand, middle, first⟩
      have same : middle.word? state.scope = frame.word? state.scope := by
        funext name
        simp only [Frame.word?, first.keeps.slots]
      rw [← same] at rightMeant
      rcases exists_computes right (opened.grown code) rightMeant
        with ⟨more, rightOperand, after, second⟩
      exact first.binary opened second meant
  | .call _ _, _, _, _, _, _, meant => by cases meant
  | .assign _ _, _, _, _, _, _, meant => by cases meant
  | .decl _, _, _, _, _, _, meant => by cases meant
  | .signature _, _, _, _, _, _, meant => by cases meant
  | .function _ _, _, _, _, _, _, meant => by cases meant
  | .ret _, _, _, _, _, _, meant => by cases meant

/-- A node made of literals, groups, names of stored words, sums, differences and products is
lowered without fail, wherever instructions can be put. Its code is at the end of the function
then. Run in a frame that stores the words, it does not fail, and the operand of the node is the
only word that agrees modulo 2³² with the exact integer, whatever overflowed on the way. -/
theorem value_exact_modulo {frame : Frame} {node : Node} {exact : Int}
    (opened : OpenAt state index function)
    (meant : node.exactValue? (frame.word? state.scope) = some exact) :
    ∃ code operand after grownFunction result,
      value node state = .ok operand after ∧
      after.builder.function? index = some grownFunction ∧
      grownFunction.code = function.code ++ code ∧
      (∀ number : Int32,
        number.toInt % 0x100000000 = exact % 0x100000000 ↔ number = result) ∧
      ∀ (module : Module) (callers : List Caller) (rest : List Instruction),
        ∃ final : Frame,
          (Machine.turn module)^[code.length]
              (.ok (.running ⟨frame.withCode (code ++ rest), callers⟩)) =
            .ok (.running ⟨final.withCode rest, callers⟩) ∧
          final.eval operand = .ok (.int result) := by
  rcases exists_computes node opened meant with ⟨code, operand, final, computes⟩
  refine ⟨code, operand, grown state index function code, function.grow code, .ofInt exact,
    computes.lowered, (opened.grown code).found, Function.code_grow opened.hasBlocks code,
    fun number => Word.emod_eq_iff number exact, ?_⟩
  intro module callers rest
  exact ⟨final, computes.crossed module rest callers, computes.evaluated⟩

/-- The body of a function in which `x` has got a slot. -/
def slotBody : Function := ⟨"f", [], .int32, [⟨"entry", [⟨0, "x", .alloca .int32⟩]⟩], 1⟩

/-- The state in which that body goes on. -/
def slotState : LoweringState :=
  ⟨⟨⟨"m", [slotBody]⟩, some 0⟩, ⟨[[("x", ⟨0, .int32⟩)]]⟩, some ⟨0, some ⟨0, .int32⟩⟩, []⟩

/-- A frame of that body in which `x` holds the greatest word. -/
def slotFrame : Frame := ⟨"f", [], [], [], [(0, some (.int 2147483647))]⟩

/-- `(x * x - 7) * (x + x)`, in which everything overflows. -/
def overflowing : Node :=
  let x : Node := .var ⟨"x", none⟩
  .binary .mul (.group (.binary .sub (.binary .mul x x) (.literal 7)))
    (.group (.binary .add x x))

theorem value_exact_modulo_overflowing :
    OpenAt slotState 0 slotBody ∧
    overflowing.exactValue? (slotFrame.word? slotState.scope) = some 19807040600895968270641790988 ∧
    ∃ code operand after grownFunction,
      value overflowing slotState = .ok operand after ∧
      after.builder.function? 0 = some grownFunction ∧
      grownFunction.code = slotBody.code ++ code ∧
      ∀ (module : Module) (callers : List Caller) (rest : List Instruction),
        ∃ final : Frame,
          (Machine.turn module)^[code.length]
              (.ok (.running ⟨slotFrame.withCode (code ++ rest), callers⟩)) =
            .ok (.running ⟨final.withCode rest, callers⟩) ∧
          final.eval operand = .ok (.int 12) := by
  have opened : OpenAt slotState 0 slotBody := ⟨rfl, rfl, by simp [slotBody]⟩
  have meant : overflowing.exactValue? (slotFrame.word? slotState.scope) =
      some 19807040600895968270641790988 := by decide +kernel
  rcases value_exact_modulo opened meant
    with ⟨code, operand, after, grownFunction, result, lowered, found, behind, unique, runs⟩
  obtain rfl : 12 = result := (unique 12).mp (by decide)
  exact ⟨opened, meant, code, operand, after, grownFunction, lowered, found, behind, runs⟩

end Lowering

end Tuplet
