import Mathlib.Data.List.Chain
import Mathlib.Logic.Relation
import Tuplet.Proofs.DirectRecursion

/-!
# How deep calls go

What a function calls can be read off its text: the calls in front of its first return. A chain
of calls is a sequence of functions each of which is called by the one before it. How long such
chains are decides whether the stack is deep enough, whatever the arguments are.

The instructions of a function are run one after the other. If a call returns, then everything in
front of the return has been run, and so all calls there have returned, with room for one frame
less. If the stack overflows, then one of these calls has made it overflow.
-/

namespace Tuplet.Ir

/-- The name that an instruction calls. -/
def Instruction.callee? (instruction : Instruction) : Option String :=
  match instruction.action with
  | .call callee _ => some callee
  | _ => none

/-- The names that some instructions call in front of the first return. -/
def Instruction.callees (code : List Instruction) : List String :=
  (code.takeWhile fun instruction => !instruction.isTerminator).filterMap callee?

namespace Module

/-- A function calls another one before it returns. -/
def Invokes (module : Module) (caller callee : Function) : Prop :=
  ∃ name ∈ Instruction.callees caller.code, module.get? name = some callee

/-- Functions each of which is called by the one before, from the one of a name on. -/
def CallChain (module : Module) (entry : String) : List Function → Prop
  | [] => False
  | first :: others => module.get? entry = some first ∧ (first :: others).IsChain module.Invokes

end Module

end Tuplet.Ir

namespace Tuplet.Run

open Ir (Instruction Operand)

/-- The error is another one than that the stack is full. -/
def RunError.LeavesRoom : RunError → Prop
  | .stackOverflow _ => False
  | _ => True

/-- A step does not make the stack overflow. -/
def LeavesRoom {α : Type} (step : Except RunError α) : Prop :=
  ∀ error, step = .error error → error.LeavesRoom

section Steps

variable {α : Type}

theorem leavesRoom_ok (value : α) : LeavesRoom (.ok value) := by
  intro error failed
  cases failed

theorem leavesRoom_error {error : RunError} (leavesRoom : error.LeavesRoom) :
    LeavesRoom (.error error : Except RunError α) := by
  intro other failed
  cases failed
  exact leavesRoom

theorem leavesRoom_read (locals : Locals) (operand : Operand) :
    LeavesRoom (locals.read operand) := by
  cases operand with
  | const value => exact leavesRoom_ok _
  | param index =>
      rw [Locals.read]
      split
      · exact leavesRoom_ok _
      · exact leavesRoom_error trivial
  | instr id =>
      rw [Locals.read]
      cases locals.values id with
      | none => exact leavesRoom_error trivial
      | some value => exact leavesRoom_ok _

theorem leavesRoom_mapM_read (locals : Locals) (operands : List Operand) :
    LeavesRoom (operands.mapM locals.read) := by
  induction operands with
  | nil => exact leavesRoom_ok _
  | cons operand rest ih =>
      rw [List.mapM_cons]
      cases evaluated : locals.read operand with
      | error error => exact leavesRoom_error (leavesRoom_read locals operand error evaluated)
      | ok value =>
          rw [Result.ok_bind]
          cases others : rest.mapM locals.read with
          | error error => exact leavesRoom_error (ih error others)
          | ok values => exact leavesRoom_ok _

theorem leavesRoom_slot (locals : Locals) (pointer : Operand) :
    LeavesRoom (locals.slot pointer) := by
  cases pointer with
  | instr id =>
      rw [Locals.slot]
      cases locals.slots id with
      | none => exact leavesRoom_error trivial
      | some content => exact leavesRoom_ok _
  | _ => exact leavesRoom_error trivial

theorem leavesRoom_toInt (value : Value) : LeavesRoom value.toInt := by
  cases value with
  | int value => exact leavesRoom_ok _
  | _ => exact leavesRoom_error trivial

theorem leavesRoom_field (value : Value) (index : Nat) : LeavesRoom (value.field index) := by
  cases value with
  | aggregate values =>
      rw [Value.field]
      split
      · exact leavesRoom_ok _
      · exact leavesRoom_error trivial
  | _ => exact leavesRoom_error trivial

theorem leavesRoom_eval (op : Ir.Arithmetic) (left right : Int32) :
    LeavesRoom (op.eval left right) := by
  cases op with
  | sdiv =>
      rw [Ir.Arithmetic.eval]
      split
      · exact leavesRoom_error trivial
      · split
        · exact leavesRoom_error trivial
        · exact leavesRoom_ok _
  | urem =>
      rw [Ir.Arithmetic.eval]
      split
      · exact leavesRoom_error trivial
      · exact leavesRoom_ok _
  | _ => exact leavesRoom_ok _

end Steps

/-- What can come of instructions, by what the first of them does. -/
inductive Proceeds (invoke : Invoke) (function : String) (instruction : Instruction)
    (rest : List Instruction) : Except RunError Value → Prop
  | fails {error : RunError} (leavesRoom : error.LeavesRoom) :
      Proceeds invoke function instruction rest (.error error)
  | returns {value : Value} (ends : instruction.isTerminator = true) :
      Proceeds invoke function instruction rest (.ok value)
  | goesOn {after : Locals} (goesOn : instruction.isTerminator = false)
      (noCall : instruction.callee? = none) :
      Proceeds invoke function instruction rest (execute invoke function rest after)
  | calls {callee : String} {args : List Value} {after : Value → Locals}
      (goesOn : instruction.isTerminator = false) (isCall : instruction.callee? = some callee) :
      Proceeds invoke function instruction rest
        (invoke callee args >>= fun value => execute invoke function rest (after value))

section Execution

variable {invoke : Invoke} {function : String} {instruction : Instruction}
  {code rest : List Instruction} {locals : Locals}

theorem Proceeds.bind {α : Type} {step : Except RunError α} {next : α → Except RunError Value}
    (leavesRoom : LeavesRoom step)
    (proceeds : ∀ value, Proceeds invoke function instruction rest (next value)) :
    Proceeds invoke function instruction rest (step >>= next) := by
  cases stepped : step with
  | error error => exact .fails (leavesRoom error stepped)
  | ok value => exact proceeds value

theorem proceeds_execute (invoke : Invoke) (function : String) (instruction : Instruction)
    (rest : List Instruction) (locals : Locals) :
    Proceeds invoke function instruction rest
      (execute invoke function (instruction :: rest) locals) := by
  rcases instruction with ⟨id, label, action⟩
  cases action with
  | alloca type => exact .goesOn rfl rfl
  | load type pointer =>
      apply Proceeds.bind (leavesRoom_slot locals pointer)
      rintro ⟨slot, _ | value⟩
      · exact .fails trivial
      · exact .goesOn rfl rfl
  | store value pointer =>
      apply Proceeds.bind (leavesRoom_read locals value)
      intro stored
      apply Proceeds.bind (leavesRoom_slot locals pointer)
      rintro ⟨slot, _⟩
      exact .goesOn rfl rfl
  | arith op left right =>
      apply Proceeds.bind (leavesRoom_read locals left)
      intro leftValue
      apply Proceeds.bind (leavesRoom_toInt leftValue)
      intro leftInt
      apply Proceeds.bind (leavesRoom_read locals right)
      intro rightValue
      apply Proceeds.bind (leavesRoom_toInt rightValue)
      intro rightInt
      apply Proceeds.bind (leavesRoom_eval op leftInt rightInt)
      intro value
      exact .goesOn rfl rfl
  | call callee args =>
      apply Proceeds.bind (leavesRoom_mapM_read locals args)
      intro values
      exact .calls rfl rfl
  | extract aggregate index =>
      apply Proceeds.bind (leavesRoom_read locals aggregate)
      intro value
      apply Proceeds.bind (leavesRoom_field value index)
      intro field
      exact .goesOn rfl rfl
  | ret values =>
      apply Proceeds.bind (leavesRoom_mapM_read locals values)
      intro results
      exact .returns rfl

theorem callees_of_isTerminator (ends : instruction.isTerminator = true) :
    Instruction.callees (instruction :: rest) = [] := by
  simp [Instruction.callees, ends]

theorem callees_cons (goesOn : instruction.isTerminator = false) :
    Instruction.callees (instruction :: rest) =
      instruction.callee?.toList ++ Instruction.callees rest := by
  cases callee? : instruction.callee? <;> simp [Instruction.callees, goesOn, callee?]

/-- If instructions have come to a return, then all calls in front of it have returned. -/
theorem returned_of_execute {value : Value} {callee : String}
    (returned : execute invoke function code locals = .ok value)
    (called : callee ∈ Instruction.callees code) :
    ∃ args result, invoke callee args = .ok result := by
  induction code generalizing locals with
  | nil => cases called
  | cons instruction rest ih =>
      have proceeds := proceeds_execute invoke function instruction rest locals
      generalize execute invoke function (instruction :: rest) locals = outcome at proceeds returned
      cases proceeds with
      | fails => cases returned
      | returns ends =>
          rw [callees_of_isTerminator ends] at called
          cases called
      | goesOn goesOn noCall =>
          rw [callees_cons goesOn, noCall] at called
          exact ih returned called
      | @calls first args after goesOn isCall =>
          rcases Result.bind_eq_ok_iff.mp returned with ⟨result, answered, continued⟩
          rw [callees_cons goesOn, isCall] at called
          rcases List.mem_cons.mp called with rfl | called
          · exact ⟨args, result, answered⟩
          · exact ih continued called

/-- If instructions make the stack overflow, then one of the calls among them does. -/
theorem overflows_of_execute {name : String}
    (overflows : execute invoke function code locals = .error (.stackOverflow name)) :
    ∃ callee ∈ Instruction.callees code, ∃ args,
      invoke callee args = .error (.stackOverflow name) := by
  induction code generalizing locals with
  | nil => cases overflows
  | cons instruction rest ih =>
      have proceeds := proceeds_execute invoke function instruction rest locals
      generalize execute invoke function (instruction :: rest) locals = outcome
        at proceeds overflows
      cases proceeds with
      | fails leavesRoom =>
          cases overflows
          cases leavesRoom
      | returns => cases overflows
      | goesOn goesOn noCall =>
          rw [callees_cons goesOn, noCall]
          exact ih overflows
      | @calls first args after goesOn isCall =>
          rw [callees_cons goesOn, isCall]
          cases answered : invoke first args with
          | error error =>
              rw [answered] at overflows
              cases overflows
              exact ⟨first, List.mem_cons_self, args, answered⟩
          | ok result =>
              rw [answered] at overflows
              rcases ih overflows with ⟨callee, called, overflowing⟩
              exact ⟨callee, List.mem_cons_of_mem first called, overflowing⟩

end Execution

end Tuplet.Run

namespace Tuplet.Ir.Module

open Run Relation

variable {module : Module} {name : String} {args : List Value} {function : Function}

/-- A call fails before there is need of a frame, or there is no room for its frame, or its
function is executed with room for one frame less. -/
theorem invoke_cases (module : Module) (room : Nat) (name : String) (args : List Value) :
    (∃ error, module.invoke room name args = .error error ∧ error.LeavesRoom) ∨
      ∃ function, module.get? name = some function ∧
        (room = 0 ∧ module.invoke room name args = .error (.stackOverflow name) ∨
          ∃ below, room = below + 1 ∧ module.invoke room name args =
            execute (module.invoke below) function.name function.code (.fresh args)) := by
  cases found : module.get? name with
  | none => exact .inl ⟨_, invoke_unknown room found, trivial⟩
  | some function =>
      cases body : function.isDeclaration with
      | true => exact .inl ⟨_, invoke_declaration room found body, trivial⟩
      | false =>
          by_cases count : function.params.length = args.length
          · right
            refine ⟨function, rfl, ?_⟩
            cases room with
            | zero => exact .inl ⟨rfl, invoke_full found body count⟩
            | succ below =>
                refine .inr ⟨below, rfl, ?_⟩
                rw [invoke_succ below found body count, Frame.finish_start]
          · exact .inl ⟨_, invoke_wrongCount room found body count, trivial⟩

/-- If a call returns, then no chain of calls from there is longer than there is room. -/
theorem length_le_of_invoke {room : Nat} {value : Value} {chain : List Function}
    (returned : module.invoke room name args = .ok value)
    (isChain : module.CallChain name chain) : chain.length ≤ room := by
  induction chain generalizing room name args value with
  | nil => cases isChain
  | cons first others ih =>
      rcases isChain with ⟨found, linked⟩
      rcases invoke_cases module room name args with
        ⟨error, failed, _⟩ | ⟨function, foundAgain, ⟨_, full⟩ | ⟨below, rfl, executes⟩⟩
      · cases returned.symm.trans failed
      · cases returned.symm.trans full
      · cases found.symm.trans foundAgain
        cases others with
        | nil => exact Nat.succ_le_succ (Nat.zero_le below)
        | cons next others =>
            rcases List.isChain_cons_cons.mp linked with ⟨⟨callee, called, foundNext⟩, linked⟩
            rcases returned_of_execute (executes.symm.trans returned) called with
              ⟨args, result, answered⟩
            exact Nat.succ_le_succ (ih answered ⟨foundNext, linked⟩)

/-- If the stack overflows, then there is a chain of calls for which there is no room. -/
theorem exists_chain_of_overflow {room : Nat} {callee : String}
    (overflows : module.invoke room name args = .error (.stackOverflow callee)) :
    ∃ chain, module.CallChain name chain ∧ room < chain.length := by
  induction room generalizing name args with
  | zero =>
      rcases invoke_cases module 0 name args with
        ⟨error, failed, leavesRoom⟩ | ⟨function, found, _⟩
      · cases overflows.symm.trans failed
        cases leavesRoom
      · exact ⟨[function], ⟨found, .singleton function⟩, Nat.zero_lt_one⟩
  | succ room ih =>
      rcases invoke_cases module (room + 1) name args with
        ⟨error, failed, leavesRoom⟩ | ⟨function, found, ⟨noRoom, _⟩ | ⟨below, same, executes⟩⟩
      · cases overflows.symm.trans failed
        cases leavesRoom
      · cases noRoom
      · cases same
        rcases overflows_of_execute (executes.symm.trans overflows) with
          ⟨next, called, args, overflowing⟩
        rcases ih overflowing with ⟨_ | ⟨first, others⟩, isChain, longer⟩
        · cases isChain
        · rcases isChain with ⟨foundNext, linked⟩
          exact ⟨function :: first :: others,
            ⟨found, .cons_cons ⟨next, called, foundNext⟩ linked⟩, Nat.succ_lt_succ longer⟩

/-- Where the chains of calls from a function are bounded, no function calls itself in the end. -/
theorem not_recursive_of_bounded {bound : Nat} {first : Function}
    (bounded : ∀ others, (first :: others).IsChain module.Invokes → others.length < bound)
    (reached : ReflTransGen module.Invokes first function) :
    ¬ TransGen module.Invokes function function := by
  induction bound generalizing first function with
  | zero => exact absurd (bounded [] (.singleton first)) (Nat.not_lt_zero _)
  | succ bound ih =>
      intro recursive
      have boundedNext : ∀ next, module.Invokes first next → ∀ others,
          (next :: others).IsChain module.Invokes → others.length < bound := by
        intro next invokes others linked
        exact Nat.lt_of_succ_lt_succ (bounded (next :: others) (.cons_cons invokes linked))
      -- A function that calls itself is also reached from the function that it calls first.
      rcases reached.cases_head with rfl | ⟨next, invokes, reached⟩
      · rcases TransGen.head'_iff.mp recursive with ⟨next, invokes, back⟩
        exact ih (boundedNext next invokes) back recursive
      · exact ih (boundedNext next invokes) reached recursive

/--
Chains of calls decide whether the stack is deep enough. If a call returns, then no chain of calls
from its function on has more functions than frames fit on the stack, and so none of the functions
that are reached calls itself in the end. If no chain has more functions, then the stack does not
overflow.
-/
theorem call_depth_decides_recursion (module : Module) (entry : String) (args : List Value) :
    (∀ value, module.call entry args = .ok value →
      (∀ chain, module.CallChain entry chain → chain.length ≤ maxFrames) ∧
        ∀ first function, module.get? entry = some first →
          ReflTransGen module.Invokes first function →
            ¬ TransGen module.Invokes function function) ∧
      ((∀ chain, module.CallChain entry chain → chain.length ≤ maxFrames) →
        ∀ callee, module.call entry args ≠ .error (.stackOverflow callee)) := by
  rw [call_eq_invoke]
  constructor
  · intro value returned
    have bounded : ∀ chain, module.CallChain entry chain → chain.length ≤ maxFrames :=
      fun chain isChain => length_le_of_invoke returned isChain
    refine ⟨bounded, ?_⟩
    intro first function found
    exact not_recursive_of_bounded fun others linked => bounded (first :: others) ⟨found, linked⟩
  · intro bounded callee overflows
    rcases exists_chain_of_overflow overflows with ⟨chain, isChain, longer⟩
    exact absurd (bounded chain isChain) (Nat.not_le_of_lt longer)

/-- A function that hands on what another one returns, which calls back only behind its return. -/
def relaying : Module :=
  ⟨"relaying",
    [⟨"outer", [], .struct [.int32],
        [⟨"entry", [⟨0, "kept", .call "inner" [.const 3]⟩, ⟨1, "", .ret [.instr 0]⟩]⟩], 2⟩,
      ⟨"inner", [⟨.int32, "count"⟩], .struct [.int32],
        [⟨"entry", [⟨0, "", .ret [.param 0]⟩, ⟨1, "", .call "outer" []⟩]⟩], 2⟩]⟩

theorem call_depth_decides_recursion_relaying :
    (∃ value, relaying.call "outer" [] = .ok value) ∧
      relaying.CallChain "outer" relaying.functions ∧
      (∀ chain, relaying.CallChain "outer" chain → chain.length ≤ maxFrames) ∧
      ∀ callee, relaying.call "outer" [] ≠ .error (.stackOverflow callee) := by
  have isOk : (relaying.call "outer" []).isOk = true := by
    rw [call_eq_invoke]
    decide +kernel
  have returned : ∃ value, relaying.call "outer" [] = .ok value := by
    cases called : relaying.call "outer" [] with
    | error error =>
        rw [called] at isOk
        cases isOk
    | ok value => exact ⟨value, rfl⟩
  have isChain : relaying.CallChain "outer" relaying.functions :=
    ⟨rfl, .cons_cons ⟨"inner", List.mem_cons_self, rfl⟩ (.singleton _)⟩
  have decides := call_depth_decides_recursion relaying "outer" []
  rcases returned with ⟨value, returned⟩
  have bounded := (decides.1 value returned).1
  exact ⟨⟨value, returned⟩, isChain, bounded, decides.2 bounded⟩

end Tuplet.Ir.Module
