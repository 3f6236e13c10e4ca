import Tuplet.Compile
import Tuplet.Proofs.Result
import Tuplet.Proofs.Telling

/-!
# What lowering tells

A step of lowering that succeeds tells nothing. One that fails tells of its
error first, and then of each construct that the error leaves on its way out.
That holds of what a step does to the log as a whole, so it is shown for each
step from what it is made of: telling of an error twice, or passing one on
without a word, would show where it is done.

No step looks at the log. What has been told before makes no difference to what
comes of a step, so items are lowered behind a log of any kind as they are
lowered behind an empty one.
-/

namespace Tuplet

/-- An error of lowering and what it has come up inside. -/
abbrev LoweringFailure := Failure LoweringError LoweringContext

namespace LoweringState

/-- A state in which something else has been told. -/
def withLog (state : LoweringState) (log : List Diagnostic) : LoweringState := { state with log }

/-- A state in which more has been told. -/
def tell (state : LoweringState) (remarks : List Diagnostic) : LoweringState :=
  state.withLog (state.log ++ remarks)

end LoweringState

namespace Lowering

variable {α β : Type} {state after : LoweringState}

/-- Gives up because of a failure, all of which is told. -/
def raise (failure : LoweringFailure) : Lowering α := fun state =>
  .error failure.cause (state.tell (failure.remarks .nowhere))

theorem fail_eq_raise (error : LoweringError) :
    (fail error : Lowering α) = raise (.because error) := rfl

@[simp]
theorem raise_ne_ok {failure : LoweringFailure} {value : α} :
    raise failure state ≠ .ok value after := by
  simp [raise]

theorem telling_of_ok {remark : LoweringError → Diagnostic} {step : Lowering α} {value : α}
    (stepped : step state = .ok value after) : telling remark step state = .ok value after := by
  simp only [telling, stepped]

theorem telling_of_error {remark : LoweringError → Diagnostic} {step : Lowering α}
    {error : LoweringError} (failed : step state = .error error after) :
    telling remark step state = .error error (after.tell [remark error]) := by
  simp only [telling, failed]
  rfl

theorem inside_of_ok {step : Lowering α} {value : α} (stepped : step state = .ok value after)
    (context : LoweringContext) : inside context step state = .ok value after :=
  telling_of_ok stepped

theorem inside_of_raise {step : Lowering α} {failure : LoweringFailure}
    (raised : step state = raise failure after) (context : LoweringContext) :
    inside context step state = raise (failure.inside context) after := by
  rw [inside, telling_of_error raised]
  simp [raise, LoweringState.tell, LoweringState.withLog]

theorem bind_of_raise {step : Lowering α} {failure : LoweringFailure} {next : α → Lowering β}
    (raised : step state = raise failure after) : (step >>= next) state = raise failure after :=
  Result.bind_of_error raised

/-- From a state, a step does the same whatever has been told, and tells of a failure only. -/
inductive CandidAt (step : Lowering α) (state : LoweringState) : Prop
  | ok (value : α) (after : LoweringState)
      (stepped : ∀ log, step (state.withLog log) = .ok value (after.withLog log))
  | error (failure : LoweringFailure) (after : LoweringState)
      (stepped : ∀ log, step (state.withLog log) = raise failure (after.withLog log))

/-- A step tells of how it fails, and of nothing else. -/
def Candid (step : Lowering α) : Prop := ∀ state, CandidAt step state

/-- A step tells nothing, not even of how it fails. -/
def Silent (step : Lowering α) : Prop :=
  ∀ state : LoweringState, ∃ after : LoweringState,
    (∃ value, ∀ log, step (state.withLog log) = .ok value (after.withLog log)) ∨
      ∃ error, ∀ log, step (state.withLog log) = .error error (after.withLog log)

theorem candid_pure (value : α) : Candid (pure value : Lowering α) :=
  fun state => .ok value state fun _ => rfl

theorem candid_fail (error : LoweringError) : Candid (fail error : Lowering α) :=
  fun state => .error (.because error) state fun _ => rfl

theorem Candid.andThen {step : Lowering α} {next : α → Lowering β} (first : Candid step)
    (second : ∀ value, Candid (next value)) : Candid (step >>= next) := by
  intro state
  cases first state with
  | error failure after stepped => exact .error failure after fun log => bind_of_raise (stepped log)
  | ok value middle stepped =>
      cases second value middle with
      | ok value after continued =>
          exact .ok value after fun log => (Result.bind_of_ok (stepped log)).trans (continued log)
      | error failure after continued =>
          exact .error failure after fun log =>
            (Result.bind_of_ok (stepped log)).trans (continued log)

/-- A step that looks at the state, but not at the log, is as candid as what it does then. -/
theorem candid_get {next : LoweringState → Lowering β}
    (blind : ∀ state log, next (state.withLog log) = next state)
    (candid : ∀ state, Candid (next state)) : Candid (get >>= next) := by
  intro state
  have looked (log : List Diagnostic) :
      (get >>= next) (state.withLog log) = next state (state.withLog log) := by
    rw [Result.get_bind, blind]
  cases candid state state with
  | ok value after stepped => exact .ok value after fun log => (looked log).trans (stepped log)
  | error failure after stepped =>
      exact .error failure after fun log => (looked log).trans (stepped log)

theorem candid_modify {change : LoweringState → LoweringState}
    (blind : ∀ state log, change (state.withLog log) = (change state).withLog log) :
    Candid (modify change) :=
  fun state => .ok ⟨⟩ (change state) fun log => by rw [Result.modify_apply, blind]

theorem Candid.inside {step : Lowering α} (candid : Candid step) (context : LoweringContext) :
    Candid (inside context step) := by
  intro state
  cases candid state with
  | ok value after stepped => exact .ok value after fun log => inside_of_ok (stepped log) context
  | error failure after stepped =>
      exact .error (failure.inside context) after fun log => inside_of_raise (stepped log) context

/-- An error that nothing has been told of is told of where it is passed on. -/
theorem Silent.report {step : Lowering α} (silent : Silent step) : Candid (report step) := by
  intro state
  rcases silent state with ⟨after, ⟨value, stepped⟩ | ⟨error, stepped⟩⟩
  · exact .ok value after fun log => telling_of_ok (stepped log)
  · exact .error (.because error) after fun log => telling_of_error (stepped log)

theorem silent_attempt (operation : Ir.Build α) : Silent (attempt operation) := by
  intro state
  cases operated : operation state.builder with
  | ok value builder =>
      refine ⟨{ state with builder }, .inl ⟨value, ?_⟩⟩
      intro log
      simp only [attempt, LoweringState.withLog, operated]
  | error error builder =>
      refine ⟨{ state with builder }, .inr ⟨.build error, ?_⟩⟩
      intro log
      simp only [attempt, LoweringState.withLog, operated]

theorem candid_build (operation : Ir.Build α) : Candid (build operation) :=
  (silent_attempt operation).report

theorem candid_resolve (name : String) : Candid (resolve name) := by
  apply Silent.report
  intro state
  cases typeNamed name with
  | ok type => exact ⟨state, .inl ⟨type, fun _ => rfl⟩⟩
  | error error => exact ⟨state, .inr ⟨error, fun _ => rfl⟩⟩

theorem candid_resolveAll (names : List String) : Candid (resolveAll names) := by
  induction names with
  | nil => exact candid_pure []
  | cons name rest ih =>
      apply (candid_resolve name).andThen
      intro type
      exact ih.andThen fun types => candid_pure (type :: types)

theorem candid_openBody (function : Nat) : Candid (openBody function) :=
  (candid_build _).andThen fun _ => candid_modify fun _ _ => rfl

theorem closeBody_withLog (outer : Option Body) (state : LoweringState) (log : List Diagnostic) :
    closeBody outer (state.withLog log) = (closeBody outer state).withLog log := by
  unfold closeBody LoweringState.withLog
  cases state.scope.pop <;> rfl

/-- A body is closed without a word. -/
theorem Candid.inBody {step : Lowering α} (candid : Candid step) (function : Nat) :
    Candid (inBody function step) := by
  apply candid_get fun _ _ => rfl
  intro outer
  apply (candid_openBody function).andThen
  intro _ state
  cases candid state with
  | ok value after stepped =>
      refine .ok value (closeBody outer.body after) ?_
      intro log
      simp only [stepped log, closeBody_withLog]
  | error failure after stepped =>
      refine .error failure (closeBody outer.body after) ?_
      intro log
      simp only [stepped log, raise, LoweringState.tell, closeBody_withLog]
      rfl

theorem candid_allocate (type : Ir.ValueType) (name : String) : Candid (allocate type name) := by
  apply candid_get fun _ _ => rfl
  intro state
  apply (candid_build _).andThen
  intro slot
  exact (candid_modify fun _ _ => rfl).andThen fun _ => candid_pure slot

theorem candid_slotOf (name : String) : Candid (slotOf name) := by
  apply candid_get fun _ _ => rfl
  intro state
  cases state.scope.lookup name with
  | some slot => exact candid_pure slot
  | none => exact candid_fail (.notDeclared name)

theorem candid_callee (name : String) (given : Nat) : Candid (callee name given) := by
  apply candid_get fun _ _ => rfl
  intro state
  dsimp only
  cases state.builder.module.index? name with
  | none => exact candid_fail (.unknownFunction name)
  | some index =>
      dsimp only
      split
      · exact candid_pure index
      · exact candid_fail _

theorem candid_emitCall (index : Nat) (name : String) (args : List Ir.Operand) :
    Candid (emitCall index name args) := by
  apply (candid_build _).andThen
  intro aggregate?
  cases aggregate? with
  | none => exact candid_pure none
  | some aggregate => exact (candid_build _).andThen fun first => candid_pure (some first)

theorem candid_emitOperator (op : Operator) (left right : Ir.Operand) :
    Candid (emitOperator op left right) := by
  unfold emitOperator
  cases op.arithmetic? with
  | none => exact candid_fail (.unsupportedOperator op)
  | some arithmetic => exact candid_build _

mutual

theorem candid_value : ∀ node : Node, Candid (value node)
  | .literal number => candid_pure (Ir.Operand.const number)
  | .var use => by
      rw [value]
      exact (candid_slotOf use.name).andThen fun slot => candid_build _
  | .binary op left right => by
      rw [value]
      apply (candid_value left).andThen
      intro left
      exact (candid_value right).andThen fun right => candid_emitOperator op left right
  | .call name args => by
      rw [value]
      apply (candid_callee name args.length).andThen
      intro index
      apply (candid_arguments name 1 args).andThen
      intro operands
      apply (candid_emitCall index name operands).andThen
      intro operand?
      cases operand? with
      | none => exact candid_fail (.noResult name)
      | some operand => exact candid_pure operand
  | .group inner => by
      rw [value]
      exact candid_value inner
  | .assign _ _ | .decl _ | .signature _ | .function _ _ | .ret _ => by
      rw [value]
      exact candid_fail _

theorem candid_arguments (name : String) (position : Nat) :
    ∀ args : List Node, Candid (arguments name position args)
  | [] => candid_pure []
  | arg :: rest => by
      rw [arguments]
      apply ((candid_value arg).inside (.argument position name)).andThen
      intro operand
      exact (candid_arguments name (position + 1) rest).andThen fun _ => candid_pure _

end

theorem candid_call (name : String) (args : List Node) : Candid (call name args) := by
  apply (candid_callee name args.length).andThen
  intro index
  exact (candid_arguments name 1 args).andThen fun operands => candid_emitCall index name operands

theorem candid_values (nodes : List Node) : Candid (values nodes) := by
  induction nodes with
  | nil => exact candid_pure []
  | cons node rest ih =>
      apply (candid_value node).andThen
      intro operand
      exact ih.andThen fun operands => candid_pure (operand :: operands)

theorem candid_declaration (declared : Declaration) : Candid (declaration declared) := by
  apply candid_get fun _ _ => rfl
  intro state
  split
  · exact candid_fail (.nameTaken declared.name)
  · exact (candid_resolve declared.type).andThen fun type => candid_allocate type declared.name

theorem candid_target (assigned : Target) : Candid (target assigned) := by
  cases assigned with
  | decl declared => exact candid_declaration declared
  | var use => exact candid_slotOf use.name

theorem candid_statement (node : Node) : Candid (statement node) := by
  cases node with
  | decl declared => exact (candid_declaration declared).andThen fun _ => candid_pure ()
  | assign assigned node =>
      apply (candid_target assigned).andThen
      intro slot
      exact ((candid_value node).inside .assignedValue).andThen fun operand => candid_build _
  | call name args => exact (candid_call name args).andThen fun _ => candid_pure ()
  | ret nodes => exact (candid_values nodes).andThen fun operands => candid_build _
  | _ => exact candid_fail _

theorem candid_statements (nodes : List Node) : Candid (statements nodes) := by
  induction nodes with
  | nil => exact candid_pure ()
  | cons node rest ih => exact ((candid_statement node).inside _).andThen fun _ => ih

theorem candid_parameters (function position : Nat) (params : List Parameter) :
    Candid (parameters function position params) := by
  induction params generalizing position with
  | nil => exact candid_pure ()
  | cons param rest ih =>
      apply candid_get fun _ _ => rfl
      intro state
      split
      · exact candid_fail (.parameterTaken param.name)
      · apply (candid_resolve param.type).andThen
        intro type
        apply (candid_allocate type param.name).andThen
        intro slot
        apply (candid_build _).andThen
        intro operand
        exact (candid_build _).andThen fun _ => ih (position + 1)

theorem candid_resolveParams (params : List Parameter) : Candid (resolveParams params) := by
  induction params with
  | nil => exact candid_pure []
  | cons param rest ih =>
      apply (candid_resolve param.type).andThen
      intro type
      exact ih.andThen fun params => candid_pure _

theorem candid_signature (header : Signature) : Candid (signature header) := by
  unfold signature
  cases header.repeatedParam? with
  | some param => exact candid_fail (.repeatedParameter param header.name)
  | none =>
      apply (candid_resolveParams header.params).andThen
      intro params
      exact (candid_resolveAll header.returns).andThen fun returns => candid_build _

theorem candid_definedFunction (header : Signature) : Candid (definedFunction header) := by
  apply candid_get fun _ _ => rfl
  intro state
  dsimp only
  cases state.builder.module.index? header.name with
  | none => exact (candid_signature header).inside (.declaring header.name)
  | some index =>
      dsimp only
      split
      · exact candid_fail (.alreadyHasBody header.name)
      · split
        · exact candid_pure index
        · exact candid_fail (.mismatchedDeclaration header.name)

theorem candid_endBody (header : Signature) : Candid (endBody header) := by
  apply candid_get fun _ _ => rfl
  intro state
  split
  · exact candid_build _
  · exact candid_pure ()

theorem candid_check (function : Nat) : Candid (check function) := by
  apply candid_get fun _ _ => rfl
  intro state
  rcases state.builder.verify function with (error | error) | _
  · exact candid_fail (.build error)
  · exact candid_fail (.verify error)
  · exact candid_pure ()

theorem candid_function (header : Signature) (body : List Node) :
    Candid (function header body) := by
  apply (candid_definedFunction header).andThen
  intro index
  apply Candid.andThen
  · apply Candid.inBody
    exact (candid_parameters index 0 header.params).andThen fun _ => candid_statements body
  intro _
  apply (candid_endBody header).andThen
  intro _
  exact (candid_check index).andThen fun _ => candid_pure index

/-- Lowering an item tells of how it fails, and of nothing else. -/
theorem candid_item (node : Node) : Candid (item node) := by
  cases node with
  | function header body => exact (candid_function header body).inside (.function header.name)
  | signature header =>
      apply candid_get fun _ _ => rfl
      intro state
      cases state.builder.module.index? header.name with
      | some index => exact candid_pure index
      | none => exact candid_signature header
  | _ => exact candid_fail _

/-- What came of an item. -/
def outcome : EStateM.Result LoweringError LoweringState Nat → Except LoweringError Nat
  | .ok index _ => .ok index
  | .error error _ => .error error

/-- The state that an item has left, whether or not it has failed. -/
def left : EStateM.Result LoweringError LoweringState Nat → LoweringState
  | .ok _ after | .error _ after => after

theorem items_cons (state : LoweringState) (node : Node) (rest : List Node) :
    (items state (node :: rest)).2 = (items (left (item node state)) rest).2 := by
  cases lowered : item node state <;> simp [items, lowered, left]

theorem results_cons (state : LoweringState) (node : Node) (rest : List Node) :
    (items state (node :: rest)).1 =
      outcome (item node state) :: (items (left (item node state)) rest).1 := by
  cases lowered : item node state <;> simp [items, lowered, left, outcome]

theorem items_append (state : LoweringState) (before rest : List Node) :
    (items state (before ++ rest)).2 = (items (items state before).2 rest).2 := by
  induction before generalizing state with
  | nil => rfl
  | cons node before ih => simp [items_cons, ih]

theorem results_append (state : LoweringState) (before rest : List Node) :
    (items state (before ++ rest)).1 =
      (items state before).1 ++ (items (items state before).2 rest).1 := by
  induction before generalizing state with
  | nil => rfl
  | cons node before ih => simp [results_cons, items_cons, ih]

theorem length_results (state : LoweringState) (nodes : List Node) :
    (items state nodes).1.length = nodes.length := by
  induction nodes generalizing state with
  | nil => rfl
  | cons node rest ih => simp [results_cons, ih]

/-- What an item has told: what the log has more than before. -/
def told (state : LoweringState) (node : Node) : List Diagnostic :=
  (left (item node state)).log.drop state.log.length

/-- What each of some items has told, one after the other. -/
def tellings (state : LoweringState) : List Node → List (List Diagnostic)
  | [] => []
  | node :: rest => told state node :: tellings (left (item node state)) rest

theorem tellings_append (state : LoweringState) (before rest : List Node) :
    tellings state (before ++ rest) =
      tellings state before ++ tellings (items state before).2 rest := by
  induction before generalizing state with
  | nil => rfl
  | cons node before ih => simp [tellings, items_cons, ih]

theorem length_tellings (state : LoweringState) (nodes : List Node) :
    (tellings state nodes).length = nodes.length := by
  induction nodes generalizing state with
  | nil => rfl
  | cons node rest ih => simp [tellings, ih]

theorem told_of_raise {node : Node} {failure : LoweringFailure}
    (raised : item node state = raise failure after) (same : after.log = state.log) :
    told state node = failure.remarks .nowhere := by
  rw [told, raised]
  simp [raise, left, LoweringState.tell, LoweringState.withLog, same]

/-- An item succeeds and tells nothing, or fails and tells of that. -/
theorem told_cases (state : LoweringState) (node : Node) :
    (∃ index, outcome (item node state) = .ok index ∧ told state node = []) ∨
      ∃ failure : LoweringFailure, outcome (item node state) = .error failure.cause ∧
        told state node = failure.remarks .nowhere := by
  cases candid_item node state with
  | ok index after stepped =>
      have lowered : item node state = .ok index (after.withLog state.log) := stepped state.log
      exact .inl ⟨index, by rw [lowered]; rfl, by simp [told, lowered, left, LoweringState.withLog]⟩
  | error failure after stepped =>
      have raised : item node state = raise failure (after.withLog state.log) := stepped state.log
      exact .inr ⟨failure, by rw [raised]; rfl, told_of_raise raised rfl⟩

/-- Whatever is told is told of how one of the items has failed. -/
theorem exists_failure_of_told {nodes : List Node} {diagnostic : Diagnostic}
    (isTold : diagnostic ∈ (tellings state nodes).flatten) :
    ∃ failure : LoweringFailure, .error failure.cause ∈ (items state nodes).1 ∧
      diagnostic ∈ failure.remarks .nowhere := by
  induction nodes generalizing state with
  | nil => cases isTold
  | cons node rest ih =>
      rw [results_cons]
      rw [tellings, List.flatten_cons] at isTold
      rcases List.mem_append.mp isTold with here | isTold
      · rcases told_cases state node with ⟨index, _, nothing⟩ | ⟨failure, failed, told⟩
        · rw [nothing] at here
          cases here
        · rw [told] at here
          exact ⟨failure, failed ▸ List.mem_cons_self, here⟩
      · rcases ih isTold with ⟨failure, failed, there⟩
        exact ⟨failure, List.mem_cons_of_mem _ failed, there⟩

/-- What comes of an item, and what it tells, does not depend on what has been told before. -/
theorem item_withLog (state : LoweringState) (log : List Diagnostic) (node : Node) :
    outcome (item node (state.withLog log)) = outcome (item node state) ∧
      left (item node (state.withLog log)) =
        (left (item node state)).withLog (log ++ told state node) := by
  cases candid_item node state with
  | ok index after stepped =>
      have lowered : item node state = .ok index (after.withLog state.log) := stepped state.log
      rw [told, stepped log, lowered]
      simp [outcome, left, LoweringState.withLog]
  | error failure after stepped =>
      have raised : item node state = raise failure (after.withLog state.log) := stepped state.log
      rw [told_of_raise raised rfl, stepped log, raised]
      exact ⟨rfl, rfl⟩

/-- Items are lowered behind any log as behind any other, and what they tell is put there. -/
theorem items_withLog (state : LoweringState) (log : List Diagnostic) (nodes : List Node) :
    items (state.withLog log) nodes =
      ((items state nodes).1,
        (items state nodes).2.withLog (log ++ (tellings state nodes).flatten)) := by
  induction nodes generalizing state log with
  | nil => simp [items, tellings]
  | cons node rest ih =>
      have alike := item_withLog state log node
      apply Prod.ext
      · rw [results_cons, results_cons, alike.1, alike.2, ih]
      · rw [items_cons, items_cons, alike.2, ih, tellings, List.flatten_cons, List.append_assoc]

/-- The log has what was told before, and then what each item has told. -/
theorem log_items (state : LoweringState) (nodes : List Node) :
    (items state nodes).2.log = state.log ++ (tellings state nodes).flatten :=
  congrArg (·.2.log) (items_withLog state state.log nodes)

end Lowering

/-- What is told of a source text: what was told when it was read, and then of each item. -/
theorem compile_diagnostics (moduleName source : String) :
    (compile moduleName source).diagnostics =
      (Grammar.program (tokenize source)).diagnostics (Token.endOf (tokenize source)) ++
        (Lowering.tellings (.new (.new moduleName)) (compile moduleName source).items).flatten :=
  congrArg (·.2.log) (Lowering.items_withLog (.new (.new moduleName)) _ _)

theorem compile_functions (moduleName source : String) :
    (compile moduleName source).functions =
      (Lowering.items (.new (.new moduleName)) (compile moduleName source).items).1 :=
  congrArg (·.1) (Lowering.items_withLog (.new (.new moduleName)) _ _)

theorem compile_module (moduleName source : String) :
    (compile moduleName source).module =
      (Lowering.items (.new (.new moduleName))
        (compile moduleName source).items).2.builder.module :=
  congrArg (·.2.builder.module) (Lowering.items_withLog (.new (.new moduleName)) _ _)

end Tuplet
