import Tuplet.Proofs.AcceptedProgram
import Tuplet.Proofs.Evaluation

/-!
# Lowering preserves meaning

A body is run as its statements mean: slots are made for all names at once, but
until a name has been declared nothing reads its slot, and afterwards the slot
holds what the environment says. A statement keeps this up, and so do all
statements of a body in order. A call leaves room for one more call less, so that
calls agree by induction on the room that is left.
-/

namespace Tuplet

open Ir (Function Instruction Module Operand Slot ValueType)
open Run (Frame Invoke RunError Value)

namespace Draft

variable {draft : Draft}

@[simp] theorem next_allocate (name : String) (type : ValueType) :
    (draft.allocate name type).next = draft.next + 1 := by
  simp [next, Nat.add_right_comm]

theorem Valid.slot_lt {name : String} {slot : Slot} (valid : draft.Valid)
    (found : draft.slot? name = some slot) : slot.id < draft.next := by
  have member : slot.id ∈ draft.instructions.map (·.id) :=
    List.mem_map.mpr ⟨_, mem_of_slot? found, rfl⟩
  exact List.mem_range.mp (valid.subset member)

/-- Names that can be told apart stand for slots that can be told apart. -/
theorem Valid.slot_ne {name other : String} {slot otherSlot : Slot} (valid : draft.Valid)
    (found : draft.slot? name = some slot) (otherFound : draft.slot? other = some otherSlot)
    (differ : other ≠ name) : otherSlot.id ≠ slot.id := by
  intro same
  have equal := List.inj_on_of_nodup_map valid.distinct (mem_of_slot? otherFound)
    (mem_of_slot? found) same
  exact differ (congrArg Instruction.name equal)

end Draft

namespace Run.Frame

/-- A frame has made the slots of a whole body and has come to where a draft ends. -/
structure Simulates (frame : Frame) (whole draft : Draft) (environment : Environment) : Prop where
  binds : frame.Binds draft environment
  unused : ∀ slot ∈ whole.slots, draft.next ≤ slot.2.id →
    frame.slots.lookup slot.2.id = some none

variable {frame after : Frame} {whole draft : Draft} {environment : Environment}
  {invoke : Invoke}

theorem Simulates.of_slots_eq (simulates : frame.Simulates whole draft environment)
    (same : after.slots = frame.slots) : after.Simulates whole draft environment :=
  ⟨simulates.binds.of_slots_eq same, by rw [same]; exact simulates.unused⟩

theorem Simulates.extend (simulates : frame.Simulates whole draft environment)
    (code : List Instruction) : frame.Simulates whole (draft.extend code) environment where
  binds := simulates.binds.extend code
  unused slot member above := by
    rw [Draft.next_extend] at above
    exact simulates.unused slot member (by omega)

/-- A name that is declared stands for a slot that holds nothing. -/
theorem Simulates.allocate {name : String} {type : ValueType}
    (simulates : frame.Simulates whole draft environment)
    (within : (draft.allocate name type).Within whole) :
    frame.Simulates whole (draft.allocate name type) ((name, none) :: environment) where
  binds other slot found := by
    rw [Draft.slot?_allocate] at found
    by_cases same : other = name
    · obtain rfl : ⟨draft.next, type⟩ = slot := by simpa [same] using found
      obtain ⟨rest, rfl⟩ := within
      exact ⟨none, by simp [same], simulates.unused (name, ⟨draft.next, type⟩) (by simp) (by simp)⟩
    · rw [if_neg same] at found
      rw [Lookup.lookup_cons_of_ne same]
      exact simulates.binds other slot found
  unused slot member above := by
    rw [Draft.next_allocate] at above
    exact simulates.unused slot member (by omega)

/-- A name that is assigned to stands for a slot that holds the value. -/
theorem Simulates.store {name : String} {slot : Slot}
    (simulates : frame.Simulates whole draft environment) (valid : draft.Valid)
    (found : draft.slot? name = some slot) (value : Value) :
    (frame.setSlot slot.id (some value)).Simulates whole draft
      ((name, some value) :: environment) where
  binds other otherSlot otherFound := by
    by_cases same : other = name
    · subst same
      obtain rfl := Option.some.inj (found.symm.trans otherFound)
      exact ⟨some value, by simp, by simp [setSlot]⟩
    · obtain ⟨content, bound, held⟩ := simulates.binds other otherSlot otherFound
      refine ⟨content, by rw [Lookup.lookup_cons_of_ne same, bound], ?_⟩
      exact (Lookup.lookup_cons_of_ne (valid.slot_ne found otherFound same) _ _).trans held
  unused other member above := by
    have below := valid.slot_lt found
    exact (Lookup.lookup_cons_of_ne (by omega) _ _).trans (simulates.unused other member above)

/-- What a name stood for before does not matter. -/
theorem Simulates.forget {name : String} {content earlier : Option Value}
    (simulates : frame.Simulates whole draft ((name, content) :: (name, earlier) :: environment)) :
    frame.Simulates whole draft ((name, content) :: environment) where
  binds other slot found := by
    obtain ⟨held, bound, lookup⟩ := simulates.binds other slot found
    refine ⟨held, ?_, lookup⟩
    by_cases same : other = name
    · simpa [same] using bound
    · rw [Lookup.lookup_cons_of_ne same, Lookup.lookup_cons_of_ne same] at bound
      rwa [Lookup.lookup_cons_of_ne same]
  unused := simulates.unused

/-- The slots of a body are made first, and hold nothing then. -/
theorem exists_reaches_slots (slots : List (String × Slot)) (frame : Frame) :
    ∃ after, frame.Reaches invoke (slots.map Draft.slotInstruction) after ∧
      after.args = frame.args ∧ (∀ slot ∈ slots, after.slots.lookup slot.2.id = some none) ∧
        ∀ id, frame.slots.lookup id = some none → after.slots.lookup id = some none := by
  induction slots generalizing frame with
  | nil => exact ⟨frame, .refl frame, rfl, by simp, fun _ held => held⟩
  | cons slot rest ih =>
      obtain ⟨after, reached, args, made, kept⟩ := ih (frame.setSlot slot.2.id none)
      have first : frame.Reaches invoke [Draft.slotInstruction slot]
          (frame.setSlot slot.2.id none) := reaches_of_perform rfl
      refine ⟨after, first.trans reached, args, ?_, ?_⟩
      · rw [List.forall_mem_cons]
        exact ⟨kept _ (by simp [setSlot]), made⟩
      · intro id held
        apply kept
        by_cases same : id = slot.2.id
        · simp [setSlot, same]
        · exact (Lookup.lookup_cons_of_ne same _ _).trans held

theorem simulates_empty (made : ∀ slot ∈ whole.slots, frame.slots.lookup slot.2.id = some none) :
    frame.Simulates whole .empty [] :=
  ⟨fun name slot found => by simp [Draft.slot?] at found, fun slot member _ => made slot member⟩

end Run.Frame

/-- Calls of the functions of a table are answered as in a program. -/
structure Answered (table : FunctionTable) (call : Answers) (invoke : Invoke) : Prop where
  agrees : ∀ name args, Agrees (call name args) (invoke name args)
  /-- What is returned has a first value if the function is known to return values. -/
  first : ∀ name profile args value, table.profile? name = some profile →
    profile.returns ≠ [] → call name args = .ok value → ∃ part, value.field 0 = .ok part

namespace Node

variable {table : FunctionTable} {call : Answers} {invoke : Invoke} {function : Function}
  {whole draft after : Draft}

/-- Parameters are stored in their slots in order. -/
theorem EmitsParameters.reaches {position : Nat} {params : List Parameter}
    (emits : EmitsParameters draft position params after) (within : after.Within whole)
    (valid : draft.Valid) :
    ∃ code, after.code = draft.code ++ code ∧
      ∀ (frame : Frame) (environment : Environment) (values : List Value),
        frame.Simulates whole draft environment → frame.args.drop position = values →
          values.length = params.length →
            ∃ last, frame.Reaches invoke code last ∧ last.Simulates whole after
              (((params.map (·.name)).zip (values.map some)).reverse ++ environment) := by
  induction emits with
  | nil =>
      refine ⟨[], by simp, ?_⟩
      intro frame environment values simulates _ _
      exact ⟨frame, .refl frame, by simpa using simulates⟩
  | @cons draft after position param type rest unused known others ih =>
      have allocated : (draft.allocate param.name type).Valid := valid.allocate type param.name
      obtain ⟨code, added, reaches⟩ := ih within (allocated.emit _ _)
      refine ⟨_ :: code, by simpa using added, ?_⟩
      intro frame environment values simulates given count
      cases values with
      | nil => simp at count
      | cons value values =>
          have found : (draft.allocate param.name type).slot? param.name =
              some ⟨draft.next, type⟩ := by simp [Draft.slot?_allocate]
          have declared := simulates.allocate (others.within within).of_extend
          have stored := ((declared.store allocated found value).forget).extend
            [⟨(draft.allocate param.name type).next, "", .store (.param position)
              (.instr draft.next)⟩]
          obtain ⟨_, _, held⟩ := declared.binds param.name _ found
          have evaluated : frame.eval (.param position) = .ok value := by
            have first : (frame.args.drop position)[0]? = some value := by simp [given]
            have present : frame.args[position]? = some value := by
              rwa [List.getElem?_drop] at first
            simp [Frame.eval, present]
          have left : frame.args.drop (position + 1) = values := by
            rw [← List.drop_drop, given, List.drop_one, List.tail_cons]
          obtain ⟨last, reached, simulated⟩ := reaches _ _ values stored left (by simpa using count)
          refine ⟨last, (Frame.reaches_store held evaluated).trans reached, ?_⟩
          simpa using simulated

theorem meets_callCode (answered : Answered table call invoke) {profile : Profile}
    {name : String} {id : Nat} {frame : Frame} {operands : List Operand} {args : List Value}
    (declared : table.profile? name = some profile)
    (evaluated : frame.evalAll operands = .ok args) :
    frame.Meets invoke (callCode profile id name operands) (call name args)
      fun _ after => after.slots = frame.slots := by
  have called : frame.Meets invoke [⟨id, name, .call name operands⟩] (call name args)
      fun value after => after = frame.define id value :=
    Frame.meets_call (answered.agrees name args) evaluated
  by_cases returns : profile.returns = []
  · rw [callCode, if_pos returns]
    refine called.mono ?_
    rintro _ _ rfl
    rfl
  · rw [callCode, if_neg returns, ← List.singleton_append]
    -- The first value is taken though nothing uses it, so there has to be one.
    cases answer : call name args with
    | error problem =>
        rw [answer] at called
        exact called.imp fun error fails => ⟨fails.1.append _, fails.2⟩
    | ok value =>
        rw [answer] at called
        obtain ⟨_, reached, rfl⟩ := called
        obtain ⟨part, field⟩ := answered.first name profile args value declared returns answer
        have extracted : (frame.define id value).Meets invoke
            [⟨id + 1, "", .extract (.instr id) 0⟩] (running (value.field 0))
              fun part after => after = (frame.define id value).define (id + 1) part :=
          Frame.meets_extract (frame.eval_define value)
        rw [field] at extracted
        obtain ⟨_, extractReached, rfl⟩ := extracted
        exact ⟨_, reached.trans extractReached, rfl⟩

theorem EmitsTarget.slot?_targetName {assigned : Target} {slot : Slot}
    (emits : EmitsTarget draft assigned slot after) :
    after.slot? (targetName assigned) = some slot := by
  cases emits with
  | var found => exact found
  | decl unused known => simp [Draft.slot?_allocate, targetName]

theorem EmitsTarget.simulates {assigned : Target} {slot : Slot} {frame : Frame}
    {environment : Environment} (emits : EmitsTarget draft assigned slot after)
    (within : after.Within whole) (simulates : frame.Simulates whole draft environment) :
    frame.Simulates whole after (declareTarget environment assigned) := by
  cases emits with
  | var found => exact simulates
  | decl unused known => exact simulates.allocate within

/-- What comes of a statement if something comes of every environment it may lead to. -/
def Flow.resume (next : Environment → Except Problem Value) : Flow → Except Problem Value
  | .next environment => next environment
  | .done value => .ok value

theorem run_cons (call : Answers) (environment : Environment) (node : Node) (rest : List Node) :
    run call environment (node :: rest) =
      step call environment node >>= Flow.resume fun environment => run call environment rest := by
  rw [run]
  congr

/-- A statement leads where its code leads, whatever a program and a module go on with. -/
theorem EmitsStatement.agrees {node : Node} (answered : Answered table call invoke)
    (emits : node.EmitsStatement table draft after) (within : after.Within whole)
    (sequential : draft.Sequential function) :
    ∃ code, after.code = draft.code ++ code ∧
      ∀ (frame : Frame) (environment : Environment), frame.Simulates whole draft environment →
        ∀ (next : Environment → Except Problem Value) (tail : List Instruction),
          (¬ node.IsReturn → ∀ (frame : Frame) (environment : Environment),
            frame.Simulates whole after environment →
              Agrees (next environment) ((frame.withCode tail).finish invoke)) →
            Agrees (step call environment node >>= Flow.resume next)
              ((frame.withCode (code ++ tail)).finish invoke) := by
  cases emits with
  | decl target =>
      -- Nothing is run for a declaration: its slot was made when the body started.
      refine ⟨[], by simp [target.code_eq], ?_⟩
      intro frame environment simulates next tail continued
      exact continued id frame _ (target.simulates within simulates)
  | @assign assigned value slot middle code operand target emits =>
      refine ⟨_, by rw [Draft.code_extend, target.code_eq], ?_⟩
      intro frame environment simulates next tail continued
      have declared := target.simulates within.of_extend simulates
      rw [step, bind_assoc, List.append_assoc]
      have targetSequential := (target.sequential sequential).1
      refine (emits.meets answered.agrees targetSequential declared.binds).agrees ?_
      rintro result last ⟨evaluated, keeps⟩
      have simulated := declared.of_slots_eq keeps.slots
      obtain ⟨_, _, held⟩ := simulated.binds _ _ target.slot?_targetName
      rw [Frame.reaches_store held evaluated tail]
      exact continued id _ _
        ((simulated.store targetSequential.valid target.slot?_targetName result).extend _)
  | call known count arguments =>
      refine ⟨_, Draft.code_extend _ _, ?_⟩
      intro frame environment simulates next tail continued
      rw [step, bind_assoc, List.append_assoc]
      refine (arguments.meets answered.agrees sequential simulates.binds).agrees ?_
      rintro values middle ⟨evaluated, keeps⟩
      rw [bind_assoc]
      refine (meets_callCode answered known evaluated).agrees ?_
      intro _ last same
      exact continued id last environment
        ((simulates.of_slots_eq (same.trans keeps.slots)).extend _)
  | ret emits =>
      refine ⟨_, Draft.code_extend _ _, ?_⟩
      intro frame environment simulates next tail _
      rw [step, bind_assoc, List.append_assoc]
      refine (emits.meets answered.agrees sequential simulates.binds).agrees ?_
      rintro values last ⟨evaluated, _⟩
      -- What is behind a return is not run, be it in the code or in the program.
      rw [Frame.finish_singleton]
      simp only [Frame.perform, evaluated]
      exact .ok (.ofReturns values)

/--
Statements lead where their code leads. Unless one of them returns, there is a
return behind them.
-/
theorem EmitsStatements.agrees {nodes : List Node} (answered : Answered table call invoke)
    (emits : EmitsStatements table draft nodes after) (within : after.Within whole)
    (sequential : draft.Sequential function) :
    ∃ code, after.code = draft.code ++ code ∧
      ∀ (frame : Frame) (environment : Environment), frame.Simulates whole draft environment →
        ∀ tail : List Instruction,
          ((∀ node ∈ nodes, ¬ node.IsReturn) → ∃ id, tail = [⟨id, "", .ret []⟩]) →
            Agrees (run call environment nodes)
              ((frame.withCode (code ++ tail)).finish invoke) := by
  induction emits with
  | nil =>
      refine ⟨[], by simp, ?_⟩
      intro frame environment _ tail returns
      obtain ⟨id, rfl⟩ := returns (by simp)
      rw [List.nil_append, ← List.append_nil [_], Frame.finish_singleton]
      exact .ok .void
  | cons first others ih =>
      obtain ⟨code, added, step⟩ := first.agrees answered (others.within within) sequential
      obtain ⟨more, moreAdded, rest⟩ := ih within (first.sequential sequential)
      refine ⟨code ++ more, by rw [moreAdded, added, List.append_assoc], ?_⟩
      intro frame environment simulates tail returns
      rw [run_cons, List.append_assoc]
      apply step frame environment simulates
      intro noReturn frame environment simulates
      refine rest frame environment simulates tail fun noOther => returns ?_
      rw [List.forall_mem_cons]
      exact ⟨noReturn, noOther⟩

theorem length_of_evalAll {environment : Environment} {nodes : List Node} {values : List Value}
    (evaluated : evalAll call environment nodes = .ok values) : values.length = nodes.length := by
  induction nodes generalizing values with
  | nil =>
      obtain rfl : [] = values := by simpa [evalAll] using evaluated
      rfl
  | cons node rest ih =>
      rw [evalAll] at evaluated
      obtain ⟨value, _, evaluated⟩ := Result.bind_eq_ok_iff.mp evaluated
      obtain ⟨others, restEvaluated, evaluated⟩ := Result.bind_eq_ok_iff.mp evaluated
      obtain rfl : value :: others = values := by simpa using evaluated
      simp [ih restEvaluated]

/-- A statement that returns has as many values as it should. -/
theorem Statement.of_step {node : Node} {returns : List ValueType} {names later : Names}
    {environment : Environment} {flow : Flow}
    (statement : node.Statement table returns names later)
    (stepped : step call environment node = .ok flow) :
    (¬ node.IsReturn ∧ ∃ environment, flow = .next environment) ∨
      ∃ values, flow = .done (.ofReturns values) ∧ values.length = returns.length := by
  cases statement with
  | decl _ =>
      obtain rfl := Except.ok.inj stepped
      exact .inl ⟨id, _, rfl⟩
  | assign _ _ =>
      rw [step] at stepped
      obtain ⟨value, _, stepped⟩ := Result.bind_eq_ok_iff.mp stepped
      obtain rfl := Except.ok.inj stepped
      exact .inl ⟨id, _, rfl⟩
  | call _ _ =>
      rw [step] at stepped
      obtain ⟨args, _, stepped⟩ := Result.bind_eq_ok_iff.mp stepped
      obtain ⟨value, _, stepped⟩ := Result.bind_eq_ok_iff.mp stepped
      obtain rfl := Except.ok.inj stepped
      exact .inl ⟨id, _, rfl⟩
  | ret typed =>
      rw [step] at stepped
      obtain ⟨values, evaluated, stepped⟩ := Result.bind_eq_ok_iff.mp stepped
      obtain rfl := Except.ok.inj stepped
      exact .inr ⟨values, rfl, by rw [length_of_evalAll evaluated, typed.length_eq]⟩

theorem Statements.of_run {nodes : List Node} {returns : List ValueType} {names : Names}
    {environment : Environment} {value : Value}
    (statements : Statements table returns names nodes)
    (ran : run call environment nodes = .ok value) :
    (∃ values, value = .ofReturns values ∧ values.length = returns.length) ∨
      value = .void ∧ ∀ node ∈ nodes, ¬ node.IsReturn := by
  induction statements generalizing environment with
  | nil =>
      obtain rfl := Except.ok.inj ran
      exact .inr ⟨rfl, by simp⟩
  | cons first _ ih =>
      rw [run_cons] at ran
      obtain ⟨flow, stepped, ran⟩ := Result.bind_eq_ok_iff.mp ran
      rcases first.of_step stepped with ⟨noReturn, later, rfl⟩ | ⟨values, rfl, count⟩
      · refine (ih ran).imp_right fun ended => ⟨ended.1, ?_⟩
        rw [List.forall_mem_cons]
        exact ⟨noReturn, ended.2⟩
      · exact .inl ⟨values, (Except.ok.inj ran).symm, count⟩

theorem IsBody.of_run {header : Signature} {known : Known} {body : List Node}
    {environment : Environment} {value : Value} (isBody : IsBody table header known body)
    (ran : run call environment body = .ok value) :
    ∃ values, value = .ofReturns values ∧ values.length = known.returns.length := by
  rcases isBody.statements.of_run ran with returned | ⟨rfl, noReturn⟩
  · exact returned
  · rcases isBody.returns with ⟨node, member, isReturn⟩ | ⟨_, nothing⟩
    · exact absurd isReturn (noReturn node member)
    · exact ⟨[], rfl, by simp [nothing]⟩

end Node

namespace Implementation

variable {module : Module} {function : Function} {header : Signature} {body : List Node}
  {call : Answers} {invoke : Invoke}

/-- A body that does not return is ended by a return. -/
theorem exists_tail (implementation : Implementation module function header body) :
    ∃ tail, (implementation.draft.finished header).code = implementation.draft.code ++ tail ∧
      ((∀ node ∈ body, ¬ node.IsReturn) → ∃ id, tail = [⟨id, "", .ret []⟩]) := by
  by_cases closed : (header.isVoid && !implementation.draft.isEnded) = true
  · exact ⟨[⟨implementation.draft.next, "", .ret []⟩], by simp [Draft.finished, closed],
      fun _ => ⟨_, rfl⟩⟩
  · refine ⟨[], by simp [Draft.finished, closed], ?_⟩
    intro noReturn
    have notEnded := (implementation.statements.quiet (implementation.params.quiet (by simp))
      noReturn).isEnded
    rcases implementation.isBody.returns with ⟨node, member, isReturn⟩ | ⟨isVoid, _⟩
    · exact absurd isReturn (noReturn node member)
    · simp [Signature.isVoid, isVoid, notEnded] at closed

/-- The body of a function runs as its definition means. -/
theorem agrees (implementation : Implementation module function header body)
    (answered : Answered implementation.table call invoke) {args : List Value}
    (count : header.params.length = args.length) :
    Agrees (Node.run call ((header.params.map (·.name)).zip (args.map some)).reverse body)
      ((Frame.start function args).finish invoke) := by
  have within := implementation.draft.within_finished header
  obtain ⟨entryCode, entryAdded, enters⟩ :=
    implementation.params.reaches (implementation.statements.within within) Draft.valid_empty
  obtain ⟨bodyCode, bodyAdded, runs⟩ :=
    implementation.statements.agrees answered within implementation.sequential_entry
  obtain ⟨tail, tailAdded, returns⟩ := implementation.exists_tail
  obtain ⟨made, reached, givenArgs, slotsMade, _⟩ := Frame.exists_reaches_slots
    (implementation.draft.finished header).slots (Frame.start function args)
  obtain ⟨entered, entering, simulates⟩ := enters made [] args (Frame.simulates_empty slotsMade)
    givenArgs count.symm
  -- Behind the slots stands what the parameters, the statements and the end have added.
  have split : function.code = (implementation.draft.finished header).slots.map
      Draft.slotInstruction ++ (entryCode ++ (bodyCode ++ tail)) := by
    rw [implementation.code_eq, Draft.instructions, tailAdded, bodyAdded, entryAdded]
    simp
  have start : Frame.start function args =
      (Frame.start function args).withCode ((implementation.draft.finished header).slots.map
        Draft.slotInstruction ++ (entryCode ++ (bodyCode ++ tail))) := by
    rw [← split]
    rfl
  rw [start, reached, entering]
  rw [List.append_nil] at simulates
  exact runs entered _ simulates tail returns

end Implementation

namespace Program

variable {program : Program} {module : Module} {room : Nat} {name : String} {args : List Value}
  {header : Signature} {body : List Node}

theorem callWithin_of_none (undefined : program.definition? name = none) :
    program.callWithin room name args =
      if ∃ node ∈ program, node.Introduces name then .error (.run (.noBody name))
      else .error (.run (.unknownFunction name)) := by
  unfold callWithin
  rw [undefined]

theorem callWithin_of_wrongCount (definition : program.definition? name = some (header, body))
    (count : header.params.length ≠ args.length) :
    program.callWithin room name args =
      .error (.run (.argumentCount name header.params.length args.length)) := by
  unfold callWithin
  simp [definition, count]

theorem callWithin_zero (definition : program.definition? name = some (header, body))
    (count : header.params.length = args.length) :
    program.callWithin 0 name args = .error (.run (.stackOverflow name)) := by
  unfold callWithin
  simp [definition, count]

theorem callWithin_succ (definition : program.definition? name = some (header, body))
    (count : header.params.length = args.length) :
    program.callWithin (room + 1) name args =
      Node.run (program.callWithin room)
        ((header.params.map (·.name)).zip (args.map some)).reverse body := by
  rw [callWithin]
  simp [definition, count]

theorem definition_of_callWithin {value : Value}
    (called : program.callWithin room name args = .ok value) :
    ∃ header body call environment, program.definition? name = some (header, body) ∧
      Node.run call environment body = .ok value := by
  cases definition : program.definition? name with
  | none =>
      rw [callWithin_of_none definition] at called
      split at called <;> simp at called
  | some defined =>
      obtain ⟨header, body⟩ := defined
      by_cases count : header.params.length = args.length
      · cases room with
        | zero => simp [callWithin_zero definition count] at called
        | succ room =>
            rw [callWithin_succ definition count] at called
            exact ⟨header, body, _, _, rfl, called⟩
      · simp [callWithin_of_wrongCount definition count] at called

namespace Realised

/-- What a function of a program returns has a first value if it is known to return values. -/
theorem exists_first {profile : Profile} {target : Function} {value : Value}
    (realised : program.Realised module) (found : module.get? name = some target)
    (fits : profile.Fits target) (returns : profile.returns ≠ [])
    (called : program.callWithin room name args = .ok value) :
    ∃ part, value.field 0 = .ok part := by
  obtain ⟨header, body, call, environment, definition, ran⟩ := definition_of_callWithin called
  obtain ⟨other, foundOther, ⟨implementation⟩⟩ := realised.defined name header body definition
  obtain rfl := Option.some.inj (found.symm.trans foundOther)
  obtain ⟨values, rfl, count⟩ := implementation.isBody.of_run ran
  have sameReturns := fits.returns.symm.trans implementation.fits.returns
  cases values with
  | cons first rest => exact ⟨first, rfl⟩
  | nil =>
      have nothing : implementation.known.returns = [] :=
        List.eq_nil_of_length_eq_zero count.symm
      rw [nothing] at sameReturns
      cases known : profile.returns with
      | nil => exact absurd known returns
      | cons type others => simp [known, ValueType.ofReturns] at sameReturns

theorem answered (realised : program.Realised module) {function : Function}
    (implementation : Implementation module function header body)
    (agrees : ∀ name args, Agrees (program.callWithin room name args)
      (module.invoke room name args)) :
    Answered implementation.table (program.callWithin room) (module.invoke room) where
  agrees := agrees
  first name profile args value declared returns called := by
    obtain ⟨target, found, fits⟩ := implementation.knows name profile declared
    exact realised.exists_first found fits returns called

/-- Calls that do not get as far as a body come to the same. -/
theorem agrees_of_bodies (realised : program.Realised module)
    (bodies : ∀ header body function, program.definition? name = some (header, body) →
      module.get? name = some function → Implementation module function header body →
        header.params.length = args.length →
          Agrees (program.callWithin room name args) (module.invoke room name args)) :
    Agrees (program.callWithin room name args) (module.invoke room name args) := by
  cases definition : program.definition? name with
  | none =>
      rw [callWithin_of_none definition]
      cases found : module.get? name with
      | none =>
          have unknown : ¬ ∃ node ∈ program, node.Introduces name := by
            rw [← realised.introduced]
            simp [found]
          rw [if_neg unknown, Module.invoke_unknown room found]
          exact .error (.run _)
      | some function =>
          have known : ∃ node ∈ program, node.Introduces name := by
            rw [← realised.introduced]
            simp [found]
          rw [if_pos known, Module.invoke_declaration room found
            (realised.declared name function definition found)]
          exact .error (.run _)
  | some defined =>
      obtain ⟨header, body⟩ := defined
      obtain ⟨function, found, ⟨implementation⟩⟩ := realised.defined name header body definition
      by_cases count : header.params.length = args.length
      · exact bodies header body function definition found implementation count
      · have sameCount := implementation.paramCount
        rw [callWithin_of_wrongCount definition count, Module.invoke_wrongCount room found
          implementation.isDeclaration_eq (sameCount ▸ count), sameCount]
        exact .error (.run _)

/-- With the same room, calls of a program and of its module come to the same. -/
theorem agrees (realised : program.Realised module) (room : Nat) (name : String)
    (args : List Value) :
    Agrees (program.callWithin room name args) (module.invoke room name args) := by
  induction room generalizing name args with
  | zero =>
      apply realised.agrees_of_bodies
      intro header body function definition found implementation count
      rw [callWithin_zero definition count, Module.invoke_full found
        implementation.isDeclaration_eq (implementation.paramCount ▸ count)]
      exact .error (.run _)
  | succ room ih =>
      apply realised.agrees_of_bodies
      intro header body function definition found implementation count
      rw [callWithin_succ definition count, Module.invoke_succ room found
        implementation.isDeclaration_eq (implementation.paramCount ▸ count)]
      exact implementation.agrees (realised.answered implementation ih) count

end Realised

end Program

namespace Lowering

/--
If all items of a program are lowered, calling any function of the module with
any arguments comes to what calling it in the program comes to.
-/
theorem preserves_meaning {moduleName : String} {program : Program}
    (accepted : ∀ result ∈ (items (.new (.new moduleName)) program).1,
      ∃ index, result = .ok index)
    (entry : String) (args : List Value) :
    Agrees (program.call entry args)
      ((items (.new (.new moduleName)) program).2.builder.module.call entry args) := by
  rw [Module.call_eq_invoke]
  exact (realised_of_accepted accepted).agrees Run.maxFrames entry args

/-- A function that calls one that is defined behind it, and declares a name behind its return. -/
def dividing : Program :=
  [.signature ⟨"split", ["int", "int"], [⟨"int", "a"⟩, ⟨"int", "b"⟩]⟩,
    .function ⟨"main", ["int"], [⟨"int", "n"⟩]⟩
      [.assign (.decl ⟨"half", "int"⟩) (.call "split" [.var ⟨"n", none⟩, .literal 2]),
        .call "split" [.var ⟨"half", none⟩, .var ⟨"n", none⟩],
        .ret [.group (.binary .add (.var ⟨"half", none⟩) (.literal 1))],
        .decl ⟨"unused", "float"⟩],
    .function ⟨"split", ["int", "int"], [⟨"int", "a"⟩, ⟨"int", "b"⟩]⟩
      [.ret [.binary .div (.var ⟨"a", none⟩) (.var ⟨"b", none⟩),
        .binary .mod (.var ⟨"a", none⟩) (.var ⟨"b", none⟩)]]]

theorem preserves_meaning_dividing :
    (∀ result ∈ (items (.new (.new "dividing")) dividing).1, ∃ index, result = .ok index) ∧
      Agrees (dividing.call "main" [.int 0])
        ((items (.new (.new "dividing")) dividing).2.builder.module.call "main" [.int 0]) := by
  have isOk : (items (.new (.new "dividing")) dividing).1.all (·.isOk) = true := by
    decide +kernel
  have accepted : ∀ result ∈ (items (.new (.new "dividing")) dividing).1,
      ∃ index, result = .ok index := by
    intro result member
    have fine := List.all_eq_true.mp isOk result member
    cases result with
    | ok index => exact ⟨index, rfl⟩
    | error failure => cases fine
  exact ⟨accepted, preserves_meaning accepted "main" [.int 0]⟩

end Lowering

end Tuplet
