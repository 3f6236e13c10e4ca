import Tuplet.Ir.Verify
import Tuplet.Proofs.Result

/-!
# What a builder keeps through every operation

A builder may be given anything: references to functions that do not exist, slots and
values of other functions, names that are taken. Whatever it is given, one operation can
do only few things to it. It declares one more function at the end, gives a function one
more block, puts one new instruction somewhere into the function at the insertion point,
or takes an id there and fails. All that is known about builders follows from this. The
functions keep their places, their names and their types, and the instructions of each
keep their order and have ids of their own.
-/

namespace Tuplet.Ir

/-- The error speaks of a function that has no blocks although it should. -/
def BuildError.MissesBlocks : BuildError → Prop
  | .noBlocks _ | .noEntryBlock _ => True
  | _ => False

/-- One instruction more stands somewhere in one of some blocks. -/
def Block.Inserts (instruction : Instruction) (before after : List Block) : Prop :=
  ∃ front block back early late, before = front ++ block :: back ∧ block.code = early ++ late ∧
    after = front ++ { block with code := early ++ instruction :: late } :: back

namespace Block

variable {instruction : Instruction} {before after : List Block}

theorem Inserts.cons (inserts : Inserts instruction before after) (block : Block) :
    Inserts instruction (block :: before) (block :: after) := by
  rcases inserts with ⟨front, changed, back, early, late, rfl, code, rfl⟩
  exact ⟨block :: front, changed, back, early, late, rfl, code, rfl⟩

theorem inserts_appendToLast (nonempty : before ≠ []) :
    Inserts instruction before (appendToLast instruction before) := by
  induction before with
  | nil => exact absurd rfl nonempty
  | cons block rest ih =>
      cases rest with
      | nil => exact ⟨[], block, [], block.code, [], rfl, by simp, rfl⟩
      | cons next rest => exact (ih (List.cons_ne_nil _ _)).cons block

theorem exists_of_insertAfter {id : Nat} {code changed : List Instruction}
    (inserted : insertAfter id instruction code = some changed) :
    ∃ early late, code = early ++ late ∧ changed = early ++ instruction :: late := by
  induction code generalizing changed with
  | nil => cases inserted
  | cons first rest ih =>
      rw [insertAfter] at inserted
      split at inserted
      · cases inserted
        exact ⟨[first], rest, rfl, rfl⟩
      · rcases Option.map_eq_some_iff.mp inserted with ⟨others, insertedBehind, rfl⟩
        rcases ih insertedBehind with ⟨early, late, rfl, rfl⟩
        exact ⟨first :: early, late, rfl, rfl⟩

theorem inserts_insertSlot {after : Option Slot} {entry : Block} {others : List Block}
    {code : List Instruction} (inserted : insertSlot after instruction entry.code = some code) :
    Inserts instruction (entry :: others) ({ entry with code } :: others) := by
  cases after with
  | none =>
      cases inserted
      exact ⟨[], entry, others, [], entry.code, rfl, rfl, rfl⟩
  | some slot =>
      rcases exists_of_insertAfter inserted with ⟨early, late, split, rfl⟩
      exact ⟨[], entry, others, early, late, rfl, split, rfl⟩

theorem Inserts.code (inserts : Inserts instruction before after) :
    ∃ early late, before.flatMap (·.code) = early ++ late ∧
      after.flatMap (·.code) = early ++ instruction :: late := by
  rcases inserts with ⟨front, block, back, early, late, rfl, code, rfl⟩
  refine ⟨front.flatMap (·.code) ++ early, late ++ back.flatMap (·.code), ?_, ?_⟩
  · simp [code]
  · simp

theorem Inserts.ne_nil (inserts : Inserts instruction before after) : after ≠ [] := by
  rcases inserts with ⟨front, block, back, early, late, _, _, rfl⟩
  simp

end Block

namespace Builder

variable {before middle after : Builder}

/-- The builder in which the function at an index has one id less to give. -/
def spendId (builder : Builder) (index : Nat) (function : Function) : Builder :=
  builder.setFunction index { function with nextId := function.nextId + 1 }

@[simp]
theorem setFunction_spendId {index : Nat} {function changed : Function} :
    (before.spendId index function).setFunction index changed =
      before.setFunction index changed := by
  simp [spendId, setFunction]

/-- What one operation can make of a builder. -/
inductive Changes (before : Builder) : Builder → Prop
  | nothing : Changes before before
  | declares {name : String} {params : List Param} {returns : ValueType}
      (unknown : before.module.index? name = none) :
      Changes before { before with
        module.functions := before.module.functions ++ [⟨name, params, returns, [], 0⟩] }
  | enters {index : Nat} {function : Function} (found : before.function? index = some function) :
      Changes before { before.setFunction index
        { function with blocks := function.blocks ++ [⟨"entry", []⟩] } with cursor := some index }
  | spends {index : Nat} {function : Function} (stands : before.cursor = some index)
      (found : before.function? index = some function) :
      Changes before (before.spendId index function)
  | inserts {index : Nat} {function : Function} {name : String} {action : Action}
      {blocks : List Block} (stands : before.cursor = some index)
      (found : before.function? index = some function)
      (inserts : Block.Inserts ⟨function.nextId, name, action⟩ function.blocks blocks) :
      Changes before (before.setFunction index
        { function with blocks, nextId := function.nextId + 1 })

/-- How an operation can fail: at once, or after it has taken an id. -/
inductive Fails (before : Builder) : BuildError → Builder → Prop
  | atOnce {error : BuildError} (hasBlocks : ¬ error.MissesBlocks) : Fails before error before
  | spending {error : BuildError} {index : Nat} {function : Function}
      (stands : before.cursor = some index) (found : before.function? index = some function)
      (hasBlocks : function.blocks ≠ [] → ¬ error.MissesBlocks) :
      Fails before error (before.spendId index function)

end Builder

namespace Build

open Builder

variable {α β : Type} {before : Builder}

/-- What comes of a step is a change, or one of the failures there can be. -/
def Orderly (before : Builder) : EStateM.Result BuildError Builder α → Prop
  | .ok _ after => before.Changes after
  | .error error after => before.Fails error after

theorem Orderly.map {step : Build α} (orderly : Orderly before (step before)) (give : α → β) :
    Orderly before ((step >>= fun value => pure (give value)) before) := by
  cases stepped : step before with
  | ok value after =>
      rw [Result.bind_of_ok stepped]
      rwa [stepped] at orderly
  | error error after =>
      rw [Result.bind_of_error stepped]
      rwa [stepped] at orderly

theorem makeInstruction_cases (before : Builder) (name : String) (action : Action) :
    makeInstruction name action before = .error .noInsertionPoint before ∨
      ∃ index function, before.cursor = some index ∧ before.function? index = some function ∧
        makeInstruction name action before = .ok
          (index, { function with nextId := function.nextId + 1 }, ⟨function.nextId, name, action⟩)
          (before.spendId index function) := by
  cases stands : before.cursor with
  | none =>
      have nowhere : current before = .error .noInsertionPoint before := by simp [current, stands]
      exact .inl (Result.bind_of_error nowhere)
  | some index =>
      cases found : before.function? index with
      | none =>
          have nowhere : current before = .error .noInsertionPoint before := by
            simp [current, stands, found]
          exact .inl (Result.bind_of_error nowhere)
      | some function =>
          have here : current before = .ok (index, function) before := by
            simp [current, stands, found]
          exact .inr ⟨index, function, rfl, found, Result.bind_of_ok here⟩

theorem orderly_emit (before : Builder) (name : String) (action : Action) :
    Orderly before (emit name action before) := by
  rcases makeInstruction_cases before name action with
    nowhere | ⟨index, function, stands, found, made⟩
  · rw [emit, Result.bind_of_error nowhere]
    exact .atOnce (by simp [BuildError.MissesBlocks])
  · rw [emit, Result.bind_of_ok made]
    by_cases empty : function.blocks = []
    · simp only [empty, List.isEmpty_nil, if_true]
      exact .spending stands found (absurd empty)
    · simp only [List.isEmpty_iff, empty, if_false, Result.modify_bind, setFunction_spendId]
      exact .inserts stands found (Block.inserts_appendToLast empty)

theorem orderly_allocaAfter (before : Builder) (slot : Option Slot) (type : ValueType)
    (name : String) : Orderly before (allocaAfter slot type name before) := by
  rcases makeInstruction_cases before name (.alloca type) with
    nowhere | ⟨index, function, stands, found, made⟩
  · rw [allocaAfter, Result.bind_of_error nowhere]
    exact .atOnce (by simp [BuildError.MissesBlocks])
  · rw [allocaAfter, Result.bind_of_ok made]
    cases blocks : function.blocks with
    | nil => exact .spending stands found (absurd blocks)
    | cons entry others =>
        cases inserted : Block.insertSlot slot ⟨function.nextId, name, .alloca type⟩ entry.code with
        | none =>
            simp only [inserted]
            exact .spending stands found (by simp [BuildError.MissesBlocks])
        | some code =>
            simp only [inserted, Result.modify_bind, setFunction_spendId]
            apply Changes.inserts stands found
            rw [blocks]
            exact Block.inserts_insertSlot inserted

theorem function_cases (before : Builder) (index : Nat) :
    (∃ function, before.function? index = some function ∧
        Build.function index before = .ok function before) ∨
      Build.function index before = .error (.danglingFunction index) before := by
  cases found : before.function? index with
  | none => exact .inr (by simp [Build.function, found])
  | some function => exact .inl ⟨function, rfl, by simp [Build.function, found]⟩

theorem orderly_declare (before : Builder) (name : String) (params : List Param)
    (returns : List ValueType) : Orderly before (declare name params returns before) := by
  cases known : before.module.index? name with
  | none =>
      simp only [declare, Result.get_bind, known, Option.isSome_none, Bool.false_eq_true, if_false]
      exact .declares known
  | some index =>
      simp only [declare, Result.get_bind, known, Option.isSome_some, if_true]
      exact .atOnce (by simp [BuildError.MissesBlocks])

theorem orderly_param (before : Builder) (index position : Nat) :
    Orderly before (param index position before) := by
  rcases function_cases before index with ⟨function, _, found⟩ | dangling
  · rw [param, Result.bind_of_ok found]
    split
    · exact .nothing
    · exact .atOnce (by simp [BuildError.MissesBlocks])
  · rw [param, Result.bind_of_error dangling]
    exact .atOnce (by simp [BuildError.MissesBlocks])

theorem orderly_appendEntryBlock (before : Builder) (index : Nat) :
    Orderly before (appendEntryBlock index before) := by
  rcases function_cases before index with ⟨function, found, here⟩ | dangling
  · rw [appendEntryBlock, Result.bind_of_ok here]
    exact .enters found
  · rw [appendEntryBlock, Result.bind_of_error dangling]
    exact .atOnce (by simp [BuildError.MissesBlocks])

theorem orderly_call (before : Builder) (index : Nat) (args : List Operand) (name : String) :
    Orderly before (call index args name before) := by
  rcases function_cases before index with ⟨function, _, found⟩ | dangling
  · rw [call, Result.bind_of_ok found]
    exact (orderly_emit before name _).map _
  · rw [call, Result.bind_of_error dangling]
    exact .atOnce (by simp [BuildError.MissesBlocks])

end Build

/-- An operation of a builder, and what it is given. -/
inductive Operation where
  /-- A question that is always answered: for a constant or a function, about the parameters or
  the body of a function or the end of the current block, or for a listing. -/
  | look
  | basicType (type : Primitive)
  | verify (index : Nat)
  | declare (name : String) (params : List Param) (returns : List ValueType)
  | param (index position : Nat)
  | appendEntryBlock (index : Nat)
  | allocaAfter (after : Option Slot) (type : ValueType) (name : String)
  | load (slot : Slot) (name : String)
  | store (slot : Slot) (value : Operand)
  | arith (op : Arithmetic) (left right : Operand) (name : String)
  | call (index : Nat) (args : List Operand) (name : String)
  | extract (aggregate : Operand) (index : Nat) (name : String)
  | ret (values : List Operand)

namespace Operation

/-- What came of a step without the value it gave: an error if it failed, and the builder. -/
def outcome {α : Type} (step : Build α) (builder : Builder) :
    Option (BuildError ⊕ VerifyError) × Builder :=
  match step builder with
  | .ok _ after => (none, after)
  | .error error after => (some (.inl error), after)

/-- What came of a question without the answer: an error if there was none, and the builder. -/
def asked {α : Type} (answer : Except (BuildError ⊕ VerifyError) α) (builder : Builder) :
    Option (BuildError ⊕ VerifyError) × Builder :=
  match answer with
  | .ok _ => (none, builder)
  | .error error => (some error, builder)

def run : Operation → Builder → Option (BuildError ⊕ VerifyError) × Builder
  | look, builder => (none, builder)
  | basicType type, builder => asked ((ValueType.ofPrimitive type).mapError .inl) builder
  | verify index, builder => asked (builder.verify index) builder
  | declare name params returns, builder => outcome (Build.declare name params returns) builder
  | param index position, builder => outcome (Build.param index position) builder
  | appendEntryBlock index, builder => outcome (Build.appendEntryBlock index) builder
  | allocaAfter after type name, builder => outcome (Build.allocaAfter after type name) builder
  | load slot name, builder => outcome (Build.load slot name) builder
  | store slot value, builder => outcome (Build.store slot value) builder
  | arith op left right name, builder => outcome (Build.arith op left right name) builder
  | call index args name, builder => outcome (Build.call index args name) builder
  | extract aggregate index name, builder => outcome (Build.extract aggregate index name) builder
  | ret values, builder => outcome (Build.ret values) builder

/-- What comes of an operation is a change, or one of the failures there can be. -/
inductive Comes (before : Builder) : Option (BuildError ⊕ VerifyError) × Builder → Prop
  | changed {after : Builder} (changes : before.Changes after) : Comes before (none, after)
  | failed {error : BuildError} {after : Builder} (fails : before.Fails error after) :
      Comes before (some (.inl error), after)
  | unverified {error : VerifyError} : Comes before (some (.inr error), before)

theorem comes_outcome {α : Type} {step : Build α} {before : Builder}
    (orderly : Build.Orderly before (step before)) : Comes before (outcome step before) := by
  rw [outcome]
  cases stepped : step before with
  | ok value after =>
      rw [stepped] at orderly
      exact .changed orderly
  | error error after =>
      rw [stepped] at orderly
      exact .failed orderly

theorem comes_run (operation : Operation) (before : Builder) :
    Comes before (operation.run before) := by
  cases operation with
  | look => exact .changed .nothing
  | basicType type =>
      cases type with
      | int => exact .changed .nothing
      | float => exact .changed .nothing
      | string => exact .failed (.atOnce (by simp [BuildError.MissesBlocks]))
      | void => exact .failed (.atOnce (by simp [BuildError.MissesBlocks]))
  | verify index =>
      rw [run, Builder.verify]
      split
      · exact .failed (.atOnce (by simp [BuildError.MissesBlocks]))
      · rename_i function _
        cases before.module.verify function with
        | ok value => exact .changed .nothing
        | error error => exact .unverified
  | declare name params returns => exact comes_outcome (Build.orderly_declare ..)
  | param index position => exact comes_outcome (Build.orderly_param ..)
  | appendEntryBlock index => exact comes_outcome (Build.orderly_appendEntryBlock ..)
  | allocaAfter after type name => exact comes_outcome (Build.orderly_allocaAfter ..)
  | load slot name => exact comes_outcome ((Build.orderly_emit ..).map _)
  | store slot value => exact comes_outcome ((Build.orderly_emit ..).map _)
  | arith op left right name => exact comes_outcome ((Build.orderly_emit ..).map _)
  | call index args name => exact comes_outcome (Build.orderly_call ..)
  | extract aggregate index name => exact comes_outcome ((Build.orderly_emit ..).map _)
  | ret values => exact comes_outcome ((Build.orderly_emit ..).map _)

theorem changes_run (operation : Operation) (before : Builder) :
    before.Changes (operation.run before).2 := by
  cases comes : operation.run before with
  | mk error after =>
      have cases := comes_run operation before
      rw [comes] at cases
      cases cases with
      | changed changes => exact changes
      | failed fails =>
          cases fails with
          | atOnce hasBlocks => exact .nothing
          | spending stands found _ => exact .spends stands found
      | unverified => exact .nothing

end Operation

/-- The instructions of a function have ids of their own, which have all been given out. -/
structure Function.Numbered (function : Function) : Prop where
  distinct : (function.code.map (·.id)).Nodup
  taken : ∀ instruction ∈ function.code, instruction.id < function.nextId

/-- A function is what has become of another one by later operations. -/
structure Function.Continues (later earlier : Function) : Prop where
  name : later.name = earlier.name
  params : later.params = earlier.params
  returns : later.returns = earlier.returns
  code : earlier.code.Sublist later.code

namespace Function

variable {function : Function} {name : String} {action : Action} {blocks : List Block}

theorem Continues.refl : function.Continues function := ⟨rfl, rfl, rfl, List.Sublist.refl _⟩

theorem Continues.trans {middle later : Function} (second : later.Continues middle)
    (first : middle.Continues function) : later.Continues function :=
  ⟨second.name.trans first.name, second.params.trans first.params,
    second.returns.trans first.returns, first.code.trans second.code⟩

@[simp]
theorem code_enter :
    code { function with blocks := function.blocks ++ [⟨"entry", []⟩] } = function.code := by
  simp [code]

@[simp]
theorem code_spend : code { function with nextId := function.nextId + 1 } = function.code := rfl

theorem Numbered.insert (numbered : function.Numbered)
    (inserts : Block.Inserts ⟨function.nextId, name, action⟩ function.blocks blocks) :
    Numbered { function with blocks, nextId := function.nextId + 1 } := by
  rcases inserts.code with ⟨early, late, codeBefore, codeAfter⟩
  have distinct := numbered.distinct
  have taken := numbered.taken
  rw [code, codeBefore] at distinct taken
  constructor
  · rw [code, codeAfter, List.map_append, List.map_cons, List.perm_middle.nodup_iff,
      ← List.map_append, List.nodup_cons]
    refine ⟨?_, distinct⟩
    intro stands
    rcases List.mem_map.mp stands with ⟨instruction, present, sameId⟩
    have older := taken instruction present
    simp only at sameId
    omega
  · intro instruction stands
    rw [code, codeAfter, List.perm_middle.mem_iff, List.mem_cons] at stands
    rcases stands with rfl | present
    · exact Nat.lt_succ_self _
    · exact Nat.lt_succ_of_lt (taken instruction present)

theorem Numbered.spend (numbered : function.Numbered) :
    Numbered { function with nextId := function.nextId + 1 } := by
  refine ⟨numbered.distinct, ?_⟩
  intro instruction stands
  exact Nat.lt_succ_of_lt (numbered.taken instruction stands)

theorem Numbered.enter (numbered : function.Numbered) :
    Numbered { function with blocks := function.blocks ++ [⟨"entry", []⟩] } := by
  constructor
  · rw [code_enter]
    exact numbered.distinct
  · rw [code_enter]
    exact numbered.taken

theorem continues_insert
    (inserts : Block.Inserts ⟨function.nextId, name, action⟩ function.blocks blocks) :
    Continues { function with blocks, nextId := function.nextId + 1 } function := by
  refine ⟨rfl, rfl, rfl, ?_⟩
  rcases inserts.code with ⟨early, late, codeBefore, codeAfter⟩
  rw [code, codeBefore, code, codeAfter]
  exact (List.Sublist.refl early).append (List.sublist_cons_self _ _)

end Function

namespace Builder

variable {before middle after : Builder} {index : Nat} {function changed : Function}

/-- What holds of every builder, however it was used. -/
structure Sound (builder : Builder) : Prop where
  names : (builder.module.functions.map (·.name)).Nodup
  numbered : ∀ function ∈ builder.module.functions, function.Numbered
  entered : ∀ index, builder.cursor = some index →
    ∃ function, builder.function? index = some function ∧ function.blocks ≠ []

theorem sound_new (name : String) : (new name).Sound := by
  refine ⟨List.nodup_nil, ?_, ?_⟩
  · intro function stands
    cases stands
  · intro index stands
    cases stands

theorem function?_setFunction_self (found : before.function? index = some function) :
    (before.setFunction index changed).function? index = some changed := by
  rw [function?, setFunction, List.getElem?_set_self]
  exact (List.getElem?_eq_some_iff.mp found).1

theorem function?_setFunction_of_ne {other : Nat} (differ : index ≠ other) :
    (before.setFunction index changed).function? other = before.function? other :=
  List.getElem?_set_ne differ

theorem Sound.setFunction (sound : before.Sound) (found : before.function? index = some function)
    (numbered : changed.Numbered) (sameName : changed.name = function.name)
    (hasBlocks : function.blocks ≠ [] → changed.blocks ≠ []) :
    (before.setFunction index changed).Sound := by
  constructor
  · have sameNames : (before.setFunction index changed).module.functions.map (·.name) =
        before.module.functions.map (·.name) := by
      rcases List.getElem?_eq_some_iff.mp found with ⟨within, rfl⟩
      rw [Builder.setFunction, List.map_set, sameName,
        ← List.getElem_map fun function : Function => function.name]
      exact List.set_getElem_self (by simpa using within)
    rw [sameNames]
    exact sound.names
  · intro other stands
    rcases List.mem_or_eq_of_mem_set stands with present | rfl
    · exact sound.numbered other present
    · exact numbered
  · intro cursor stands
    rcases sound.entered cursor stands with ⟨entered, present, blocks⟩
    by_cases same : index = cursor
    · subst same
      obtain rfl : function = entered := Option.some.inj (found.symm.trans present)
      exact ⟨changed, function?_setFunction_self found, hasBlocks blocks⟩
    · exact ⟨entered, (function?_setFunction_of_ne same).trans present, blocks⟩

theorem Sound.declare (sound : before.Sound) {name : String} {params : List Param}
    {returns : ValueType} (unknown : before.module.index? name = none) :
    Sound { before with
      module.functions := before.module.functions ++ [⟨name, params, returns, [], 0⟩] } := by
  constructor
  · rw [List.map_append, List.nodup_append]
    refine ⟨sound.names, by simp, ?_⟩
    intro other present _ isNew
    rcases List.mem_map.mp present with ⟨function, stands, rfl⟩
    rw [List.map_singleton, List.mem_singleton] at isNew
    subst isNew
    have differs := List.findIdx?_eq_none_iff.mp unknown function stands
    simpa using differs
  · intro function stands
    rcases List.mem_append.mp stands with present | isNew
    · exact sound.numbered function present
    · rw [List.mem_singleton.mp isNew]
      exact ⟨List.nodup_nil, fun _ impossible => absurd impossible List.not_mem_nil⟩
  · intro cursor stands
    rcases sound.entered cursor stands with ⟨function, present, blocks⟩
    refine ⟨function, ?_, blocks⟩
    rw [function?, List.getElem?_append_left (List.getElem?_eq_some_iff.mp present).1]
    exact present

theorem Sound.change (sound : before.Sound) (changes : before.Changes after) : after.Sound := by
  cases changes with
  | nothing => exact sound
  | declares unknown => exact sound.declare unknown
  | @enters index function found =>
      have present := List.mem_of_getElem? found
      have set := sound.setFunction found (sound.numbered function present).enter rfl (by simp)
      refine ⟨set.names, set.numbered, ?_⟩
      intro cursor stands
      obtain rfl : index = cursor := Option.some.inj stands
      exact ⟨_, function?_setFunction_self found, by simp⟩
  | @spends index function stands found =>
      have present := List.mem_of_getElem? found
      exact sound.setFunction found (sound.numbered function present).spend rfl id
  | @inserts index function name action blocks stands found inserts =>
      have present := List.mem_of_getElem? found
      exact sound.setFunction found ((sound.numbered function present).insert inserts) rfl
        fun _ => inserts.ne_nil

/-- Every function of a builder is still there in a later one, at the same index. -/
def Continues (later earlier : Builder) : Prop :=
  ∀ index function, earlier.function? index = some function →
    ∃ now, later.function? index = some now ∧ now.Continues function

theorem Continues.refl : before.Continues before :=
  fun _ function found => ⟨function, found, .refl⟩

theorem Continues.trans (second : after.Continues middle) (first : middle.Continues before) :
    after.Continues before := by
  intro index function found
  rcases first index function found with ⟨between, foundBetween, continues⟩
  rcases second index between foundBetween with ⟨now, foundNow, continuesNow⟩
  exact ⟨now, foundNow, continuesNow.trans continues⟩

theorem continues_setFunction (found : before.function? index = some function)
    (continues : changed.Continues function) :
    (before.setFunction index changed).Continues before := by
  intro other old foundOther
  by_cases same : index = other
  · subst same
    obtain rfl : function = old := Option.some.inj (found.symm.trans foundOther)
    exact ⟨changed, function?_setFunction_self found, continues⟩
  · exact ⟨old, (function?_setFunction_of_ne same).trans foundOther, .refl⟩

theorem Changes.continues (changes : before.Changes after) : after.Continues before := by
  cases changes with
  | nothing => exact .refl
  | declares unknown =>
      intro index function found
      refine ⟨function, ?_, .refl⟩
      rw [function?, List.getElem?_append_left (List.getElem?_eq_some_iff.mp found).1]
      exact found
  | enters found => exact continues_setFunction found ⟨rfl, rfl, rfl, by simp⟩
  | spends stands found => exact continues_setFunction found ⟨rfl, rfl, rfl, by simp⟩
  | inserts stands found inserts =>
      exact continues_setFunction found (Function.continues_insert inserts)

/-- The builder behind some operations, whether or not they succeed. -/
def afterAll (builder : Builder) (operations : List Operation) : Builder :=
  operations.foldl (fun builder operation => (operation.run builder).2) builder

theorem sound_afterAll (sound : before.Sound) (operations : List Operation) :
    (before.afterAll operations).Sound := by
  induction operations generalizing before with
  | nil => exact sound
  | cons operation operations ih => exact ih (sound.change (operation.changes_run before))

theorem continues_afterAll (before : Builder) (operations : List Operation) :
    (before.afterAll operations).Continues before := by
  induction operations generalizing before with
  | nil => exact .refl
  | cons operation operations ih =>
      exact (ih _).trans (operation.changes_run before).continues

/-- A function is found by its name where it was found before. -/
theorem Continues.index? (continues : after.Continues before) {name : String}
    (found : before.module.index? name = some index) :
    after.module.index? name = some index := by
  rw [Module.index?, List.findIdx?_eq_some_iff_getElem] at found ⊢
  rcases found with ⟨within, isNamed, isFirst⟩
  have sameName : ∀ other (present : other < before.module.functions.length),
      ∃ stays : other < after.module.functions.length,
        after.module.functions[other].name = before.module.functions[other].name := by
    intro other present
    rcases continues other _ (List.getElem?_eq_getElem present) with ⟨now, found, continues⟩
    rcases List.getElem?_eq_some_iff.mp found with ⟨stays, rfl⟩
    exact ⟨stays, continues.name⟩
  rcases sameName index within with ⟨stays, same⟩
  refine ⟨stays, by rwa [same], ?_⟩
  intro other earlier
  rcases sameName other (by omega) with ⟨_, same⟩
  rw [same]
  exact isFirst other earlier

/-- A failure that is possible in a builder that was used in some way. -/
theorem Sound.of_fails (sound : before.Sound) {error : BuildError}
    (fails : before.Fails error after) :
    ¬ error.MissesBlocks ∧ (after = before ∨ ∃ index function, before.cursor = some index ∧
      before.function? index = some function ∧ after = before.spendId index function) := by
  cases fails with
  | atOnce hasBlocks => exact ⟨hasBlocks, .inl rfl⟩
  | @spending index function stands found hasBlocks =>
      rcases sound.entered index stands with ⟨entered, foundEntered, blocks⟩
      obtain rfl : function = entered := Option.some.inj (found.symm.trans foundEntered)
      exact ⟨hasBlocks blocks, .inr ⟨index, function, stands, found, rfl⟩⟩

/--
However a new builder is used, and whatever fails on the way, the names of its functions
and the ids within each function are distinct, and the insertion point is in a function
with a block. From then on every function stays where it is, is found there by its name,
and keeps its parameters, its results and the order of its instructions. An operation
that fails does not miss a block, and takes an id of the current function at most.
-/
theorem sound_however_used (moduleName : String) (earlier later : List Operation)
    (operation : Operation) :
    let builder := (new moduleName).afterAll earlier
    builder.Sound ∧ (builder.afterAll later).Continues builder ∧
      (∀ name index, builder.module.index? name = some index →
        (builder.afterAll later).module.index? name = some index) ∧
      ∀ error left, operation.run builder = (some error, left) →
        (∀ function, error ≠ .inl (.noBlocks function) ∧ error ≠ .inl (.noEntryBlock function)) ∧
          (left = builder ∨ ∃ index function, builder.cursor = some index ∧
            builder.function? index = some function ∧ left = builder.spendId index function) := by
  intro builder
  have sound : builder.Sound := sound_afterAll (sound_new moduleName) earlier
  have continues := continues_afterAll builder later
  refine ⟨sound, continues, fun _ _ => continues.index?, ?_⟩
  intro error left failed
  have comes := operation.comes_run builder
  rw [failed] at comes
  cases comes with
  | failed fails =>
      rcases sound.of_fails fails with ⟨hasBlocks, atMost⟩
      refine ⟨?_, atMost⟩
      intro function
      constructor
      · rintro ⟨rfl⟩
        exact hasBlocks trivial
      · rintro ⟨rfl⟩
        exact hasBlocks trivial
  | unverified => exact ⟨fun _ => ⟨by simp, by simp⟩, .inl rfl⟩

end Builder

end Tuplet.Ir
