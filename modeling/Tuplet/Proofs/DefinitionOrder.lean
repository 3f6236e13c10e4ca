import Tuplet.Proofs.Isolation

/-!
# The order of definitions

Once all functions have been declared, it does not matter in which order they are defined.
A definition changes nothing but its own function, and what it makes of that depends on the
declarations alone. So what any definitions have led to can be said for each function by
itself: a function that is defined is what its definition would have made of it at once,
and another function is as it was declared.
-/

namespace Tuplet

open Ir (Builder Function Module)

/-- A header and the body that goes with it. -/
abbrev Definition := Signature × List Node

/-- A definition as an item. -/
def Definition.item (definition : Definition) : Node := .function definition.1 definition.2

namespace Lowering

variable {table another : FunctionTable} {base state : LoweringState} {definition : Definition}
  {index : Nat}

/-- Where the function of a name stands is told by any function of that name. -/
theorem index?_eq_of_named (describes : table.Describes state) {function : Function}
    (present : state.builder.function? index = some function) :
    state.builder.module.index? function.name = some index := by
  rcases List.getElem?_eq_some_iff.mp present with ⟨bounded, rfl⟩
  apply List.findIdx?_eq_some_iff_getElem.mpr
  refine ⟨bounded, by simp, ?_⟩
  intro earlier before sameName
  have sameName : (state.builder.module.functions.map (·.name))[earlier]? =
      (state.builder.module.functions.map (·.name))[index]? := by
    simpa [bounded, Nat.lt_trans before bounded] using sameName
  have inMap : earlier < (state.builder.module.functions.map (·.name)).length := by
    simpa using Nat.lt_trans before bounded
  have same := (List.getElem?_inj inMap describes.distinct_functions).mp sameName
  omega

theorem name_eq_of_index? {module : Module} {name other : String}
    (found : module.index? name = some index) (foundToo : module.index? other = some index) :
    name = other := by
  rcases List.findIdx?_eq_some_iff_getElem.mp found with ⟨_, named, _⟩
  rcases List.findIdx?_eq_some_iff_getElem.mp foundToo with ⟨_, namedToo, _⟩
  exact (beq_iff_eq.mp named).symm.trans (beq_iff_eq.mp namedToo)

/-- A definition of a function that has been declared changes nothing but its body. -/
theorem functions_left_definition (describes : table.Describes state)
    (declared : state.builder.module.index? definition.1.name = some index) :
    ∃ built, state.builder.module.functions[index]?.map Function.bare = some built.bare ∧
      (left (item definition.item state)).builder.module.functions =
        state.builder.module.functions.set index built := by
  have unchanged : ∃ built,
      state.builder.module.functions[index]?.map Function.bare = some built.bare ∧
        state.builder.module.functions = state.builder.module.functions.set index built := by
    have bounded := (List.findIdx?_eq_some_iff_getElem.mp declared).1
    refine ⟨state.builder.module.functions[index], ?_, ?_⟩
    · simp [bounded]
    · simp
  have changed : ∀ {place : Nat} {built : Function} {after : LoweringState},
      GivesBody state definition.1 place built after → ∃ built,
        state.builder.module.functions[index]?.map Function.bare = some built.bare ∧
          after.builder.module.functions = state.builder.module.functions.set index built := by
    intro place built after gives
    cases gives with
    | declared found named noBody name params returns functions =>
        have here := index?_eq_of_named describes found
        rw [named] at here
        cases declared.symm.trans here
        have present : state.builder.module.functions[index]? = some _ := found
        refine ⟨built, ?_, functions⟩
        rw [present, Option.map_some, Function.bare_eq_bare_iff.mpr ⟨name, params, returns⟩]
    | added unknown named last functions => cases declared.symm.trans unknown
  have effect := effect_item describes definition.item
  generalize item definition.item state = result at *
  cases effect with
  | fails => exact unchanged
  | completes gives hasBody verified => exact changed gives
  | leavesUnfinished opened gives =>
      obtain ⟨built, bare, functions⟩ := changed gives
      exact ⟨built, bare, functions⟩

theorem resembles_left_definition (describes : table.Describes state)
    (declared : state.builder.module.index? definition.1.name = some index) :
    (left (item definition.item state)).builder.module.Resembles state.builder.module := by
  rcases functions_left_definition describes declared with ⟨built, bare, functions⟩
  rw [← List.getElem?_map] at bare
  rcases List.getElem?_eq_some_iff.mp bare with ⟨bounded, same⟩
  rw [Module.Resembles, functions, List.map_set, ← same]
  exact List.set_getElem_self bounded

theorem function?_left_definition_of_ne (describes : table.Describes state)
    (declared : state.builder.module.index? definition.1.name = some index) {place : Nat}
    (elsewhere : index ≠ place) :
    (left (item definition.item state)).builder.function? place =
      state.builder.function? place := by
  rcases functions_left_definition describes declared with ⟨built, bare, functions⟩
  rw [Builder.function?, Builder.function?, functions]
  exact List.getElem?_set_ne elsewhere

/--
A state is what some definitions have made of another one in which all functions were
declared. The functions of the definitions that are still to come are as they were.
-/
structure Reached (base : LoweringState) (pending : List Definition) (state : LoweringState) :
    Prop where
  described : ∃ table : FunctionTable, table.Describes state
  resembles : state.builder.module.Resembles base.builder.module
  untouched : ∀ definition ∈ pending, ∀ index,
    base.builder.module.index? definition.1.name = some index →
      state.builder.function? index = base.builder.function? index

/-- Each of some definitions is of a function that has been declared, no two of the same one. -/
structure Defines (base : LoweringState) (definitions : List Definition) : Prop where
  declared : ∀ definition ∈ definitions, ∃ index,
    base.builder.module.index? definition.1.name = some index
  distinct : (definitions.map (·.1.name)).Nodup

theorem Reached.alike (describes : table.Describes base) {pending : List Definition}
    (reached : Reached base (definition :: pending) state) :
    GoesAlike base state (item definition.item base) (item definition.item state) := by
  rcases reached with ⟨⟨another, describesToo⟩, resembles, untouched⟩
  apply item_alike describes describesToo resembles.symm
  rintro name rfl index found
  have same := untouched definition (by simp) index found
  simp [Builder.hasBody, same]

/-- A definition makes of its function what it would have made of it at once. -/
theorem Reached.function?_left (describes : table.Describes base) {pending : List Definition}
    (reached : Reached base (definition :: pending) state)
    (declared : base.builder.module.index? definition.1.name = some index) :
    (left (item definition.item state)).builder.function? index =
      (left (item definition.item base)).builder.function? index := by
  rcases (reached.alike describes).edited index with ⟨baseKept, stateKept⟩ | same
  · have untouched := reached.untouched definition (by simp) index declared
    exact stateKept.trans (untouched.trans baseKept.symm)
  · exact same.symm

theorem Reached.step {pending : List Definition}
    (defines : Defines base (definition :: pending))
    (reached : Reached base (definition :: pending) state) :
    Reached base pending (left (item definition.item state)) := by
  rcases reached with ⟨⟨another, describesToo⟩, resembles, untouched⟩
  rcases defines.declared definition (by simp) with ⟨index, declared⟩
  have declaredToo := (resembles.index? definition.1.name).trans declared
  refine ⟨⟨_, describes_left describesToo definition.item⟩, ?_, ?_⟩
  · exact (resembles_left_definition describesToo declaredToo).trans resembles
  · intro later isPending place found
    have elsewhere : index ≠ place := by
      rintro rfl
      have sameName := name_eq_of_index? declared found
      have distinct := defines.distinct
      rw [List.map_cons, List.nodup_cons] at distinct
      exact distinct.1 (List.mem_map.mpr ⟨later, isPending, sameName.symm⟩)
    rw [function?_left_definition_of_ne describesToo declaredToo elsewhere]
    exact untouched later (List.mem_cons_of_mem _ isPending) place found

theorem Defines.tail {pending : List Definition} (defines : Defines base (definition :: pending)) :
    Defines base pending where
  declared later isPending := defines.declared later (List.mem_cons_of_mem _ isPending)
  distinct := (List.nodup_cons.mp defines.distinct).2

theorem Defines.perm {definitions reordered : List Definition}
    (defines : Defines base definitions) (permuted : definitions.Perm reordered) :
    Defines base reordered where
  declared definition isReordered :=
    defines.declared definition (permuted.mem_iff.mpr isReordered)
  distinct := (permuted.map _).nodup_iff.mp defines.distinct

/-- What came of definitions, and what they tell, is what it would have been at once. -/
theorem Reached.results {pending : List Definition} (describes : table.Describes base)
    (defines : Defines base pending) (reached : Reached base pending state) :
    (items state (pending.map Definition.item)).1 =
      pending.map fun definition => outcome (item definition.item base) := by
  induction pending generalizing state with
  | nil => rfl
  | cons definition pending ih =>
      rw [List.map_cons, List.map_cons, results_cons, (reached.alike describes).outcome_eq,
        ih defines.tail (reached.step defines)]

theorem Reached.tellings {pending : List Definition} (describes : table.Describes base)
    (defines : Defines base pending) (reached : Reached base pending state) :
    tellings state (pending.map Definition.item) =
      pending.map fun definition => told base definition.item := by
  induction pending generalizing state with
  | nil => rfl
  | cons definition pending ih =>
      rw [List.map_cons, List.map_cons, Lowering.tellings, (reached.alike describes).told_eq,
        ih defines.tail (reached.step defines)]

/-- A function that is not defined stays as it is. -/
theorem Reached.function?_of_not_defined {pending : List Definition}
    (defines : Defines base pending)
    (reached : Reached base pending state)
    (notDefined : ∀ definition ∈ pending,
      base.builder.module.index? definition.1.name ≠ some index) :
    (items state (pending.map Definition.item)).2.builder.function? index =
      state.builder.function? index := by
  induction pending generalizing state with
  | nil => rfl
  | cons definition pending ih =>
      rcases defines.declared definition (by simp) with ⟨place, declared⟩
      have elsewhere : place ≠ index := by
        rintro rfl
        exact notDefined definition (by simp) declared
      rcases reached.described with ⟨another, describesToo⟩
      have declaredToo := (reached.resembles.index? definition.1.name).trans declared
      rw [List.map_cons, items_cons, ih defines.tail (reached.step defines)]
      · exact function?_left_definition_of_ne describesToo declaredToo elsewhere
      · intro later isPending
        exact notDefined later (List.mem_cons_of_mem _ isPending)

/-- A function that is defined is what its definition would have made of it at once. -/
theorem Reached.function?_of_defined {pending : List Definition} (describes : table.Describes base)
    (defines : Defines base pending) (reached : Reached base pending state)
    (isPending : definition ∈ pending)
    (declared : base.builder.module.index? definition.1.name = some index) :
    (items state (pending.map Definition.item)).2.builder.function? index =
      (left (item definition.item base)).builder.function? index := by
  induction pending generalizing state with
  | nil => cases isPending
  | cons head pending ih =>
      have next := reached.step defines
      rw [List.map_cons, items_cons]
      rcases List.mem_cons.mp isPending with rfl | isPending
      · rw [next.function?_of_not_defined defines.tail]
        · exact reached.function?_left describes declared
        · intro later laterPending found
          apply (List.nodup_cons.mp defines.distinct).1
          exact List.mem_map.mpr ⟨later, laterPending, name_eq_of_index? found declared⟩
      · exact ih defines.tail next isPending

theorem reached_self (describes : table.Describes base) (pending : List Definition) :
    Reached base pending base :=
  ⟨⟨table, describes⟩, rfl, fun _ _ _ _ => rfl⟩

/-- The functions that definitions have led to are the same in any order. -/
theorem functions_perm {definitions reordered : List Definition} (describes : table.Describes base)
    (defines : Defines base definitions) (permuted : definitions.Perm reordered) :
    (items base (definitions.map Definition.item)).2.builder.module.functions =
      (items base (reordered.map Definition.item)).2.builder.module.functions := by
  have definesToo := defines.perm permuted
  have reached := reached_self describes definitions
  have reachedToo := reached_self describes reordered
  apply List.ext_getElem?
  intro index
  by_cases defined : ∃ definition ∈ definitions,
      base.builder.module.index? definition.1.name = some index
  · rcases defined with ⟨definition, isDefined, declared⟩
    have isReordered := permuted.mem_iff.mp isDefined
    exact (reached.function?_of_defined describes defines isDefined declared).trans
      (reachedToo.function?_of_defined describes definesToo isReordered declared).symm
  · have notDefined : ∀ definition ∈ definitions,
        base.builder.module.index? definition.1.name ≠ some index :=
      fun definition isDefined found => defined ⟨definition, isDefined, found⟩
    have notReordered : ∀ definition ∈ reordered,
        base.builder.module.index? definition.1.name ≠ some index :=
      fun definition isReordered => notDefined definition (permuted.mem_iff.mpr isReordered)
    exact (reached.function?_of_not_defined defines notDefined).trans
      (reachedToo.function?_of_not_defined definesToo notReordered).symm

/-- Items keep the name of the module. -/
theorem moduleName_left (describes : table.Describes state) (node : Node) :
    (left (item node state)).builder.module.name = state.builder.module.name := by
  cases node with
  | signature header =>
      simp only [item, Result.get_bind]
      cases found : state.builder.module.index? header.name with
      | none =>
          rcases signature_cases found with ⟨_, function, _, declared⟩ | ⟨_, failure, failed⟩
          · simp only [declared]
            rfl
          · simp only [failed]
            rfl
      | some index => rfl
  | function header body =>
      rcases left_inside (.function header.name) (function header body) state with ⟨log, same⟩
      rw [item, same]
      rcases function_cases describes header body with
        ⟨_, known, index, function, declared, origin, ready, lowered⟩ | ⟨_, failure, failed⟩
      · rcases left_completing ready.site header
          (Emission.body (table.declare header).around header.params body .empty) with
          ⟨draft, _, closed⟩
        rw [lowered, closed]
        rcases origin with rfl | ⟨_, rfl⟩
        · rfl
        · rfl
      · rw [failed]
        rfl
  | _ => rfl

theorem moduleName_items (describes : table.Describes state) (nodes : List Node) :
    (items state nodes).2.builder.module.name = state.builder.module.name := by
  induction nodes generalizing table state with
  | nil => rfl
  | cons node rest ih =>
      rw [items_cons, ih (describes_left describes node), moduleName_left describes node]

/--
Some functions are declared, and then each of some definitions gives one of them a body. In
whatever order that is done, the module is the same in the end, and each item has come out
in the same way, with the same to tell a reader if it has failed.
-/
theorem definitions_in_any_order (moduleName : String) (declarations : List Signature)
    (definitions reordered : List Definition)
    (accepted : ∀ result ∈ (items (.new (.new moduleName)) (declarations.map Node.signature)).1,
      ∃ index, result = .ok index)
    (declared : ∀ definition ∈ definitions, ∃ header ∈ declarations,
      header.name = definition.1.name)
    (distinct : (definitions.map (·.1.name)).Nodup) (permuted : definitions.Perm reordered) :
    let start := LoweringState.new (.new moduleName)
    let program := fun definitions : List Definition =>
      declarations.map Node.signature ++ definitions.map Definition.item
    let accounts := fun definitions : List Definition => (program definitions).zip
      ((items start (program definitions)).1.zip (tellings start (program definitions)))
    (items start (program definitions)).2.builder.module =
        (items start (program reordered)).2.builder.module ∧
      (∀ order, (items start (program order)).1.length = (program order).length ∧
        (tellings start (program order)).length = (program order).length) ∧
      (accounts definitions).Perm (accounts reordered) := by
  intro start program accounts
  let base := (items start (declarations.map Node.signature)).2
  have describes := describes_items (describes_new moduleName) (declarations.map Node.signature)
  have defines : Defines base definitions := by
    refine ⟨?_, distinct⟩
    intro definition isDefined
    rcases declared definition isDefined with ⟨header, isDeclared, sameName⟩
    apply Option.ne_none_iff_exists'.mp
    rw [Ne, Module.index?_eq_none_iff, ← Ne, ← Option.isSome_iff_ne_none,
      (realised_of_accepted accepted).introduced]
    exact ⟨.signature header, List.mem_map_of_mem isDeclared, sameName⟩
  have definesToo : Defines base reordered := defines.perm permuted
  have modules : ∀ definitions, (items start (program definitions)).2.builder.module =
      ⟨moduleName, (items base (definitions.map Definition.item)).2.builder.module.functions⟩ := by
    intro definitions
    have name := moduleName_items (describes_new moduleName) (program definitions)
    rw [items_append] at name ⊢
    exact congrArg (Ir.Module.mk · _) name
  have paired : ∀ definitions, Defines base definitions → accounts definitions =
      (declarations.map Node.signature).zip
          ((items start (declarations.map Node.signature)).1.zip
            (tellings start (declarations.map Node.signature))) ++
        definitions.map fun definition =>
          (definition.item, outcome (item definition.item base), told base definition.item) := by
    intro definitions defines
    have reached := reached_self describes definitions
    have declaredAll := length_results start (declarations.map Node.signature)
    have toldAll := length_tellings start (declarations.map Node.signature)
    simp only [accounts, program]
    rw [results_append, tellings_append, reached.results describes defines,
      reached.tellings describes defines, List.zip_append (declaredAll.trans toldAll.symm),
      List.zip_map', List.zip_append (by simp [declaredAll, toldAll]), List.zip_map']
  refine ⟨?_, ?_, ?_⟩
  · rw [modules, modules, functions_perm describes defines permuted]
  · intro order
    exact ⟨length_results start _, length_tellings start _⟩
  · rw [paired definitions defines, paired reordered definesToo]
    exact (permuted.map _).append_left _

/-- The signatures of two functions that call each other and of one that nothing calls. -/
def calling : List Signature :=
  [⟨"ping", ["int"], [⟨"int", "n"⟩]⟩, ⟨"pong", ["int"], [⟨"int", "n"⟩]⟩, ⟨"alone", ["int"], []⟩]

/-- Definitions of these functions, the last of which fails behind its first instruction. -/
def callingEachOther : List Definition :=
  [(⟨"ping", ["int"], [⟨"int", "n"⟩]⟩, [.ret [.call "pong" [.var ⟨"n", none⟩]]]),
    (⟨"pong", ["int"], [⟨"int", "n"⟩]⟩, [.ret [.call "ping" [.var ⟨"n", none⟩]]]),
    (⟨"alone", ["int"], []⟩, [.decl ⟨"x", "int"⟩, .ret [.var ⟨"y", none⟩]])]

theorem definitions_in_any_order_reversed :
    let start := LoweringState.new (.new "calling")
    let program := fun definitions : List Definition =>
      calling.map Node.signature ++ definitions.map Definition.item
    let accounts := fun definitions : List Definition => (program definitions).zip
      ((items start (program definitions)).1.zip (tellings start (program definitions)))
    (∀ result ∈ (items start (calling.map Node.signature)).1, ∃ index, result = .ok index) ∧
      (∀ definition ∈ callingEachOther, ∃ header ∈ calling, header.name = definition.1.name) ∧
      (callingEachOther.map (·.1.name)).Nodup ∧
      callingEachOther.Perm callingEachOther.reverse ∧
      (items start (program callingEachOther)).1.map (·.isOk) =
        [true, true, true, true, true, false] ∧
      (items start (program callingEachOther)).2.builder.module =
        (items start (program callingEachOther.reverse)).2.builder.module ∧
      (accounts callingEachOther).Perm (accounts callingEachOther.reverse) := by
  have isOk :
      (items (.new (.new "calling")) (calling.map Node.signature)).1.all (·.isOk) = true := by
    decide +kernel
  have accepted : ∀ result ∈ (items (.new (.new "calling")) (calling.map Node.signature)).1,
      ∃ index, result = .ok index := by
    intro result member
    have fine := List.all_eq_true.mp isOk result member
    cases result with
    | ok index => exact ⟨index, rfl⟩
    | error error => cases fine
  have declared : ∀ definition ∈ callingEachOther, ∃ header ∈ calling,
      header.name = definition.1.name := by
    unfold callingEachOther calling
    simp
  have distinct : (callingEachOther.map (·.1.name)).Nodup := by decide
  have permuted : callingEachOther.Perm callingEachOther.reverse :=
    (List.reverse_perm callingEachOther).symm
  have lastFails : (items (.new (.new "calling")) (calling.map Node.signature ++
      callingEachOther.map Definition.item)).1.map (·.isOk) =
        [true, true, true, true, true, false] := by
    decide +kernel
  have both := definitions_in_any_order "calling" calling callingEachOther
    callingEachOther.reverse accepted declared distinct permuted
  dsimp only at both ⊢
  exact ⟨accepted, declared, distinct, permuted, lastFails, both.1, both.2.2⟩

end Lowering

end Tuplet
