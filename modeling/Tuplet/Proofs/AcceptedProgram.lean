import Tuplet.Proofs.Acceptance
import Tuplet.Proofs.Meaning

/-!
# The modules of accepted programs

When every item of a program has been lowered, its module has a function for
each definition, and nothing else has a body. Which instructions a function has
was settled when its item was lowered, in a module that has grown since. What
has been added in the meantime does not matter: a function that was declared
keeps its parameters and results, so that what had been verified stays so.
-/

namespace Tuplet

open Ir (Function Instruction Module Operand Slot ValueType)

/-- The lowered form of a definition in a module. -/
structure Implementation (module : Module) (function : Function) (header : Signature)
    (body : List Node) where
  /-- The functions that were declared when the definition was lowered. -/
  table : FunctionTable
  /-- What was known of the function itself. -/
  known : Known
  /-- What the parameters led to. -/
  entry : Draft
  /-- What the statements led to. -/
  draft : Draft
  params : Node.EmitsParameters .empty 0 header.params entry
  statements : Node.EmitsStatements table entry body draft
  isBody : Node.IsBody table header known body
  fits : known.toProfile.Fits function
  blocks : function.blocks = [⟨"entry", (draft.finished header).instructions⟩]
  verified : module.verify function = .ok ()
  knows : ∀ name profile, table.profile? name = some profile →
    ∃ target, module.get? name = some target ∧ profile.Fits target

namespace Implementation

variable {module larger : Module} {function : Function} {header : Signature} {body : List Node}

/-- A definition stays implemented while functions are added to the module. -/
def mono (implementation : Implementation module function header body)
    (extended : larger.Extends module) : Implementation larger function header body :=
  { implementation with
    verified := Module.verify_mono extended implementation.verified
    knows := by
      intro name profile declared
      obtain ⟨target, found, fits⟩ := implementation.knows name profile declared
      obtain ⟨other, foundAgain, sameParams, sameReturns⟩ := extended name target found
      exact ⟨other, foundAgain, sameParams ▸ fits.params, sameReturns ▸ fits.returns⟩ }

variable (implementation : Implementation module function header body)

include implementation

theorem isDeclaration_eq : function.isDeclaration = false := by
  simp [Function.isDeclaration, implementation.blocks]

theorem code_eq : function.code = (implementation.draft.finished header).instructions := by
  simp [Function.code, implementation.blocks]

theorem paramCount : header.params.length = function.params.length := by
  have types := congrArg List.length implementation.isBody.paramTypes
  have params := congrArg List.length implementation.fits.params
  simp only [List.length_map] at types params
  omega

theorem sequential_entry : implementation.entry.Sequential function :=
  implementation.params.sequential (by simp [implementation.paramCount]) Draft.sequential_empty

theorem sequential : (implementation.draft.finished header).Sequential function :=
  (implementation.statements.sequential implementation.sequential_entry).finished header

end Implementation

theorem Ir.Module.index?_eq_none_iff {module : Module} {name : String} :
    module.index? name = none ↔ module.get? name = none := by
  simp [index?, get?]

/-- A module is another one, except for the function of a name. -/
def Ir.Module.Replaces (larger smaller : Module) (name : String) (function : Function) : Prop :=
  ∀ other, larger.get? other = if name = other then some function else smaller.get? other

namespace Ir.Module

variable {module middle larger : Module} {name : String} {function old new : Function}

theorem Replaces.refl (found : module.get? name = some function) :
    module.Replaces module name function := by
  intro other
  split
  · rename_i same
    exact same ▸ found
  · rfl

theorem Replaces.trans (later : larger.Replaces middle name new)
    (earlier : middle.Replaces module name old) : larger.Replaces module name new := by
  intro other
  rw [later other, earlier other]
  split <;> rfl

theorem replaces_append (unknown : module.get? function.name = none) :
    Replaces { module with functions := module.functions ++ [function] } module function.name
      function := by
  intro other
  have split : Module.get? { module with functions := module.functions ++ [function] } other =
      (module.get? other).or ([function].find? (·.name == other)) := List.find?_append
  rw [split]
  by_cases same : function.name = other
  · subst same
    simp [unknown]
  · simp [same]

theorem replaces_set {index : Nat} (distinct : (module.functions.map (·.name)).Nodup)
    (found : module.functions[index]? = some old) (sameName : new.name = old.name) :
    Replaces { module with functions := module.functions.set index new } module old.name new := by
  intro other
  rw [← sameName]
  exact Lookup.find?_set distinct found sameName other

/-- A module only grows if a function keeps its parameters and results. -/
theorem Replaces.extends (replaces : larger.Replaces module name function)
    (kept : ∀ old, module.get? name = some old →
      function.params = old.params ∧ function.returns = old.returns) :
    larger.Extends module := by
  intro other old found
  rw [replaces other]
  by_cases same : name = other
  · subst same
    exact ⟨function, by simp, kept old found⟩
  · exact ⟨old, by simpa [same] using found, rfl, rfl⟩

end Ir.Module

/-- A module has the functions of a program. -/
structure Program.Realised (program : Program) (module : Module) : Prop where
  introduced : ∀ name, (module.get? name).isSome = true ↔ ∃ node ∈ program, node.Introduces name
  defined : ∀ name header body, program.definition? name = some (header, body) →
    ∃ function, module.get? name = some function ∧
      Nonempty (Implementation module function header body)
  declared : ∀ name function, program.definition? name = none →
    module.get? name = some function → function.isDeclaration = true

namespace Program

variable {program : Program} {module larger : Module} {function : Function} {header : Signature}
  {body : List Node}

theorem definition?_append_signature (program : Program) (header : Signature) (name : String) :
    definition? (program ++ [.signature header]) name = program.definition? name := by
  simp [definition?, Node.definition?]

theorem definition?_append_function (fresh : program.definition? header.name = none)
    (name : String) :
    definition? (program ++ [.function header body]) name =
      if header.name = name then some (header, body) else program.definition? name := by
  unfold definition? at fresh ⊢
  rw [List.findSome?_append]
  by_cases same : header.name = name
  · subst same
    rw [fresh]
    simp [Node.definition?]
  · simp [same, Node.definition?]

namespace Realised

theorem start (name : String) : Realised [] ⟨name, []⟩ where
  introduced _ := by simp [Module.get?]
  defined _ _ _ found := by simp [definition?] at found
  declared _ _ _ found := by simp [Module.get?] at found

theorem introduced_append (realised : program.Realised module) {item : Node} {name : String}
    (replaces : larger.Replaces module name function)
    (introduces : ∀ other, item.Introduces other ↔ name = other) (other : String) :
    (larger.get? other).isSome = true ↔ ∃ node ∈ program ++ [item], node.Introduces other := by
  have split : (∃ node ∈ program ++ [item], node.Introduces other) ↔
      (∃ node ∈ program, node.Introduces other) ∨ name = other := by
    simp [or_and_right, exists_or, introduces]
  rw [split, replaces other, ← realised.introduced]
  by_cases same : name = other
  · simp [same]
  · simp [same]

theorem defined_of_ne (realised : program.Realised module) {name other : String}
    (replaces : larger.Replaces module name function) (extended : larger.Extends module)
    (differ : name ≠ other) (definition : program.definition? other = some (header, body)) :
    ∃ function, larger.get? other = some function ∧
      Nonempty (Implementation larger function header body) := by
  obtain ⟨function, found, ⟨implementation⟩⟩ := realised.defined other header body definition
  exact ⟨function, by rw [replaces other, if_neg differ, found],
    ⟨implementation.mono extended⟩⟩

/-- A signature adds a function without a body to a module that does not have the function. -/
theorem append_signature (realised : program.Realised module)
    (replaces : larger.Replaces module header.name function)
    (blank : module.get? header.name = none → function.isDeclaration = true)
    (kept : ∀ old, module.get? header.name = some old → function = old) :
    Realised (program ++ [.signature header]) larger where
  introduced := realised.introduced_append replaces fun _ => Iff.rfl
  defined name other body definition := by
    rw [definition?_append_signature] at definition
    have extended : larger.Extends module := by
      apply replaces.extends
      intro old found
      obtain rfl := kept old found
      exact ⟨rfl, rfl⟩
    by_cases same : header.name = name
    · subst same
      obtain ⟨old, found, ⟨implementation⟩⟩ := realised.defined _ other body definition
      obtain rfl := kept old found
      exact ⟨function, by rw [replaces, if_pos rfl], ⟨implementation.mono extended⟩⟩
    · exact realised.defined_of_ne replaces extended same definition
  declared name other noDefinition found := by
    rw [definition?_append_signature] at noDefinition
    rw [replaces name] at found
    by_cases same : header.name = name
    · subst same
      obtain rfl : function = other := by simpa using found
      cases old? : module.get? header.name with
      | none => exact blank old?
      | some old =>
          obtain rfl := kept old old?
          exact realised.declared _ function noDefinition old?
    · rw [if_neg same] at found
      exact realised.declared name other noDefinition found

/-- A definition gives a function without a body one, or adds a function. -/
theorem append_function (realised : program.Realised module)
    (replaces : larger.Replaces module header.name function)
    (extended : larger.Extends module) (fresh : program.definition? header.name = none)
    (implementation : Implementation larger function header body) :
    Realised (program ++ [.function header body]) larger where
  introduced := realised.introduced_append replaces fun _ => Iff.rfl
  defined name other otherBody definition := by
    rw [definition?_append_function fresh] at definition
    by_cases same : header.name = name
    · subst same
      obtain ⟨rfl, rfl⟩ : header = other ∧ body = otherBody := by simpa using definition
      exact ⟨function, by rw [replaces, if_pos rfl], ⟨implementation⟩⟩
    · rw [if_neg same] at definition
      exact realised.defined_of_ne replaces extended same definition
  declared name other noDefinition found := by
    rw [definition?_append_function fresh] at noDefinition
    by_cases same : header.name = name
    · simp [same] at noDefinition
    · rw [if_neg same] at noDefinition
      rw [replaces name, if_neg same] at found
      exact realised.declared name other noDefinition found

end Realised

end Program

namespace FunctionTable

variable {table : FunctionTable} {state : LoweringState}

theorem Describes.distinct_functions (describes : table.Describes state) :
    (state.builder.module.functions.map (·.name)).Nodup := by
  have names : ∀ {table : FunctionTable} {functions : List Function},
      List.Forall₂ Known.Describes table functions →
        functions.map (·.name) = table.map (·.name) := by
    intro table functions described
    induction described with
    | nil => rfl
    | cons describes _ ih => simp [describes.name, ih]
  rw [names describes.functions]
  exact describes.distinct

theorem Describes.get?_of_mem (describes : table.Describes state) {function : Function}
    (member : function ∈ state.builder.module.functions) :
    state.builder.module.get? function.name = some function :=
  Lookup.find?_of_mem describes.distinct_functions member

theorem Describes.exists_known (describes : table.Describes state) {function : Function}
    (member : function ∈ state.builder.module.functions) :
    ∃ known : Known, known.Describes function := by
  obtain ⟨index, present⟩ := List.mem_iff_getElem?.mp member
  obtain ⟨known, _, describesFunction⟩ := Lookup.getElem?_of_forall₂ describes.functions present
  exact ⟨known, describesFunction⟩

theorem Describes.get?_eq_none (describes : table.Describes state) {name : String}
    (unknown : table.known? name = none) : state.builder.module.get? name = none := by
  rcases Known.lookup_cases describes.functions name with
    ⟨_, notFound⟩ | ⟨_, _, _, found, _⟩
  · exact Module.index?_eq_none_iff.mp notFound
  · simp [unknown] at found

theorem Ready.replaces {header : Signature} {known : Known} {index : Nat} {function : Function}
    (ready : table.Ready state header known index function) (draft : Draft) :
    (ready.site.closed draft).builder.module.Replaces state.builder.module header.name
      (draft.fill function) := by
  have named : function.name = header.name := ready.function?.name.trans ready.named
  rw [← named]
  exact Module.replaces_set ready.describes.distinct_functions ready.found rfl

theorem Ready.get? {header : Signature} {known : Known} {index : Nat} {function : Function}
    (ready : table.Ready state header known index function) :
    state.builder.module.get? header.name = some function := by
  rw [← ready.named, ← ready.function?.name]
  exact ready.describes.get?_of_mem (List.mem_of_getElem? ready.found)

/-- What could be lowered and verified implements its definition. -/
def Ready.implementation {header : Signature} {known : Known} {index : Nat} {function : Function}
    {entry draft : Draft} {body : List Node}
    (ready : table.Ready state header known index function)
    (params : Node.EmitsParameters .empty 0 header.params entry)
    (statements : Node.EmitsStatements table entry body draft)
    (verified : (ready.site.closed (draft.finished header)).builder.module.verify
      ((draft.finished header).fill function) = .ok ()) :
    Implementation (ready.site.closed (draft.finished header)).builder.module
      ((draft.finished header).fill function) header body where
  table := table
  known := known
  entry := entry
  draft := draft
  params := params
  statements := statements
  isBody := (ready.verify_iff params statements).mp verified
  fits := ⟨ready.function?.fits.params, ready.function?.fits.returns⟩
  blocks := rfl
  verified := verified
  knows := ready.knows _

end FunctionTable

namespace Lowering

variable {program : Program} {table : FunctionTable} {state after : LoweringState} {index : Nat}
  {header : Signature}

theorem realised_signature (realised : program.Realised state.builder.module)
    (lowered : item (.signature header) state = .ok index after) :
    Program.Realised (program ++ [.signature header]) after.builder.module := by
  simp only [item, Result.get_bind] at lowered
  cases index? : state.builder.module.index? header.name with
  | none =>
      simp only [index?] at lowered
      have unknown := Module.index?_eq_none_iff.mp index?
      rcases signature_cases index? with
        ⟨_, function, describesFunction, declared⟩ | ⟨_, _, failed⟩
      · obtain ⟨_, rfl⟩ : _ ∧ state.declare function = after := by simpa [declared] using lowered
        have named : function.name = header.name := describesFunction.name
        have noBody : function.isDeclaration = true := describesFunction.bodied
        refine realised.append_signature ?_ (fun _ => noBody) (by simp [unknown])
        rw [← named]
        exact Module.replaces_append (named ▸ unknown)
      · simp [failed] at lowered
  | some found =>
      simp only [index?] at lowered
      obtain ⟨_, rfl⟩ : _ ∧ state = after := by simpa using lowered
      have known : state.builder.module.get? header.name ≠ none := by
        rw [Ne, ← Module.index?_eq_none_iff, index?]
        simp
      obtain ⟨function, present⟩ := Option.ne_none_iff_exists'.mp known
      refine realised.append_signature (Module.Replaces.refl present) (by simp [present]) ?_
      intro old found
      exact Option.some.inj (present.symm.trans found)

theorem realised_function {body : List Node} (describes : table.Describes state)
    (realised : program.Realised state.builder.module)
    (lowered : Lowering.function header body state = .ok index after) :
    Program.Realised (program ++ [.function header body]) after.builder.module := by
  rcases function_cases describes header body with
    ⟨_, known, _, function, declared, origin, ready, completing⟩ | ⟨_, _, failed⟩
  · obtain ⟨draft, outcome, verified, _, rfl⟩ :=
      Site.completing_eq_ok_iff.mp (completing.symm.trans lowered)
    obtain ⟨entry, params, statements⟩ :=
      Emission.leads_body.mp (Emission.leads_empty_iff.mpr outcome)
    have noBody : function.isDeclaration = true := by simp [ready.function?.bodied, ready.blank]
    -- The function is there already, or has only been added for its body.
    obtain ⟨replaces, same⟩ :
        (ready.site.closed (draft.finished header)).builder.module.Replaces state.builder.module
            header.name ((draft.finished header).fill function) ∧
          ∀ old, state.builder.module.get? header.name = some old → old = function := by
      have replaces := ready.replaces (draft.finished header)
      have found := ready.get?
      have named : function.name = header.name := ready.function?.name.trans ready.named
      rcases origin with rfl | ⟨unknown, rfl⟩
      · exact ⟨replaces, fun old present => Option.some.inj (present.symm.trans found)⟩
      · have missing := describes.get?_eq_none unknown
        exact ⟨replaces.trans (named ▸ Module.replaces_append (named ▸ missing)),
          by simp [missing]⟩
    have extended := replaces.extends (by
      intro old present
      obtain rfl := same old present
      exact ⟨rfl, rfl⟩)
    have fresh : program.definition? header.name = none := by
      cases definition : program.definition? header.name with
      | none => rfl
      | some earlier =>
          obtain ⟨old, present, ⟨implementation⟩⟩ :=
            realised.defined header.name earlier.1 earlier.2 definition
          obtain rfl := same old present
          simp [implementation.isDeclaration_eq] at noBody
    exact realised.append_function replaces extended fresh
      (ready.implementation params statements verified)
  · simp [failed] at lowered

/-- Lowering an item realises the program that ends with it. -/
theorem realised_item {node : Node} (describes : table.Describes state)
    (realised : program.Realised state.builder.module)
    (lowered : item node state = .ok index after) :
    Program.Realised (program ++ [node]) after.builder.module := by
  cases node with
  | signature header => exact realised_signature realised lowered
  | function header body =>
      rw [item, inside_eq_ok_iff] at lowered
      exact realised_function describes realised lowered
  | _ => simp [item, fail] at lowered

/-- Items that are all lowered realise the program that ends with them. -/
theorem realised_items (describes : table.Describes state)
    (realised : program.Realised state.builder.module) {nodes : List Node}
    (accepted : ∀ result ∈ (items state nodes).1, ∃ index, result = .ok index) :
    Program.Realised (program ++ nodes) (items state nodes).2.builder.module := by
  induction nodes generalizing program table state with
  | nil =>
      rw [List.append_nil]
      exact realised
  | cons node rest ih =>
      have leaves := leaves_item describes node
      cases lowered : item node state with
      | error failure after => simp [items, lowered] at accepted
      | ok index after =>
          rw [lowered] at leaves
          have step := realised_item describes realised lowered
          simp only [items, lowered] at accepted ⊢
          simpa using ih leaves step fun result member =>
            accepted result (List.mem_cons_of_mem _ member)

theorem realised_of_accepted {moduleName : String} {program : Program}
    (accepted : ∀ result ∈ (items (.new (.new moduleName)) program).1,
      ∃ index, result = .ok index) :
    program.Realised (items (.new (.new moduleName)) program).2.builder.module :=
  realised_items (describes_new moduleName) (.start moduleName) accepted

end Lowering

end Tuplet
