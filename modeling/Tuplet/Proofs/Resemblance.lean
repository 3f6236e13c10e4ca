import Tuplet.Proofs.DeclarationAgreement
import Tuplet.Proofs.Undisturbed

/-!
# Functions without their bodies

Of the functions of a module, other functions see the names, the parameters and the
results, and never the bodies. So the same comes of an item in two states whose modules
differ in nothing but bodies, as long as the function that the item is for has a body in
both of them or in none. What the item does to the functions of one module it does to the
functions of the other one too.
-/

namespace Tuplet

namespace Ir

/-- A function without its body. -/
def Function.bare (function : Function) : Function := { function with blocks := [], nextId := 0 }

theorem Function.bare_eq_bare_iff {function other : Function} :
    function.bare = other.bare ↔
      function.name = other.name ∧ function.params = other.params ∧
        function.returns = other.returns := by
  simp [bare]

theorem Function.bare_eq_self {function : Function} (noBody : function.isDeclaration = true)
    (untouched : function.nextId = 0) : function.bare = function := by
  rcases function with ⟨name, params, returns, blocks, nextId⟩
  obtain rfl : blocks = [] := List.isEmpty_iff.mp noBody
  obtain rfl : nextId = 0 := untouched
  rfl

namespace Module

/-- Two modules have the same functions, up to the bodies. -/
def Resembles (module other : Module) : Prop :=
  module.functions.map Function.bare = other.functions.map Function.bare

variable {module other : Module}

namespace Resembles

theorem length_eq (resembles : module.Resembles other) :
    module.functions.length = other.functions.length := by
  simpa using congrArg List.length resembles

theorem getElem? (resembles : module.Resembles other) (index : Nat) :
    module.functions[index]?.map Function.bare = other.functions[index]?.map Function.bare := by
  simpa using congrArg (fun functions : List Function => functions[index]?) resembles

theorem get? (resembles : module.Resembles other) (name : String) :
    (module.get? name).map Function.bare = (other.get? name).map Function.bare := by
  have named : ∀ functions : List Function,
      (functions.find? (·.name == name)).map Function.bare =
        (functions.map Function.bare).find? (·.name == name) := by
    intro functions
    rw [List.find?_map]
    rfl
  rw [Module.get?, Module.get?, named, named, resembles]

theorem index? (resembles : module.Resembles other) (name : String) :
    module.index? name = other.index? name := by
  have named : ∀ functions : List Function, functions.findIdx? (·.name == name) =
      (functions.map Function.bare).findIdx? (·.name == name) := by
    intro functions
    rw [List.findIdx?_map]
    rfl
  rw [Module.index?, Module.index?, named module.functions, resembles, ← named]

end Resembles

theorem resultType_congr (resembles : module.Resembles other)
    (typeOf : Operand → Option ValueType) (action : Action) :
    module.resultType typeOf action = other.resultType typeOf action := by
  cases action with
  | call callee args =>
      let returned (target : Function) : Option ValueType :=
        if target.returns = .void then none else some target.returns
      calc (module.get? callee).bind returned
        _ = ((module.get? callee).map Function.bare).bind returned := by rw [Option.bind_map]; rfl
        _ = ((other.get? callee).map Function.bare).bind returned := by rw [resembles.get?]
        _ = (other.get? callee).bind returned := by rw [Option.bind_map]; rfl
  | _ => rfl

theorem typeWithin_congr (resembles : module.Resembles other) (function : Function)
    (depth : Nat) : module.typeWithin function depth = other.typeWithin function depth := by
  induction depth with
  | zero =>
      funext operand
      cases operand <;> rfl
  | succ depth ih =>
      funext operand
      cases operand with
      | instr id =>
          rw [typeWithin_instr, typeWithin_instr, ih]
          simp only [resultType_congr resembles]
      | _ => rfl

theorem typeOf?_congr (resembles : module.Resembles other) (function : Function) :
    module.typeOf? function = other.typeOf? function :=
  typeWithin_congr resembles function function.code.length

theorem checkArguments_congr (resembles : module.Resembles other) (function : Function)
    (callee : String) (args : List Operand) (params : List Param) :
    module.checkArguments function callee args params =
      other.checkArguments function callee args params := by
  induction args generalizing params with
  | nil => simp [checkArguments]
  | cons arg args ih =>
      cases params with
      | nil => simp [checkArguments]
      | cons param params => simp only [checkArguments, typeOf?_congr resembles, ih]

theorem returnsMatch_congr (resembles : module.Resembles other) (function : Function)
    (values : List Operand) :
    module.returnsMatch function values = other.returnsMatch function values := by
  unfold returnsMatch
  rw [typeOf?_congr resembles]

theorem checkAction_congr (resembles : module.Resembles other) (function : Function)
    (defined : List Nat) (id : Nat) (action : Action) :
    module.checkAction function defined id action =
      other.checkAction function defined id action := by
  cases action with
  | call callee args =>
      have bare := resembles.get? callee
      simp only [checkAction]
      cases found : module.get? callee with
      | none =>
          have missing : other.get? callee = none := by simpa [found] using bare.symm
          rw [missing]
      | some target =>
          obtain ⟨partner, foundToo, same⟩ : ∃ partner, other.get? callee = some partner ∧
              partner.bare = target.bare := by simpa [found] using bare.symm
          have params : partner.params = target.params := (Function.bare_eq_bare_iff.mp same).2.1
          simp only [foundToo, params, checkArguments_congr resembles]
  | ret values => simp only [checkAction, returnsMatch_congr resembles]
  | _ => simp only [checkAction, typeOf?_congr resembles]

theorem checkCode_congr (resembles : module.Resembles other) (function : Function)
    (block : String) (defined : List Nat) (code : List Instruction) :
    module.checkCode function block defined code =
      other.checkCode function block defined code := by
  induction code generalizing defined with
  | nil => rfl
  | cons instruction rest ih => simp only [checkCode, checkAction_congr resembles, ih]

theorem checkBlocks_congr (resembles : module.Resembles other) (function : Function)
    (defined : List Nat) (blocks : List Block) :
    module.checkBlocks function defined blocks = other.checkBlocks function defined blocks := by
  induction blocks generalizing defined with
  | nil => rfl
  | cons block rest ih => simp only [checkBlocks, checkCode_congr resembles, ih]

/-- Verification sees nothing of the bodies of other functions. -/
theorem verify_congr (resembles : module.Resembles other) (function : Function) :
    module.verify function = other.verify function :=
  checkBlocks_congr resembles function [] function.blocks

end Module

end Ir

open Ir (Builder Function Module)

theorem Ir.Builder.paramCount_congr {builder other : Builder}
    (resembles : builder.module.Resembles other.module) (index : Nat) :
    builder.paramCount index = other.paramCount index := by
  have counts : ∀ function? : Option Function, function?.map (·.params.length) =
      (function?.map Function.bare).map (·.params.length) := by
    intro function?
    rw [Option.map_map]
    rfl
  have bare := resembles.getElem? index
  rw [paramCount, paramCount, function?, function?, counts, bare, ← counts]

theorem Profile.Fits.unique {profile another : Profile} {function other : Function}
    (fits : profile.Fits function) (fitsToo : another.Fits other)
    (same : function.bare = other.bare) : profile = another := by
  rcases Function.bare_eq_bare_iff.mp same with ⟨_, params, returns⟩
  have sameParams : profile.params = another.params := by
    rw [← fits.params, ← fitsToo.params, params]
  have sameReturns : profile.returns = another.returns := by
    apply Ir.ValueType.ofReturns_injective
    rw [← fits.returns, ← fitsToo.returns, returns]
  cases profile
  cases another
  simp_all

/-- Where modules resemble each other, callers know the same of their functions. -/
theorem FunctionTable.Describes.profile?_congr {table another : FunctionTable}
    {first second : LoweringState} (describes : table.Describes first)
    (describesToo : another.Describes second)
    (resembles : first.builder.module.Resembles second.builder.module) :
    table.profile? = another.profile? := by
  funext name
  have index? := resembles.index? name
  unfold Module.index? at index?
  rcases Known.lookup_cases describes.functions name with
    ⟨unknown, notFound⟩ | ⟨known, index, function, found, here, _, present, _, describesFunction⟩
  · rcases Known.lookup_cases describesToo.functions name with
      ⟨unknownToo, _⟩ | ⟨_, _, _, _, there, _⟩
    · simp [profile?, unknown, unknownToo]
    · simp [notFound, there] at index?
  · rcases Known.lookup_cases describesToo.functions name with
      ⟨_, notFound⟩ | ⟨knownToo, _, other, foundToo, there, _, presentToo, _, describesOther⟩
    · simp [here, notFound] at index?
    · obtain rfl := Option.some.inj (here.symm.trans (index?.trans there))
      have bare := resembles.getElem? index
      rw [present, presentToo] at bare
      have same := describesFunction.fits.unique describesOther.fits (Option.some.inj bare)
      simp [profile?, found, foundToo, same]

theorem FunctionTable.Ready.bare_eq {table : FunctionTable} {state : LoweringState}
    {header : Signature} {known : Known} {index : Nat} {function : Function}
    (ready : table.Ready state header known index function) : function.bare = function :=
  Function.bare_eq_self (by simp [ready.function?.bodied, ready.blank])
    (ready.function?.untouched ready.blank)

namespace Lowering

variable {α : Type}

/-- What comes of a step that leaves a state. -/
def leaving (state : LoweringState) :
    Except LoweringFailure α → EStateM.Result LoweringError LoweringState α
  | .ok value => .ok value state
  | .error failure => raise failure state

/-- Types are resolved in the same way in all states. -/
theorem resolveAll_eq_leaving (names : List String) :
    ∃ outcome, ∀ state, resolveAll names state = leaving state outcome := by
  induction names with
  | nil => exact ⟨.ok [], fun _ => rfl⟩
  | cons name rest ih =>
      rcases ih with ⟨outcome, resolvesRest⟩
      unfold resolveAll
      rcases resolve_cases name with ⟨type, _, resolved, _⟩ | ⟨_, error, failed, _⟩
      · refine ⟨outcome.map (type :: ·), ?_⟩
        intro state
        rw [resolved, pure_bind]
        cases outcome with
        | ok types => exact Result.bind_of_ok (resolvesRest state)
        | error failure => exact bind_of_raise (resolvesRest state)
      · refine ⟨.error (.because error), ?_⟩
        intro state
        rw [failed]
        rfl

/-- A function that is not there yet is declared in the same way in all states. -/
theorem signature_eq_leaving (header : Signature) :
    (∃ function, ∀ state : LoweringState, state.builder.module.index? header.name = none →
        signature header state =
          .ok state.builder.module.functions.length (state.declare function)) ∨
      ∃ failure, ∀ state : LoweringState, state.builder.module.index? header.name = none →
        signature header state = raise failure state := by
  unfold signature
  cases header.repeatedParam? with
  | some param => exact .inr ⟨.because (.repeatedParameter param header.name), fun _ _ => rfl⟩
  | none =>
      simp only [resolveParams_eq, bind_assoc]
      rcases resolveAll_eq_leaving (header.params.map (·.type)) with ⟨failure | params, resolved⟩
      · exact .inr ⟨failure, fun state _ => bind_of_raise (resolved state)⟩
      · rcases resolveAll_eq_leaving header.returns with ⟨failure | returns, resolvedToo⟩
        · right
          refine ⟨failure, ?_⟩
          intro state _
          rw [Result.bind_of_ok (resolved state), pure_bind]
          exact bind_of_raise (resolvedToo state)
        · left
          let typed := params.zipWith (fun type param => Ir.Param.mk type param.name) header.params
          refine ⟨⟨header.name, typed, .ofReturns returns, [], 0⟩, ?_⟩
          intro state unknown
          rw [Result.bind_of_ok (resolved state), pure_bind,
            Result.bind_of_ok (resolvedToo state)]
          exact declare_of_unknown unknown _ _

/-- At each index, two lists of functions are as they were or have become the same. -/
def EditedAlike (first second firstNow secondNow : List Function) : Prop :=
  ∀ index : Nat, (firstNow[index]? = first[index]? ∧ secondNow[index]? = second[index]?) ∨
    firstNow[index]? = secondNow[index]?

namespace EditedAlike

variable {first second firstThen secondThen firstNow secondNow : List Function}

theorem refl (first second : List Function) : EditedAlike first second first second := by
  intro index
  exact .inl ⟨rfl, rfl⟩

theorem trans (earlier : EditedAlike first second firstThen secondThen)
    (later : EditedAlike firstThen secondThen firstNow secondNow) :
    EditedAlike first second firstNow secondNow := by
  intro index
  rcases later index with ⟨firstKept, secondKept⟩ | same
  · rw [firstKept, secondKept]
    exact earlier index
  · exact .inr same

theorem append (sameLength : first.length = second.length) (function : Function) :
    EditedAlike first second (first ++ [function]) (second ++ [function]) := by
  intro index
  rcases Nat.lt_or_ge index first.length with within | beyond
  · left
    exact ⟨List.getElem?_append_left within, List.getElem?_append_left (sameLength ▸ within)⟩
  · right
    rw [List.getElem?_append_right beyond, List.getElem?_append_right (sameLength ▸ beyond),
      sameLength]

theorem set (sameLength : first.length = second.length) (place : Nat) (function : Function) :
    EditedAlike first second (first.set place function) (second.set place function) := by
  intro index
  by_cases here : place = index
  · right
    simp [List.getElem?_set, here, sameLength]
  · left
    simp [here]

/-- Functions that are the same up to their bodies stay so. -/
theorem map_bare_eq (edited : EditedAlike first second firstNow secondNow)
    (same : first.map Function.bare = second.map Function.bare) :
    firstNow.map Function.bare = secondNow.map Function.bare := by
  apply List.ext_getElem?
  intro index
  have before := congrArg (fun functions : List Function => functions[index]?) same
  simp only [List.getElem?_map] at before ⊢
  rcases edited index with ⟨firstKept, secondKept⟩ | now
  · rw [firstKept, secondKept, before]
  · rw [now]

end EditedAlike

/--
From two states, the same has come of a step, the same has been done to the functions, and the
same has been told.
-/
inductive GoesAlike (first second : LoweringState) :
    (result resultToo : EStateM.Result LoweringError LoweringState Nat) → Prop
  | ok {index : Nat} {after afterToo : LoweringState} (log : after.log = first.log)
      (logToo : afterToo.log = second.log)
      (edited : EditedAlike first.builder.module.functions second.builder.module.functions
        after.builder.module.functions afterToo.builder.module.functions) :
      GoesAlike first second (.ok index after) (.ok index afterToo)
  | error {failure : LoweringFailure} {after afterToo : LoweringState}
      (log : after.log = first.log) (logToo : afterToo.log = second.log)
      (edited : EditedAlike first.builder.module.functions second.builder.module.functions
        after.builder.module.functions afterToo.builder.module.functions) :
      GoesAlike first second (raise failure after) (raise failure afterToo)

variable {table another : FunctionTable} {first second : LoweringState} {header : Signature}

namespace GoesAlike

variable {result resultToo : EStateM.Result LoweringError LoweringState Nat}

theorem outcome_eq (alike : GoesAlike first second result resultToo) :
    outcome result = outcome resultToo := by
  cases alike <;> rfl

theorem edited (alike : GoesAlike first second result resultToo) :
    EditedAlike first.builder.module.functions second.builder.module.functions
      (left result).builder.module.functions (left resultToo).builder.module.functions := by
  cases alike with
  | ok _ _ edited => exact edited
  | error _ _ edited => exact edited

theorem told_eq {node : Node}
    (alike : GoesAlike first second (item node first) (item node second)) :
    told first node = told second node := by
  generalize lowered : item node first = result at alike
  generalize loweredToo : item node second = resultToo at alike
  cases alike with
  | ok log logToo _ => simp [told, lowered, loweredToo, left, log, logToo]
  | error log logToo _ => rw [told_of_raise lowered log, told_of_raise loweredToo logToo]

/-- What goes alike from two states goes alike from the two that these have come from. -/
theorem behind {declared declaredToo : LoweringState}
    (alike : GoesAlike declared declaredToo result resultToo) (log : declared.log = first.log)
    (logToo : declaredToo.log = second.log)
    (edited : EditedAlike first.builder.module.functions second.builder.module.functions
      declared.builder.module.functions declaredToo.builder.module.functions) :
    GoesAlike first second result resultToo := by
  cases alike with
  | ok kept keptToo later => exact .ok (kept.trans log) (keptToo.trans logToo) (edited.trans later)
  | error kept keptToo later =>
      exact .error (kept.trans log) (keptToo.trans logToo) (edited.trans later)

theorem inside {step : Lowering Nat} (alike : GoesAlike first second (step first) (step second))
    (context : LoweringContext) :
    GoesAlike first second (Lowering.inside context step first)
      (Lowering.inside context step second) := by
  generalize stepped : step first = result at alike
  generalize steppedToo : step second = resultToo at alike
  cases alike with
  | ok log logToo edited =>
      rw [inside_of_ok stepped, inside_of_ok steppedToo]
      exact .ok log logToo edited
  | error log logToo edited =>
      rw [inside_of_raise stepped, inside_of_raise steppedToo]
      exact .error log logToo edited

end GoesAlike

/-- A construct that an error leaves is told of, and nothing else happens. -/
theorem left_inside (context : LoweringContext) (step : Lowering Nat) (state : LoweringState) :
    ∃ log, left (inside context step state) = (left (step state)).withLog log := by
  cases stepped : step state with
  | ok index after => exact ⟨after.log, congrArg left (inside_of_ok stepped context)⟩
  | error error after => exact ⟨_, congrArg left (telling_of_error stepped)⟩

/-- The function of a name has a body in both states or in none. -/
def SameBodied (name : String) (first second : LoweringState) : Prop :=
  ∀ index, first.builder.module.index? name = some index →
    first.builder.hasBody index = second.builder.hasBody index

theorem definedFunction_alike
    (resembles : first.builder.module.Resembles second.builder.module)
    (sameBodied : SameBodied header.name first second) :
    (∃ failure, definedFunction header first = raise failure first ∧
        definedFunction header second = raise failure second) ∨
      ∃ index declared declaredToo, definedFunction header first = .ok index declared ∧
        definedFunction header second = .ok index declaredToo ∧
        declared.log = first.log ∧ declaredToo.log = second.log ∧
        EditedAlike first.builder.module.functions second.builder.module.functions
          declared.builder.module.functions declaredToo.builder.module.functions := by
  unfold definedFunction
  simp only [Result.get_bind, ← resembles.index?]
  cases found : first.builder.module.index? header.name with
  | none =>
      have foundToo := (resembles.index? header.name).symm.trans found
      rcases signature_eq_leaving header with ⟨function, declares⟩ | ⟨failure, fails⟩
      · right
        refine ⟨first.builder.module.functions.length, first.declare function,
          second.declare function, inside_of_ok (declares first found) _, ?_, rfl, rfl,
          .append resembles.length_eq function⟩
        rw [resembles.length_eq]
        exact inside_of_ok (declares second foundToo) _
      · left
        exact ⟨failure.inside (.declaring header.name), inside_of_raise (fails first found) _,
          inside_of_raise (fails second foundToo) _⟩
  | some index =>
      simp only [← sameBodied index found, ← Builder.paramCount_congr resembles index]
      split
      · exact .inl ⟨.because (.alreadyHasBody header.name), rfl, rfl⟩
      · split
        · exact .inr ⟨index, first, second, rfl, rfl, rfl, rfl, .refl _ _⟩
        · exact .inl ⟨.because (.mismatchedDeclaration header.name), rfl, rfl⟩

theorem exists_ready {index : Nat} {declared : LoweringState}
    (describes : table.Describes first)
    (defined : definedFunction header first = .ok index declared) :
    ∃ known function, (table.declare header).Ready declared header known index function := by
  rcases @definedFunction_cases _ _ header describes with
    ⟨_, known, _, function, _, definedSo, _, ready⟩ | ⟨_, failure, failed⟩
  · cases defined.symm.trans definedSo
    exact ⟨known, function, ready⟩
  · cases defined.symm.trans failed

/-- Bodies with the same outcome are completed alike. -/
theorem completing_alike {known knownToo : Known} {index : Nat} {function : Function}
    (ready : table.Ready first header known index function)
    (readyToo : another.Ready second header knownToo index function)
    (resembles : first.builder.module.Resembles second.builder.module)
    (lowered : Draft × Except LoweringFailure Unit) :
    GoesAlike first second (ready.site.completing header lowered)
      (readyToo.site.completing header lowered) := by
  have edited : ∀ draft : Draft,
      EditedAlike first.builder.module.functions second.builder.module.functions
        (ready.site.closed draft).builder.module.functions
        (readyToo.site.closed draft).builder.module.functions := by
    intro draft
    exact .set resembles.length_eq index (draft.fill function)
  rcases lowered with ⟨draft, failure | _⟩
  · exact .error rfl rfl (edited draft)
  · let finished := draft.finished header
    have verified : (ready.site.closed finished).builder.module.verify (finished.fill function) =
        (readyToo.site.closed finished).builder.module.verify (finished.fill function) :=
      Module.verify_congr ((edited finished).map_bare_eq resembles) _
    have site_function : ready.site.function = function := rfl
    have siteToo_function : readyToo.site.function = function := rfl
    simp only [Site.completing, site_function, siteToo_function, finished] at verified ⊢
    rw [verified]
    split
    · exact .ok rfl rfl (edited finished)
    · exact .error rfl rfl (edited finished)

theorem function_alike (describes : table.Describes first)
    (describesToo : another.Describes second)
    (resembles : first.builder.module.Resembles second.builder.module)
    (sameBodied : SameBodied header.name first second) (body : List Node) :
    GoesAlike first second (Lowering.function header body first)
      (Lowering.function header body second) := by
  rcases definedFunction_alike resembles sameBodied with
    ⟨failure, fails, failsToo⟩ |
      ⟨index, declared, declaredToo, defined, definedToo, log, logToo, edited⟩
  · have failed : Lowering.function header body first = raise failure first :=
      bind_of_raise fails
    have failedToo : Lowering.function header body second = raise failure second :=
      bind_of_raise failsToo
    rw [failed, failedToo]
    exact .error rfl rfl (.refl _ _)
  · rcases exists_ready describes defined with ⟨known, function, ready⟩
    rcases exists_ready describesToo definedToo with ⟨knownToo, functionToo, readyToo⟩
    have nowResembles : declared.builder.module.Resembles declaredToo.builder.module :=
      edited.map_bare_eq resembles
    have around : (table.declare header).around = (another.declare header).around := by
      rw [FunctionTable.around, FunctionTable.around,
        ready.describes.profile?_congr readyToo.describes nowResembles]
    -- neither function has a body yet, so the two do not differ at all
    obtain rfl : function = functionToo := by
      have bare := nowResembles.getElem? index
      rw [ready.found, readyToo.found] at bare
      rw [← ready.bare_eq, ← readyToo.bare_eq]
      exact Option.some.inj bare
    rw [function_eq defined ready body, function_eq definedToo readyToo body, around]
    have completed := completing_alike ready readyToo nowResembles
      (Emission.body (another.declare header).around header.params body .empty)
    exact completed.behind log logToo edited

/-- An item goes alike in two states that differ in bodies it does not ask for. -/
theorem item_alike (describes : table.Describes first) (describesToo : another.Describes second)
    (resembles : first.builder.module.Resembles second.builder.module) (node : Node)
    (sameBodied : ∀ name, node.Defines name → SameBodied name first second) :
    GoesAlike first second (item node first) (item node second) := by
  cases node with
  | function header body =>
      refine GoesAlike.inside ?_ (.function header.name)
      exact function_alike describes describesToo resembles (sameBodied header.name rfl) body
  | signature header =>
      simp only [item, Result.get_bind, ← resembles.index?]
      cases found : first.builder.module.index? header.name with
      | none =>
          have foundToo := (resembles.index? header.name).symm.trans found
          rcases signature_eq_leaving header with ⟨function, declares⟩ | ⟨failure, fails⟩
          · simp only [declares first found, declares second foundToo, ← resembles.length_eq]
            exact .ok rfl rfl (.append resembles.length_eq function)
          · simp only [fails first found, fails second foundToo]
            exact .error rfl rfl (.refl _ _)
      | some index => exact .ok rfl rfl (.refl _ _)
  | _ => exact @GoesAlike.error _ _ (.because (.notAFunction _)) _ _ rfl rfl (.refl _ _)

end Lowering

end Tuplet
