import Mathlib.Data.List.Induction
import Tuplet.Proofs.AcceptedProgram

/-!
# Items do not disturb the functions of other items

Lowering an item does nothing, declares a function, or gives a function its body, and the
body stays with the function even if it turns out to be wrong. So all functions but one
are left as they are, and that one keeps its name, its parameters and its results. A
function that has a body is never touched again. What has been verified stays verified,
since the functions that it calls can still be called.

There is one way for a function to get worse. A function that has been declared passes
verification, and does not pass it any more when a body that fails is given to it.
-/

namespace Tuplet

open Ir (Builder Function Module)

/-- The item gives a body to the function of a name. -/
def Node.Defines (name : String) : Node → Prop
  | .function header _ => header.name = name
  | _ => False

/-- A function is what an item leaves of another one: the same, unless it was without a body. -/
structure Undisturbed (node : Node) (old new : Function) : Prop where
  name : new.name = old.name
  params : new.params = old.params
  returns : new.returns = old.returns
  same : ¬ (node.Defines old.name ∧ old.isDeclaration = true) → new = old

theorem Undisturbed.refl (node : Node) (function : Function) : Undisturbed node function function :=
  ⟨rfl, rfl, rfl, fun _ => rfl⟩

/-- Some functions are what an item leaves of others, and at most one more at the end. -/
def Framed (node : Node) (before after : List Function) : Prop :=
  ∃ kept added, after = kept ++ added ∧ added.length ≤ 1 ∧
    List.Forall₂ (Undisturbed node) before kept

/--
An item is refused before anything is done for it: a body for a function that has one or
has another number of parameters, or a header that no function can be declared with.
-/
inductive Refused (builder : Builder) : Node → Prop
  | bodied {header : Signature} {body : List Node} {index : Nat}
      (found : builder.module.index? header.name = some index)
      (hasBody : builder.hasBody index = true) : Refused builder (.function header body)
  | otherCount {header : Signature} {body : List Node} {index : Nat}
      (found : builder.module.index? header.name = some index)
      (otherCount : builder.paramCount index ≠ header.params.length) :
      Refused builder (.function header body)
  | undeclarable {header : Signature} {body : List Node}
      (unknown : builder.module.index? header.name = none) (illFormed : ¬ header.WellFormed) :
      Refused builder (.function header body)
  | undeclarableAlone {header : Signature}
      (unknown : builder.module.index? header.name = none) (illFormed : ¬ header.WellFormed) :
      Refused builder (.signature header)

variable {table : FunctionTable} {state after : LoweringState} {header : Signature}
  {body : List Node} {node : Node}

theorem FunctionTable.Describes.refused_function_iff (describes : table.Describes state) :
    Refused state.builder (.function header body) ↔ ¬ table.Opens header := by
  rcases Known.lookup_cases describes.functions header.name with
    ⟨unknown, notFound⟩ |
      ⟨known, index, function, found, index?, listed, present, named, describesFunction⟩
  · have missing : state.builder.module.index? header.name = none := notFound
    rw [Opens, unknown]
    constructor
    · rintro (⟨found, _⟩ | ⟨found, _⟩ | ⟨_, illFormed⟩)
      · simp [missing] at found
      · simp [missing] at found
      · exact illFormed
    · exact .undeclarable missing
  · have here : state.builder.module.index? header.name = some index := index?
    have hasBody : state.builder.hasBody index = known.bodied := by
      have present : state.builder.function? index = some function := present
      simp [Builder.hasBody, present, describesFunction.bodied]
    have paramCount : state.builder.paramCount index = known.params.length := by
      have present : state.builder.function? index = some function := present
      simp [Builder.paramCount, present, ← describesFunction.fits.params]
    rw [Opens, found]
    simp only [← hasBody, ← paramCount]
    constructor
    · rintro (⟨found, bodied⟩ | ⟨found, otherCount⟩ | ⟨unknown, _⟩) ⟨blank, count⟩
      · obtain rfl := Option.some.inj (found.symm.trans here)
        simp [bodied] at blank
      · obtain rfl := Option.some.inj (found.symm.trans here)
        exact otherCount count
      · simp [here] at unknown
    · intro closed
      by_cases bodied : state.builder.hasBody index = true
      · exact .bodied here bodied
      · apply Refused.otherCount here
        intro count
        exact closed ⟨by simpa using bodied, count⟩

/-- A function without a body, which is added if there is none, is given one. -/
inductive GivesBody (state : LoweringState) (header : Signature) (index : Nat) (built : Function)
    (after : LoweringState) : Prop
  | declared {old : Function} (found : state.builder.function? index = some old)
      (named : old.name = header.name) (noBody : old.isDeclaration = true)
      (name : built.name = old.name) (params : built.params = old.params)
      (returns : built.returns = old.returns)
      (functions : after.builder.module.functions = state.builder.module.functions.set index built)
  | added (unknown : state.builder.module.index? header.name = none)
      (named : built.name = header.name) (last : index = state.builder.module.functions.length)
      (functions : after.builder.module.functions = state.builder.module.functions ++ [built])

namespace Lowering

/-- What can come of an item. -/
inductive Effect (state : LoweringState) :
    Node → EStateM.Result LoweringError LoweringState Nat → Prop
  | found {header : Signature} {index : Nat} {function : Function}
      (found : state.builder.function? index = some function)
      (named : function.name = header.name) : Effect state (.signature header) (.ok index state)
  | declares {header : Signature} {function : Function}
      (unknown : state.builder.module.index? header.name = none)
      (named : function.name = header.name) (noBody : function.isDeclaration = true) :
      Effect state (.signature header)
        (.ok state.builder.module.functions.length (state.declare function))
  | fails {node : Node} {failure : LoweringFailure} : Effect state node (raise failure state)
  | completes {header : Signature} {body : List Node} {index : Nat} {built : Function}
      {after : LoweringState} (gives : GivesBody state header index built after)
      (hasBody : built.isDeclaration = false)
      (verified : after.builder.module.verify built = .ok ()) :
      Effect state (.function header body) (.ok index after)
  | leavesUnfinished {header : Signature} {body : List Node} {index : Nat} {built : Function}
      {after : LoweringState} {failure : LoweringFailure}
      (opened : ¬ Refused state.builder (.function header body))
      (gives : GivesBody state header index built after) :
      Effect state (.function header body) (raise failure after)

theorem Effect.inside {step : Lowering Nat} (effect : Effect state node (step state))
    (context : LoweringContext) : Effect state node (Lowering.inside context step state) := by
  generalize stepped : step state = result at effect
  cases effect with
  | found found named =>
      rw [inside_of_ok stepped]
      exact .found found named
  | declares unknown named noBody =>
      rw [inside_of_ok stepped]
      exact .declares unknown named noBody
  | fails =>
      rw [inside_of_raise stepped]
      exact .fails
  | completes gives hasBody verified =>
      rw [inside_of_ok stepped]
      exact .completes gives hasBody verified
  | leavesUnfinished opened gives =>
      rw [inside_of_raise stepped]
      exact .leavesUnfinished opened gives

open FunctionTable in
theorem givesBody_closed {known : Known} {index : Nat} {function : Function}
    {declared : LoweringState} (describes : table.Describes state)
    (origin : declared = state ∨
      table.known? header.name = none ∧ declared = state.declare function)
    (ready : (table.declare header).Ready declared header known index function) (draft : Draft) :
    GivesBody state header index (draft.fill function) (ready.site.closed draft) := by
  have named : function.name = header.name := ready.function?.name.trans ready.named
  rcases origin with rfl | ⟨unknown, rfl⟩
  · have noBody : function.isDeclaration = true := by simp [ready.function?.bodied, ready.blank]
    exact .declared ready.found named noBody rfl rfl rfl rfl
  · have missing := Module.index?_eq_none_iff.mpr (describes.get?_eq_none unknown)
    obtain rfl : index = state.builder.module.functions.length := by
      rcases Nat.lt_or_ge index state.builder.module.functions.length with within | beyond
      · have found := ready.found
        rw [LoweringState.declare, List.getElem?_append_left within] at found
        have differs := List.findIdx?_eq_none_iff.mp missing function (List.mem_of_getElem? found)
        simp [named] at differs
      · have bounded := (List.getElem?_eq_some_iff.mp ready.found).1
        simp only [LoweringState.declare, List.length_append, List.length_singleton] at bounded
        omega
    refine .added missing named rfl ?_
    have set : (ready.site.closed draft).builder.module.functions =
        (state.builder.module.functions ++ [function]).set state.builder.module.functions.length
          (draft.fill function) := rfl
    rw [set]
    simp

theorem effect_item (describes : table.Describes state) (node : Node) :
    Effect state node (item node state) := by
  cases node with
  | signature header =>
      simp only [item, Result.get_bind]
      rcases Known.lookup_cases describes.functions header.name with
        ⟨_, notFound⟩ | ⟨known, index, function, _, index?, _, present, named, describesFunction⟩
      · have missing : state.builder.module.index? header.name = none := notFound
        simp only [missing]
        rcases signature_cases missing with
          ⟨_, function, describesFunction, declared⟩ | ⟨_, failure, failed⟩
        · rw [declared]
          exact .declares missing describesFunction.name describesFunction.bodied
        · rw [failed]
          exact .fails
      · have here : state.builder.module.index? header.name = some index := index?
        simp only [here]
        exact .found present (describesFunction.name.trans named)
  | function header body =>
      refine Effect.inside ?_ (.function header.name)
      rcases function_cases describes header body with
        ⟨opens, known, index, function, declared, origin, ready, lowered⟩ | ⟨_, failure, failed⟩
      · rw [lowered]
        have opened : ¬ Refused state.builder (.function header body) := by
          rw [describes.refused_function_iff]
          exact not_not_intro opens
        rcases Emission.body (table.declare header).around header.params body .empty with
          ⟨draft, failure | _⟩
        · exact .leavesUnfinished opened (givesBody_closed describes origin ready draft)
        · have gives := givesBody_closed describes origin ready (draft.finished header)
          rw [Site.completing]
          split
          · rename_i verified
            exact .completes gives rfl verified
          · exact .leavesUnfinished opened gives
      · rw [failed]
        exact .fails
  | _ => exact @Effect.fails _ _ (.because (.notAFunction _))

theorem item_of_refused (describes : table.Describes state)
    (refused : Refused state.builder node) : ∃ failure, item node state = raise failure state := by
  cases node with
  | signature header =>
      cases refused with
      | undeclarableAlone unknown illFormed =>
          simp only [item, Result.get_bind, unknown]
          rcases signature_cases unknown with ⟨wellFormed, _⟩ | ⟨_, failed⟩
          · exact absurd wellFormed illFormed
          · exact failed
  | function header body =>
      rcases function_cases describes header body with ⟨opens, _⟩ | ⟨_, failure, failed⟩
      · exact absurd opens (describes.refused_function_iff.mp refused)
      · exact ⟨failure.inside (.function header.name), inside_of_raise failed _⟩
  | _ => cases refused

theorem describes_left (describes : table.Describes state) (node : Node) :
    (table.after node).Describes (left (item node state)) := by
  have leaves := leaves_item describes node
  cases lowered : item node state with
  | ok index after =>
      rw [lowered] at leaves
      exact leaves
  | error error after =>
      rw [lowered] at leaves
      exact leaves

end Lowering

theorem forall₂_undisturbed_set {functions : List Function} {index : Nat} {old new : Function}
    (found : functions[index]? = some old) (undisturbed : Undisturbed node old new) :
    List.Forall₂ (Undisturbed node) functions (functions.set index new) := by
  induction functions generalizing index with
  | nil => simp at found
  | cons first rest ih =>
      cases index with
      | zero =>
          obtain rfl : first = old := by simpa using found
          exact .cons undisturbed (List.forall₂_same.mpr fun function _ => .refl node function)
      | succ index => exact .cons (.refl node first) (ih (by simpa using found))

namespace Framed

theorem refl (node : Node) (functions : List Function) : Framed node functions functions :=
  ⟨functions, [], by simp, by simp,
    List.forall₂_same.mpr fun function _ => .refl node function⟩

theorem append (node : Node) (functions : List Function) (function : Function) :
    Framed node functions (functions ++ [function]) :=
  ⟨functions, [function], rfl, by simp,
    List.forall₂_same.mpr fun function _ => .refl node function⟩

theorem getElem? {before after : List Function} {index : Nat} {function : Function}
    (framed : Framed node before after) (found : before[index]? = some function) :
    ∃ now, after[index]? = some now ∧ Undisturbed node function now := by
  rcases framed with ⟨kept, added, rfl, _, undisturbed⟩
  rcases Lookup.getElem?_of_forall₂ undisturbed.flip found with ⟨now, present, undisturbed⟩
  refine ⟨now, ?_, undisturbed⟩
  rw [List.getElem?_append_left (List.getElem?_eq_some_iff.mp present).1]
  exact present

theorem find?_of_undisturbed {before kept : List Function} {name : String} {function : Function}
    (undisturbed : List.Forall₂ (Undisturbed node) before kept)
    (found : before.find? (·.name == name) = some function) :
    ∃ now, kept.find? (·.name == name) = some now ∧ Undisturbed node function now := by
  induction undisturbed with
  | nil => simp at found
  | @cons old new before kept undisturbed _ ih =>
      by_cases same : old.name = name
      · obtain rfl : old = function := by simpa [same] using found
        exact ⟨new, by simp [undisturbed.name, same], undisturbed⟩
      · rw [List.find?_cons_of_neg (by simpa using same)] at found
        rw [List.find?_cons_of_neg (by simpa [undisturbed.name] using same)]
        exact ih found

end Framed

/-- What an item leaves of a module has at least its functions. -/
theorem Framed.extends {before after : Module}
    (framed : Framed node before.functions after.functions) : after.Extends before := by
  rcases framed with ⟨kept, added, split, _, undisturbed⟩
  intro name function found
  rcases find?_of_undisturbed undisturbed found with ⟨now, present, undisturbed⟩
  refine ⟨now, ?_, undisturbed.params, undisturbed.returns⟩
  rw [Module.get?, split, List.find?_append, present]
  rfl

theorem GivesBody.framed {index : Nat} {built : Function}
    (gives : GivesBody state header index built after) (body : List Node) :
    Framed (.function header body) state.builder.module.functions
      after.builder.module.functions := by
  cases gives with
  | declared found named noBody name params returns functions =>
      rw [functions]
      refine ⟨_, [], by simp, by simp, forall₂_undisturbed_set found ⟨name, params, returns, ?_⟩⟩
      intro untouched
      exact absurd ⟨named.symm, noBody⟩ untouched
  | added unknown named last functions =>
      rw [functions]
      exact .append _ _ _

theorem GivesBody.name_eq {index : Nat} {built : Function}
    (gives : GivesBody state header index built after) : built.name = header.name := by
  cases gives with
  | declared found named noBody name params returns functions => exact name.trans named
  | added unknown named last functions => exact named

theorem GivesBody.found {index : Nat} {built : Function}
    (gives : GivesBody state header index built after) :
    after.builder.function? index = some built := by
  cases gives with
  | declared found named noBody name params returns functions =>
      rw [Builder.function?, functions, List.getElem?_set_self]
      exact (List.getElem?_eq_some_iff.mp found).1
  | added unknown named last functions =>
      rw [Builder.function?, functions, last]
      simp

theorem GivesBody.eq_or_mem {index : Nat} {built function : Function}
    (gives : GivesBody state header index built after)
    (stands : function ∈ after.builder.module.functions) :
    function = built ∨ function ∈ state.builder.module.functions := by
  cases gives with
  | declared found named noBody name params returns functions =>
      rw [functions] at stands
      exact (List.mem_or_eq_of_mem_set stands).symm
  | added unknown named last functions =>
      rw [functions] at stands
      simpa [or_comm] using stands

theorem Lowering.Effect.framed {result : EStateM.Result LoweringError LoweringState Nat}
    (effect : Effect state node result) :
    Framed node state.builder.module.functions (left result).builder.module.functions := by
  cases effect with
  | found found named => exact .refl _ _
  | declares unknown named noBody => exact .append _ _ _
  | fails => exact .refl _ _
  | completes gives hasBody verified => exact gives.framed _
  | leavesUnfinished opened gives => exact gives.framed _

namespace Lowering

theorem framed_item (describes : table.Describes state) (node : Node) :
    Framed node state.builder.module.functions
      (left (item node state)).builder.module.functions :=
  (effect_item describes node).framed

/-- A function stays where it is and keeps its name. -/
theorem name_items (describes : table.Describes state) {index : Nat} {function : Function}
    (found : state.builder.function? index = some function) (nodes : List Node) :
    ∃ now, (items state nodes).2.builder.function? index = some now ∧
      now.name = function.name := by
  induction nodes generalizing table state function with
  | nil => exact ⟨function, found, rfl⟩
  | cons node rest ih =>
      rcases (framed_item describes node).getElem? found with ⟨between, foundBetween, undisturbed⟩
      rcases ih (describes_left describes node) foundBetween with ⟨now, foundNow, sameName⟩
      rw [items_cons]
      exact ⟨now, foundNow, sameName.trans undisturbed.name⟩

/-- A function that has a body and has been verified stays as it is, and verified. -/
theorem verified_items (describes : table.Describes state) {index : Nat} {function : Function}
    (found : state.builder.function? index = some function)
    (hasBody : function.isDeclaration = false)
    (verified : state.builder.module.verify function = .ok ()) (nodes : List Node) :
    (items state nodes).2.builder.function? index = some function ∧
      (items state nodes).2.builder.module.verify function = .ok () := by
  induction nodes generalizing table state with
  | nil => exact ⟨found, verified⟩
  | cons node rest ih =>
      have framed := framed_item describes node
      rcases framed.getElem? found with ⟨now, foundNow, undisturbed⟩
      obtain rfl : now = function := undisturbed.same (by simp [hasBody])
      rw [items_cons]
      exact ih (describes_left describes node) foundNow
        (Module.verify_mono framed.extends verified)

/--
The function of a name has been left with an unfinished body: a definition of it was not
refused at once, and failed.
-/
def LeavesUnfinished (start : LoweringState) (nodes : List Node) (name : String) : Prop :=
  ∃ before header body rest error after, nodes = before ++ .function header body :: rest ∧
    header.name = name ∧ ¬ Refused (items start before).2.builder (.function header body) ∧
    item (.function header body) (items start before).2 = .error error after

theorem LeavesUnfinished.append {start : LoweringState} {nodes : List Node} {name : String}
    (unfinished : LeavesUnfinished start nodes name) (more : List Node) :
    LeavesUnfinished start (nodes ++ more) name := by
  rcases unfinished with ⟨before, header, body, rest, error, after, rfl, named, opened, failed⟩
  exact ⟨before, header, body, rest ++ more, error, after, by simp, named, opened, failed⟩

theorem verify_of_isDeclaration {module : Module} {function : Function}
    (noBody : function.isDeclaration = true) : module.verify function = .ok () := by
  rw [Module.verify, List.isEmpty_iff.mp noBody]
  rfl

/-- Every function is verified, or has been left unfinished. -/
def VerifiedOrUnfinished (start : LoweringState) (nodes : List Node) : Prop :=
  ∀ function ∈ (items start nodes).2.builder.module.functions,
    (items start nodes).2.builder.module.verify function = .ok () ∨
      LeavesUnfinished start nodes function.name

theorem VerifiedOrUnfinished.append {start : LoweringState} {nodes : List Node}
    (soFar : VerifiedOrUnfinished start nodes) (describes : table.Describes (items start nodes).2)
    (node : Node) : VerifiedOrUnfinished start (nodes ++ [node]) := by
  have split : (items start (nodes ++ [node])).2 = left (item node (items start nodes).2) := by
    rw [items_append, items_cons]
    rfl
  intro function stands
  rw [split] at stands ⊢
  have effect := effect_item describes node
  have kept : function ∈ (items start nodes).2.builder.module.functions →
      (left (item node (items start nodes).2)).builder.module.verify function = .ok () ∨
        LeavesUnfinished start (nodes ++ [node]) function.name := by
    intro stood
    rcases soFar function stood with verified | unfinished
    · exact .inl (Module.verify_mono effect.framed.extends verified)
    · exact .inr (unfinished.append [node])
  generalize lowered : item node (items start nodes).2 = result at *
  cases effect with
  | found found named => exact kept stands
  | declares unknown named noBody =>
      rcases List.mem_append.mp stands with stood | isNew
      · exact kept stood
      · rw [List.mem_singleton.mp isNew]
        exact .inl (verify_of_isDeclaration noBody)
  | fails => exact kept stands
  | completes gives hasBody verified =>
      rcases gives.eq_or_mem stands with rfl | stood
      · exact .inl verified
      · exact kept stood
  | leavesUnfinished opened gives =>
      rcases gives.eq_or_mem stands with rfl | stood
      · exact .inr ⟨nodes, _, _, [], _, _, rfl, gives.name_eq.symm, opened, lowered⟩
      · exact kept stood

theorem verified_or_unfinished (moduleName : String) (nodes : List Node) :
    VerifiedOrUnfinished (.new (.new moduleName)) nodes := by
  induction nodes using List.reverseRecOn with
  | nil =>
      intro function impossible
      exact absurd impossible List.not_mem_nil
  | append_singleton nodes node ih =>
      exact ih.append (describes_items (describes_new moduleName) nodes) node

theorem verify_eq_ok {builder : Builder} {index : Nat} {function : Function}
    (found : builder.function? index = some function)
    (verified : builder.module.verify function = .ok ()) : builder.verify index = .ok () := by
  rw [Builder.verify, found]
  simp [verified]

/-- A function that was there on the way is verified in the end, or has been left unfinished. -/
theorem verify_or_unfinished_of_found {moduleName : String} {before : List Node} {index : Nat}
    {function : Function}
    (found : (items (.new (.new moduleName)) before).2.builder.function? index = some function)
    (nodes : List Node) :
    (items (.new (.new moduleName)) (before ++ nodes)).2.builder.verify index = .ok () ∨
      LeavesUnfinished (.new (.new moduleName)) (before ++ nodes) function.name := by
  have describes := describes_items (describes_new moduleName) before
  rcases name_items describes found nodes with ⟨now, present, sameName⟩
  rw [← items_append] at present
  rcases verified_or_unfinished moduleName _ now (List.mem_of_getElem? present) with
    verified | unfinished
  · exact .inl (verify_eq_ok present verified)
  · rw [sameName] at unfinished
    exact .inr unfinished

/--
Whatever items have been lowered, one more leaves the functions that are there as they
are, up to a body for the one that it defines, and adds at most one behind them. If it is
refused at once then nothing has changed, but a reader is told why. If it succeeds then its
function is verified in the end, whatever follows; only a function that the item has declared
may be given a body that fails.
-/
theorem earlier_functions_undisturbed (moduleName : String) (before : List Node) (node : Node)
    (rest : List Node) :
    let start := LoweringState.new (.new moduleName)
    let state := (items start before).2
    let final := (items start (before ++ node :: rest)).2
    Framed node state.builder.module.functions
        (items start (before ++ [node])).2.builder.module.functions ∧
      (Refused state.builder node → ∃ failure : LoweringFailure,
        item node state = .error failure.cause (state.tell (failure.remarks .nowhere))) ∧
      ∀ index after, item node state = .ok index after →
        final.builder.verify index = .ok () ∨
          ∃ header, node = .signature header ∧
            LeavesUnfinished start (before ++ node :: rest) header.name := by
  intro start state final
  have describes := describes_items (describes_new moduleName) before
  have effect := effect_item describes node
  refine ⟨?_, ?_, ?_⟩
  · rw [items_append, items_cons]
    exact effect.framed
  · exact item_of_refused describes
  · intro index after lowered
    have after_eq : (items start (before ++ [node])).2 = after := by
      rw [items_append, items_cons, lowered]
      rfl
    have described := describes_items (describes_new moduleName) (before ++ [node])
    rw [after_eq] at described
    -- a function of a signature may still be given a body by what follows
    have of_signature : ∀ header function, node = .signature header →
        after.builder.function? index = some function → function.name = header.name →
        final.builder.verify index = .ok () ∨ ∃ header, node = .signature header ∧
          LeavesUnfinished start (before ++ node :: rest) header.name := by
      intro header function isSignature found named
      rw [← after_eq] at found
      have settled := verify_or_unfinished_of_found found rest
      rw [List.append_assoc, named] at settled
      exact settled.imp_right fun unfinished => ⟨header, isSignature, unfinished⟩
    rw [lowered] at effect
    cases effect with
    | found found named => exact of_signature _ _ rfl found named
    | declares unknown named noBody =>
        refine of_signature _ _ rfl ?_ named
        simp [Builder.function?, LoweringState.declare]
    | completes gives hasBody verified =>
        rcases verified_items described gives.found hasBody verified rest with ⟨present, verified⟩
        rw [← after_eq, ← items_append, List.append_assoc] at present verified
        exact .inl (verify_eq_ok present verified)

/-- A function is declared, and then defined with a name that stands for nothing. -/
def declaredThenMisdefined : List Node :=
  [.signature ⟨"f", ["int"], []⟩, .function ⟨"f", ["int"], []⟩ [.ret [.var ⟨"x", none⟩]]]

theorem unfinished_although_declared :
    (items (.new (.new "m")) declaredThenMisdefined).1[0]? = some (.ok 0) ∧
      (items (.new (.new "m")) declaredThenMisdefined).2.builder.verify 0 =
        .error (.inr (.missingTerminator "entry" "f")) :=
  ⟨rfl, rfl⟩

end Lowering

end Tuplet
