import Tuplet.Proofs.Resemblance

/-!
# Bodies are lowered in isolation

Two programs that differ in the body of one definition are lowered side by side. Up to
the definition the two states are the same. The definition may come out differently, but
it leaves two states that differ in nothing but the body of its function, which has one in
both of them. From there on each item goes alike in both states, so the difference stays
where it is.
-/

namespace Tuplet

open Ir (Builder Function Module)

namespace Lowering

/-- Two states between items differ at most in the body of the function of a name. -/
structure DifferInBody (name : String) (first second : LoweringState) : Prop where
  described : ∃ table : FunctionTable, table.Describes first ∧ table.Describes second
  resembles : first.builder.module.Resembles second.builder.module
  same : ∀ index function, first.builder.function? index = some function →
    function.name ≠ name → second.builder.function? index = some function

variable {table : FunctionTable} {first second : LoweringState} {header : Signature}
  {name : String}

/-- What has been told does not matter. -/
theorem DifferInBody.withLog (differ : DifferInBody name first second)
    (log logToo : List Diagnostic) :
    DifferInBody name (first.withLog log) (second.withLog logToo) := by
  rcases differ with ⟨⟨table, describes, describesToo⟩, resembles, same⟩
  exact ⟨⟨table, describes.withLog log, describesToo.withLog logToo⟩, resembles, same⟩

theorem DifferInBody.refl (describes : table.Describes first) (name : String) :
    DifferInBody name first first :=
  ⟨⟨table, describes, describes⟩, rfl, fun _ _ found _ => found⟩

/-- One table says of both states which functions have bodies. -/
theorem sameBodied_of_describes (describes : table.Describes first)
    (describesToo : table.Describes second) (name : String) : SameBodied name first second := by
  intro index found
  rcases Known.lookup_cases describes.functions name with
    ⟨_, notFound⟩ | ⟨known, place, function, _, here, listed, present, _, describesFunction⟩
  · cases found.symm.trans notFound
  · cases found.symm.trans here
    have sameLength := describes.functions.length_eq.symm.trans describesToo.functions.length_eq
    have bounded := (List.getElem?_eq_some_iff.mp present).1
    rw [sameLength] at bounded
    have presentToo := List.getElem?_eq_getElem bounded
    rcases Lookup.getElem?_of_forall₂ describesToo.functions presentToo with
      ⟨knownToo, listedToo, describesToo⟩
    cases listed.symm.trans listedToo
    simp [Builder.hasBody, Builder.function?, present, presentToo, describesFunction.bodied,
      describesToo.bodied]

/-- An item goes alike in both states. -/
theorem DifferInBody.alike (differ : DifferInBody name first second) (node : Node) :
    GoesAlike first second (item node first) (item node second) := by
  rcases differ with ⟨⟨table, describes, describesToo⟩, resembles, same⟩
  exact item_alike describes describesToo resembles node
    fun defined _ => sameBodied_of_describes describes describesToo defined

/-- An item leaves the difference where it is. -/
theorem DifferInBody.item (differ : DifferInBody name first second) (node : Node) :
    DifferInBody name (left (item node first)) (left (item node second)) := by
  have alike := differ.alike node
  rcases differ with ⟨⟨table, describes, describesToo⟩, resembles, same⟩
  refine ⟨?_, alike.edited.map_bare_eq resembles, ?_⟩
  · exact ⟨table.after node, describes_left describes node, describes_left describesToo node⟩
  · intro index function present otherName
    rcases alike.edited index with ⟨firstKept, secondKept⟩ | now
    · exact secondKept.trans (same index function (firstKept.symm.trans present) otherName)
    · exact now.symm.trans present

/-- Whatever items follow, they go alike in both states. -/
theorem DifferInBody.items (differ : DifferInBody name first second) (nodes : List Node) :
    (items first nodes).1 = (items second nodes).1 ∧
      tellings first nodes = tellings second nodes ∧
      DifferInBody name (items first nodes).2 (items second nodes).2 := by
  induction nodes generalizing first second with
  | nil => exact ⟨rfl, rfl, differ⟩
  | cons node rest ih =>
      have alike := differ.alike node
      rcases ih (differ.item node) with ⟨sameResults, sameTellings, finallyDiffer⟩
      rw [results_cons, results_cons, items_cons, items_cons, tellings, tellings,
        alike.outcome_eq, alike.told_eq, sameResults, sameTellings]
      exact ⟨rfl, rfl, finallyDiffer⟩

/-- Whether or not a body could be completed, the state has been closed at some draft. -/
theorem left_completing (site : Site) (header : Signature)
    (lowered : Draft × Except LoweringFailure Unit) :
    ∃ draft log, left (site.completing header lowered) = (site.closed draft).withLog log := by
  rcases lowered with ⟨draft, failure | _⟩
  · exact ⟨draft, _, rfl⟩
  · refine ⟨draft.finished header, ?_⟩
    simp only [Site.completing]
    split
    · exact ⟨site.log, rfl⟩
    · exact ⟨_, rfl⟩

theorem differInBody_closed {known : Known} {index : Nat} {function : Function}
    (ready : table.Ready first header known index function) (draft other : Draft) :
    DifferInBody header.name (ready.site.closed draft) (ready.site.closed other) where
  described := ⟨_, ready.describes_closed draft, ready.describes_closed other⟩
  resembles := by
    have closed : ∀ draft : Draft,
        (ready.site.closed draft).builder.module.functions.map Function.bare =
          (first.builder.module.functions.map Function.bare).set index function.bare := by
      intro draft
      exact List.map_set
    exact (closed draft).trans (closed other).symm
  same := by
    intro place present found otherName
    have bounded : index < first.builder.module.functions.length :=
      (List.getElem?_eq_some_iff.mp ready.found).1
    have elsewhere : index ≠ place := by
      rintro rfl
      have filled : draft.fill function = present :=
        Option.some.inj ((ready.site.function?_closed draft).symm.trans found)
      apply otherName
      rw [← filled]
      exact ready.function?.name.trans ready.named
    have closed : ∀ draft : Draft, (ready.site.closed draft).builder.function? place =
        first.builder.function? place := by
      intro draft
      exact List.getElem?_set_ne elsewhere
    rw [closed] at found ⊢
    exact found

/-- Two definitions of a function that differ in their bodies leave no other difference. -/
theorem differInBody_function (describes : table.Describes first) (header : Signature)
    (body other : List Node) :
    DifferInBody header.name (left (Lowering.item (.function header body) first))
      (left (Lowering.item (.function header other) first)) := by
  -- nothing but the log is touched when the error of a function is passed on
  rcases left_inside (.function header.name) (Lowering.function header body) first with ⟨log, same⟩
  rcases left_inside (.function header.name) (Lowering.function header other) first with
    ⟨logToo, sameToo⟩
  rw [Lowering.item, Lowering.item, same, sameToo]
  apply DifferInBody.withLog
  cases defined : definedFunction header first with
  | error error after =>
      have failed : ∀ body, Lowering.function header body first = .error error after :=
        fun _ => Result.bind_of_error defined
      rw [failed, failed]
      rcases @definedFunction_cases _ _ header describes with
        ⟨_, _, _, _, _, definedSo, _⟩ | ⟨_, failure, failedSo⟩
      · cases defined.symm.trans definedSo
      · cases defined.symm.trans failedSo
        exact (DifferInBody.refl describes header.name).withLog _ _
  | ok index declared =>
      rcases exists_ready describes defined with ⟨known, function, ready⟩
      rw [function_eq defined ready body, function_eq defined ready other]
      rcases left_completing ready.site header
        (Emission.body (table.declare header).around header.params body .empty) with
        ⟨draft, log, closed⟩
      rcases left_completing ready.site header
        (Emission.body (table.declare header).around header.params other .empty) with
        ⟨draftToo, logToo, closedToo⟩
      rw [closed, closedToo]
      exact (differInBody_closed ready draft draftToo).withLog log logToo

/--
Where two programs differ in the body of one definition, all other items come out in the
same way, with the same to tell a reader if they fail. The modules have the same functions
up to their bodies, and all functions but the one that is defined there are the same.
-/
theorem bodies_isolated (moduleName : String) (before rest : List Node) (header : Signature)
    (body other : List Node) :
    let start := LoweringState.new (.new moduleName)
    let program := fun body => before ++ .function header body :: rest
    let first := items start (program body)
    let second := items start (program other)
    (∀ body, (items start (program body)).1.length = (program body).length ∧
        (items start (program body)).2.log = (tellings start (program body)).flatten) ∧
      (∀ index, index ≠ before.length → first.1[index]? = second.1[index]? ∧
        (tellings start (program body))[index]? = (tellings start (program other))[index]?) ∧
      first.2.builder.module.Resembles second.2.builder.module ∧
      ∀ index function, first.2.builder.function? index = some function →
        function.name ≠ header.name → second.2.builder.function? index = some function := by
  intro start program first second
  have describes := describes_items (describes_new moduleName) before
  have differ := differInBody_function describes header body other
  rcases differ.items rest with ⟨sameResults, sameTellings, finallyDiffer⟩
  have final : ∀ body, (items start (program body)).2 =
      (items (left (Lowering.item (.function header body) (items start before).2)) rest).2 := by
    intro body
    rw [items_append, items_cons]
  refine ⟨?_, ?_, ?_⟩
  · intro body
    exact ⟨length_results start _, log_items start _⟩
  · intro index elsewhere
    constructor
    · rw [← length_results start before] at elsewhere
      simp only [first, second, program, results_append, results_cons]
      rw [sameResults]
      exact Lookup.getElem?_append_cons_of_ne _ _ _ _ elsewhere
    · rw [← length_tellings start before] at elsewhere
      simp only [program, tellings_append, tellings]
      rw [sameTellings]
      exact Lookup.getElem?_append_cons_of_ne _ _ _ _ elsewhere
  · simp only [first, second, final]
    exact ⟨finallyDiffer.resembles, finallyDiffer.same⟩

end Lowering

end Tuplet
