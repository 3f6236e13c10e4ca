import Tuplet.Proofs.FailureCauses
import Tuplet.Proofs.Reporting

/-!
# No source misplaces a node

The items that are read from a source are lowered, also if reading has come to an error behind
them. Since they come from a source, no item fails because of a misplaced node, and no reader is
told of one. A misplaced node is told of by the form of the node or by what was expected in its
place, and nothing else of the same category begins like this.
-/

namespace Tuplet

/-- How messages about misplaced nodes begin: with what was expected, or with a form. -/
def misplacedOpenings : List (List Char) :=
  [['e', 'x'], ['l', 'i'], ['v', 'a'], ['b', 'i'], ['c', 'a'], ['a', 's'], ['d', 'e'],
    ['s', 'i'], ['f', 'u'], ['r', 'e'], ['p', 'a']]

/-- A text begins as its first part does. -/
theorem opening_append {first rest : String} {opening : List Char}
    (begins : first.toList.take 2 = opening) (long : opening.length = 2) :
    (first ++ rest).toList.take 2 = opening := by
  have enough : 2 ≤ first.toList.length := by
    rw [← begins, List.length_take] at long
    omega
  rw [String.toList_append, List.take_append_of_le_length enough, begins]

theorem Form.opening_append_mem (form : Form) (rest : String) :
    (form.describe ++ rest).toList.take 2 ∈ misplacedOpenings := by
  have listed : form.describe.toList.take 2 ∈ misplacedOpenings := by
    cases form <;> decide
  have long : ∀ opening ∈ misplacedOpenings, opening.length = 2 := by decide
  rw [opening_append rfl (long _ listed)]
  exact listed

theorem LoweringContext.opening_eq (context : LoweringContext) :
    context.message.toList.take 2 = ['f', 'a'] := by
  cases context with
  | function name => exact opening_append (opening_append (by decide) rfl) rfl
  | declaring name => exact opening_append (opening_append (by decide) rfl) rfl
  | statement form => exact opening_append (by decide) rfl
  | assignedValue => decide
  | argument position name =>
      exact opening_append (opening_append (opening_append (opening_append (by decide) rfl) rfl)
        rfl) rfl

namespace LoweringError

variable {error : LoweringError}

theorem category_of_misplaces (misplaces : error.Misplaces) : Fault.category error = .type := by
  cases error with
  | notAFunction | notAStatement | notAValue => rfl
  | _ => cases misplaces

theorem opening_of_misplaces (misplaces : error.Misplaces) :
    (Fault.message error).toList.take 2 ∈ misplacedOpenings := by
  cases error with
  | notAFunction form =>
      have begins : (Fault.message (notAFunction form)).toList.take 2 = ['e', 'x'] :=
        opening_append (by decide) rfl
      rw [begins]
      decide
  | notAStatement form => exact form.opening_append_mem _
  | notAValue form => exact form.opening_append_mem _
  | _ => cases misplaces

theorem opening_notMem (placed : ¬ error.Misplaces) (isType : Fault.category error = .type) :
    (Fault.message error).toList.take 2 ∉ misplacedOpenings := by
  cases error with
  | notAFunction | notAStatement | notAValue => exact absurd trivial placed
  | noResult function =>
      have quoted : Fault.message (noResult function) =
          "'" ++ function ++ "' returns void and has no value" := rfl
      rw [quoted, String.toList_append, String.toList_append]
      simp [misplacedOpenings]
  | build error =>
      cases error with
      | stringUnsupported | voidHasNoValues => decide
      | _ => cases isType
  | _ => cases isType

end LoweringError

theorem Grammar.category_of_told {tokens : List Token} {stop : Token} {diagnostic : Diagnostic}
    (told : diagnostic ∈ (program tokens).diagnostics stop) : diagnostic.category = .grammar := by
  have candid := candid_program tokens
  cases ended : (program tokens).error? with
  | none =>
      rw [candid.diagnostics_eq_nil ended] at told
      cases told
  | some error => exact (candid.tellsOf ended stop).category_eq diagnostic told

theorem Failure.not_told_of_misplaced {failure : LoweringFailure} {diagnostic : Diagnostic}
    {error : LoweringError} (placed : ¬ failure.cause.Misplaces)
    (told : diagnostic ∈ failure.remarks .nowhere) (misplaces : error.Misplaces)
    (sameCategory : diagnostic.category = Fault.category error) :
    diagnostic.message ≠ Fault.message error := by
  intro sameMessage
  have listed := error.opening_of_misplaces misplaces
  rw [LoweringError.category_of_misplaces misplaces] at sameCategory
  rw [← sameMessage] at listed
  rcases List.mem_cons.mp told with rfl | told
  · exact LoweringError.opening_notMem placed sameCategory listed
  · rcases List.mem_map.mp told with ⟨context, _, rfl⟩
    have begins : (Context.message context).toList.take 2 = ['f', 'a'] := context.opening_eq
    rw [Remark.ofContext, begins] at listed
    exact absurd listed (by decide)

/--
Whatever the source is, the items that are read from it are signatures and functions. Only values
stand where values belong and only statements in bodies, names are plain, types are plain, and
literals have no sign. So no item fails because of a misplaced node, and no diagnostic tells of
one.
-/
theorem parsed_trees_well_placed (moduleName source : String) :
    (∀ node ∈ (Grammar.program (tokenize source)).items, node.SourceItem) ∧
      (∀ error, .error error ∈ (compile moduleName source).functions → ¬ error.Misplaces) ∧
      ∀ diagnostic ∈ (compile moduleName source).diagnostics,
        ∀ error : LoweringError, error.Misplaces →
          ¬ (diagnostic.category = Fault.category error ∧
            diagnostic.message = Fault.message error) := by
  let reading := Grammar.program (tokenize source)
  have areItems : ∀ node ∈ reading.items, node.SourceItem :=
    fun node isRead => Grammar.sourceItem_of_mem_program isRead
  have placed : ∀ error,
      .error error ∈ (Lowering.items (.new (.new moduleName)) reading.items).1 →
        ¬ error.Misplaces :=
    fun error failed =>
      (Lowering.excusable_of_items (Lowering.describes_new moduleName) failed).place areItems
  refine ⟨areItems, ?_, ?_⟩
  · intro error failed
    rw [compile_functions] at failed
    exact placed error failed
  · rintro diagnostic told error misplaces ⟨sameCategory, sameMessage⟩
    rw [compile_diagnostics] at told
    rcases List.mem_append.mp told with told | told
    · rw [Grammar.category_of_told told, LoweringError.category_of_misplaces misplaces]
        at sameCategory
      cases sameCategory
    · rcases Lowering.exists_failure_of_told told with ⟨failure, failed, told⟩
      exact Failure.not_told_of_misplaced (placed failure.cause failed) told misplaces
        sameCategory sameMessage

/-- A source with items of both kinds and all kinds of values, behind which reading fails. -/
def mixed : String :=
  "int g(int a); (int, float) f(int a) \x7b int b = a * (g(a) + 1); g(b); return b, 2; \x7d int 3"

theorem parsed_trees_well_placed_mixed :
    (Grammar.program (tokenize mixed)).items.length = 2 ∧
      (compile "m" mixed).parseError.isSome = true ∧
      (∀ node ∈ (Grammar.program (tokenize mixed)).items, node.SourceItem) ∧
      ∀ error, .error error ∈ (compile "m" mixed).functions → ¬ error.Misplaces := by
  have placed := parsed_trees_well_placed "m" mixed
  exact ⟨by decide +kernel, by decide +kernel, placed.1, placed.2.1⟩

end Tuplet
