import Tuplet.Proofs.LoweringLog
import Tuplet.Proofs.ReadingLog

/-!
# What a report tells its reader

Errors are told in groups. The first diagnostic of a group is the error itself, and the
others name what it happened inside: they stand at the same position and have the same
category. A report has one group for each error and nothing besides, so nothing fails
without being told of and nothing is told of what succeeds.

Nothing in a report sees to this. Its errors are what reading and lowering hand on, and its
diagnostics are what they have written to the log by then. That the two agree is what
each rule of the grammar and each step of lowering has been shown to keep.
-/

namespace Tuplet

/-- Some diagnostics tell of the errors among the results of items, one after the other. -/
inductive TellsOfAll : List (Except LoweringError Nat) → List Diagnostic → Prop
  | nil : TellsOfAll [] []
  | ok {index : Nat} {results : List (Except LoweringError Nat)} {told : List Diagnostic}
      (others : TellsOfAll results told) : TellsOfAll (.ok index :: results) told
  | error {error : LoweringError} {results : List (Except LoweringError Nat)}
      {group told : List Diagnostic} (tells : TellsOf LoweringContext error .nowhere group)
      (others : TellsOfAll results told) : TellsOfAll (.error error :: results) (group ++ told)

/-- Whatever items are lowered from a state, what they tell is of those among them that fail. -/
theorem Lowering.tellsOfAll_items (state : LoweringState) (nodes : List Node) :
    TellsOfAll (items state nodes).1 (tellings state nodes).flatten := by
  induction nodes generalizing state with
  | nil => exact .nil
  | cons node rest ih =>
      rw [results_cons, tellings, List.flatten_cons]
      rcases told_cases state node with ⟨index, succeeded, nothing⟩ | ⟨failure, failed, told⟩
      · rw [succeeded, nothing]
        exact .ok (ih _)
      · rw [failed, told]
        exact .error (failure.tellsOf Position.nowhere) (ih _)

theorem TellsOfAll.eq_nil_iff {results : List (Except LoweringError Nat)}
    {told : List Diagnostic} (tells : TellsOfAll results told) :
    told = [] ↔ ∀ error, .error error ∉ results := by
  induction tells with
  | nil => simp
  | ok others ih => simp [ih]
  | @error error results group told tells others ih =>
      constructor
      · intro empty
        exact absurd (List.append_eq_nil_iff.mp empty).1 tells.ne_nil
      · intro noError
        exact absurd List.mem_cons_self (noError error)

theorem Report.failed_eq_zero_iff (report : Report) :
    report.failed = 0 ↔ ∀ error, .error error ∉ report.functions := by
  rw [failed, List.countP_eq_zero]
  constructor
  · intro succeeded error stands
    exact succeeded _ stands rfl
  · intro noError result stands failed
    cases result with
    | ok index => cases failed
    | error error => exact noError error stands

/-- Some diagnostics tell of the error that ended the reading of items, if one did. -/
def TellsOfReading (error? : Option GrammarError) (told : List Diagnostic) : Prop :=
  match error? with
  | none => told = []
  | some error => ∃ position, TellsOf Construct error position told ∧
      ∀ diagnostic ∈ told, diagnostic.category = .grammar

theorem ProgramReading.Candid.tellsOfReading {reading : ProgramReading}
    (candid : reading.Candid) (stop : Token) :
    TellsOfReading reading.error? (reading.diagnostics stop) := by
  cases ended : reading.error? with
  | none => exact candid.diagnostics_eq_nil ended stop
  | some error =>
      have tells := candid.tellsOf ended stop
      exact ⟨_, tells, tells.category_eq⟩

theorem TellsOfReading.eq_nil_iff {error? : Option GrammarError} {told : List Diagnostic}
    (tells : TellsOfReading error? told) : told = [] ↔ error? = none := by
  cases error? with
  | none => exact ⟨fun _ => rfl, fun _ => tells⟩
  | some error =>
      rcases tells with ⟨position, tells, _⟩
      simp [tells.ne_nil]

/--
What a report tells is a group for the error that ended the reading of items, if one did,
and then a group for each item that could not be lowered, in the order of the items. So
everything was read and lowered exactly where nothing is told.
-/
theorem diagnostics_tell_errors (moduleName source : String) :
    ∃ grammar lowering, (compile moduleName source).diagnostics = grammar ++ lowering ∧
      TellsOfReading (compile moduleName source).parseError grammar ∧
      TellsOfAll (compile moduleName source).functions lowering ∧
      ((compile moduleName source).isOk = true ↔
        (compile moduleName source).diagnostics = []) := by
  let reading := Grammar.program (tokenize source)
  have tellsReading : TellsOfReading (compile moduleName source).parseError _ :=
    (Grammar.candid_program (tokenize source)).tellsOfReading (Token.endOf (tokenize source))
  have tellsAll := Lowering.tellsOfAll_items (.new (.new moduleName)) reading.items
  have functions : (compile moduleName source).functions = _ := compile_functions moduleName source
  have told := compile_diagnostics moduleName source
  refine ⟨_, _, told, tellsReading, functions ▸ tellsAll, ?_⟩
  calc (compile moduleName source).isOk = true
      ↔ (compile moduleName source).parseError = none ∧
          (compile moduleName source).failed = 0 := by
        rw [Report.isOk, Bool.and_eq_true, Option.isNone_iff_eq_none, decide_eq_true_eq]
    _ ↔ reading.diagnostics (Token.endOf (tokenize source)) = [] ∧
          (Lowering.tellings (.new (.new moduleName)) reading.items).flatten = [] := by
        rw [tellsReading.eq_nil_iff, tellsAll.eq_nil_iff, Report.failed_eq_zero_iff, functions]
        rfl
    _ ↔ (compile moduleName source).diagnostics = [] := by
        rw [told]
        exact List.append_eq_nil_iff.symm

end Tuplet
