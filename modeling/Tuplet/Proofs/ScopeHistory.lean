import Mathlib.Data.List.Induction
import Tuplet.Lower.Scope
import Tuplet.Proofs.Lookup
import Tuplet.Proofs.Result

/-!
# A scope and its history

What a name stands for can be told from the steps that have led to a scope, without looking at
frames. It is what the name was last bound to, among the bindings whose frames are still open.
Which frame a binding has gone to need not be known either. It was the innermost one at that
moment, so it is enough to count the frames that have been put on top of it since.

A pop does not only close a frame, it also shows the frames below. Hence the invariant of a run
speaks of all frames: of those that are left when any number of the innermost ones is dropped.
-/

namespace Tuplet

namespace Scope

variable {α : Type}

/-- A change of a scope. -/
inductive Step (α : Type) where
  | push
  | pop
  | bind (name : String) (location : α)

def Step.isPop : Step α → Bool
  | .pop => true
  | _ => false

/-- Makes one step. -/
def apply (scope : Scope α) : Step α → Except ScopeError (Scope α)
  | .push => .ok scope.push
  | .pop => scope.pop
  | .bind name location => .ok (scope.bind name location)

/-- The scope that some steps lead to, from one without frames. -/
def ofHistory (history : List (Step α)) : Except ScopeError (Scope α) :=
  history.foldlM apply empty

/-- How many frames are above a frame after some steps, unless it has been closed. -/
def above? (above : Nat) : List (Step α) → Option Nat
  | [] => some above
  | .push :: rest => above? (above + 1) rest
  | .pop :: rest =>
      match above with
      | 0 => none
      | above + 1 => above? above rest
  | .bind _ _ :: rest => above? above rest

/-- Whether the frame that was the innermost one before some steps is still open after them. -/
def spares (steps : List (Step α)) : Bool := (above? 0 steps).isSome

/-- A step of a history, with the steps before and behind it. -/
structure Moment (α : Type) where
  before : List (Step α)
  step : Step α
  after : List (Step α)

/-- All moments of a history in order. -/
def moments : List (Step α) → List (Moment α)
  | [] => []
  | step :: rest =>
      ⟨[], step, rest⟩ :: (moments rest).map fun moment =>
        { moment with before := step :: moment.before }

/-- Whether a frame is open. Then it has been pushed, or something has been bound in it. -/
def hasFrame (history : List (Step α)) : Bool :=
  (moments history).any fun moment => !moment.step.isPop && spares moment.after

/-- Whether a frame is opened: by a push, or by binding a name while there is no frame. -/
def Moment.opens (moment : Moment α) : Bool :=
  match moment.step with
  | .push => true
  | .pop => false
  | .bind _ _ => !hasFrame moment.before

/-- How many frames have been opened and not been closed since. -/
def openFrames (history : List (Step α)) : Nat :=
  (moments history).countP fun moment => moment.opens && spares moment.after

section Moments

variable {history : List (Step α)} {moment : Moment α}

theorem mem_moments :
    moment ∈ moments history ↔ history = moment.before ++ moment.step :: moment.after := by
  induction history generalizing moment with
  | nil => simp [moments]
  | cons step rest ih =>
      rcases moment with ⟨before, single, after⟩
      rw [moments, List.mem_cons, List.mem_map]
      constructor
      · rintro (first | ⟨later, present, same⟩)
        · cases first
          rfl
        · cases same
          rw [ih.mp present]
          rfl
      · intro split
        cases before with
        | nil =>
            cases split
            exact .inl rfl
        | cons first others =>
            rcases List.cons.inj split with ⟨rfl, split⟩
            exact .inr ⟨⟨others, single, after⟩, ih.mpr split, rfl⟩

theorem moments_append_singleton (history : List (Step α)) (step : Step α) :
    moments (history ++ [step]) =
      ((moments history).map fun moment => { moment with after := moment.after ++ [step] }) ++
        [⟨history, step, []⟩] := by
  induction history with
  | nil => rfl
  | cons first rest ih => simp [moments, ih]

end Moments

/-- How many frames have to be above a frame before a step, for so many to be above it then. -/
def Step.needed (least : Nat) : Step α → Nat
  | .push => least - 1
  | .pop => least + 1
  | .bind _ _ => least

/-- What a step binds. -/
def Step.bound : Step α → List (String × α)
  | .bind name location => [(name, location)]
  | _ => []

/-- Whether a frame is open after some steps and has at least so many frames above it. -/
def isBelow (least : Nat) (steps : List (Step α)) : Bool := (above? 0 steps).any (least ≤ ·)

/-- The bindings in frames with at least so many frames above them, the latest one first. -/
def bindings (least : Nat) : List (Step α) → List (String × α)
  | [] => []
  | step :: rest => bindings least rest ++ if isBelow least rest then step.bound else []

/-- How many of the open frames have at least so many frames above them. -/
def openBelow (least : Nat) (history : List (Step α)) : Nat :=
  (moments history).countP fun moment => moment.opens && isBelow least moment.after

/-- Whether there is a frame with at least so many frames above it. -/
def hasFrameBelow (least : Nat) (history : List (Step α)) : Bool :=
  (moments history).any fun moment => !moment.step.isPop && isBelow least moment.after

section Below

variable {least : Nat} {history : List (Step α)} {name : String} {location : α}

theorem above?_append (above : Nat) (steps more : List (Step α)) :
    above? above (steps ++ more) = (above? above steps).bind (above? · more) := by
  induction steps generalizing above with
  | nil => rfl
  | cons step rest ih =>
      cases step with
      | push => exact ih (above + 1)
      | bind name location => exact ih above
      | pop =>
          cases above with
          | zero => rfl
          | succ above => exact ih above

theorem isBelow_nil (least : Nat) : isBelow least ([] : List (Step α)) = decide (least = 0) := by
  simp [isBelow, above?]

theorem isBelow_append_singleton (least : Nat) (steps : List (Step α)) (step : Step α) :
    isBelow least (steps ++ [step]) = isBelow (step.needed least) steps := by
  rw [isBelow, isBelow, above?_append]
  cases above? 0 steps with
  | none => rfl
  | some above =>
      cases step with
      | push => simp [above?, Step.needed]
      | bind name location => rfl
      | pop => cases above <;> simp [above?, Step.needed]

theorem isBelow_zero (steps : List (Step α)) : isBelow 0 steps = spares steps := by
  rw [isBelow, spares]
  cases above? 0 steps <;> simp

theorem openBelow_zero (history : List (Step α)) : openBelow 0 history = openFrames history := by
  simp only [openBelow, openFrames, isBelow_zero]

theorem hasFrameBelow_zero (history : List (Step α)) :
    hasFrameBelow 0 history = hasFrame history := by
  simp only [hasFrameBelow, hasFrame, isBelow_zero]

theorem bindings_append_singleton (least : Nat) (history : List (Step α)) (step : Step α) :
    bindings least (history ++ [step]) =
      (if least = 0 then step.bound else []) ++ bindings (step.needed least) history := by
  induction history with
  | nil => simp [bindings, isBelow_nil]
  | cons first rest ih => simp [bindings, ih, isBelow_append_singleton]

theorem openBelow_append_singleton (least : Nat) (history : List (Step α)) (step : Step α) :
    openBelow least (history ++ [step]) = openBelow (step.needed least) history +
      if (Moment.mk history step []).opens && decide (least = 0) then 1 else 0 := by
  rw [openBelow, moments_append_singleton, List.countP_append, List.countP_map,
    List.countP_singleton, isBelow_nil, openBelow]
  simp only [← isBelow_append_singleton]
  rfl

theorem hasFrameBelow_append_singleton (least : Nat) (history : List (Step α)) (step : Step α) :
    hasFrameBelow least (history ++ [step]) =
      (hasFrameBelow (step.needed least) history || (!step.isPop && decide (least = 0))) := by
  rw [hasFrameBelow, moments_append_singleton, List.any_append, List.any_map, List.any_cons,
    List.any_nil, isBelow_nil, Bool.or_false, hasFrameBelow]
  simp only [← isBelow_append_singleton]
  rfl

theorem mem_bindings : (name, location) ∈ bindings least history ↔
    ∃ before after, history = before ++ .bind name location :: after ∧
      isBelow least after = true := by
  induction history with
  | nil => simp [bindings]
  | cons step rest ih =>
      have bound : (name, location) ∈ step.bound ↔ step = .bind name location := by
        cases step <;> simp [Step.bound, eq_comm]
      have here : (name, location) ∈ bindings least (step :: rest) ↔
          (name, location) ∈ bindings least rest ∨
            isBelow least rest = true ∧ step = .bind name location := by
        rw [bindings, List.mem_append, ← bound]
        split <;> simp_all
      rw [here, ih]
      constructor
      · rintro (⟨before, after, rfl, below⟩ | ⟨below, rfl⟩)
        · exact ⟨step :: before, after, rfl, below⟩
        · exact ⟨[], rest, rfl, below⟩
      · rintro ⟨_ | ⟨first, before⟩, after, split, below⟩
        · cases split
          exact .inr ⟨below, rfl⟩
        · cases split
          exact .inl ⟨before, after, rfl, below⟩

theorem lookup_bindings_eq_none_iff : (bindings 0 history).lookup name = none ↔
    ∀ before location after, history = before ++ .bind name location :: after →
      spares after = false := by
  rw [List.lookup_eq_none_iff]
  constructor
  · intro absent before location after split
    rw [← Bool.not_eq_true, ← isBelow_zero]
    intro below
    have differs := absent _ (mem_bindings.mpr ⟨before, after, split, below⟩)
    simp at differs
  · rintro closed ⟨other, location⟩ present
    rw [bne_iff_ne]
    rintro rfl
    rcases mem_bindings.mp present with ⟨before, after, split, below⟩
    rw [isBelow_zero, closed before location after split] at below
    cases below

/-- What was bound last is found first. -/
theorem lookup_bindings_eq_some_iff : (bindings 0 history).lookup name = some location ↔
    ∃ before after, history = before ++ .bind name location :: after ∧ spares after = true ∧
      ∀ between other rest, after = between ++ .bind name other :: rest → spares rest = false := by
  induction history with
  | nil => simp [bindings]
  | cons step rest ih =>
      rw [bindings, List.lookup_append, isBelow_zero]
      cases found : (bindings 0 rest).lookup name with
      | some other =>
          -- there is a binding behind the first step, so the first step does not matter
          rw [Option.some_or, ← found, ih]
          constructor
          · rintro ⟨before, after, rfl, last⟩
            exact ⟨step :: before, after, rfl, last⟩
          · rintro ⟨_ | ⟨first, before⟩, after, split, spared, last⟩
            · cases split
              rw [lookup_bindings_eq_none_iff.mpr last] at found
              cases found
            · cases split
              exact ⟨before, after, rfl, spared, last⟩
      | none =>
          have closed := lookup_bindings_eq_none_iff.mp found
          rw [Option.none_or]
          constructor
          · intro bound
            have spared : spares rest = true := by
              cases spared : spares rest with
              | true => rfl
              | false => simp [spared] at bound
            obtain rfl : step = .bind name location := by
              rw [if_pos spared] at bound
              cases step with
              | push => cases bound
              | pop => cases bound
              | bind other place =>
                  by_cases same : name = other
                  · simpa [Step.bound, same] using bound
                  · simp [Step.bound, Lookup.lookup_cons_of_ne same] at bound
            exact ⟨[], rest, rfl, spared, closed⟩
          · rintro ⟨_ | ⟨first, before⟩, after, split, spared, last⟩
            · cases split
              simp [spared, Step.bound]
            · cases split
              rw [closed before location after rfl] at spared
              cases spared

end Below

/-- A scope is what a history says, when any number of the innermost frames is dropped. -/
structure Records (scope : Scope α) (history : List (Step α)) : Prop where
  bound : ∀ dropped, (scope.frames.drop dropped).flatten = bindings dropped history
  opened : ∀ dropped, openBelow dropped history = scope.depth - dropped
  occupied : ∀ dropped, hasFrameBelow dropped history = true ↔ dropped < scope.depth

section Runs

variable {scope after : Scope α} {history : List (Step α)} {step : Step α}

theorem records_empty : (empty : Scope α).Records [] where
  bound dropped := by simp [empty, bindings]
  opened dropped := by simp [empty, openBelow, moments, depth]
  occupied dropped := by simp [empty, hasFrameBelow, moments, depth]

theorem Records.hasFrame_iff (records : scope.Records history) :
    hasFrame history = true ↔ 0 < scope.depth := by
  rw [← hasFrameBelow_zero, records.occupied]

theorem Records.push (records : scope.Records history) :
    scope.push.Records (history ++ [.push]) where
  bound dropped := by
    rw [bindings_append_singleton, Step.needed, ← records.bound]
    cases dropped <;> simp [Scope.push, Step.bound]
  opened dropped := by
    rw [openBelow_append_singleton, Step.needed, records.opened]
    simp only [Moment.opens, Bool.true_and, decide_eq_true_eq, depth, Scope.push, List.length_cons]
    split <;> omega
  occupied dropped := by
    rw [hasFrameBelow_append_singleton, Step.needed, Bool.or_eq_true, records.occupied]
    simp only [Step.isPop, Bool.not_false, Bool.true_and, decide_eq_true_eq, depth, Scope.push,
      List.length_cons]
    omega

theorem Records.pop (records : scope.Records history) (popped : scope.pop = .ok after) :
    after.Records (history ++ [.pop]) := by
  rcases scope with ⟨_ | ⟨frame, frames⟩⟩
  · cases popped
  · cases popped
    constructor
    · intro dropped
      rw [bindings_append_singleton, Step.needed, ← records.bound]
      simp [Step.bound]
    · intro dropped
      rw [openBelow_append_singleton, Step.needed, records.opened]
      simp [Moment.opens, depth]
    · intro dropped
      rw [hasFrameBelow_append_singleton, Step.needed, Bool.or_eq_true, records.occupied]
      simp [Step.isPop, depth]

theorem depth_bind (scope : Scope α) (name : String) (location : α) :
    (scope.bind name location).depth = max scope.depth 1 := by
  rcases scope with ⟨_ | ⟨frame, frames⟩⟩
  · rfl
  · simp [Scope.bind, depth]

theorem Records.bind (records : scope.Records history) (name : String) (location : α) :
    (scope.bind name location).Records (history ++ [.bind name location]) where
  bound dropped := by
    rw [bindings_append_singleton, Step.needed, ← records.bound]
    rcases scope with ⟨_ | ⟨frame, frames⟩⟩
    · cases dropped <;> simp [Scope.bind, Step.bound]
    · cases dropped <;> simp [Scope.bind, Step.bound]
  opened dropped := by
    have opens : (Moment.mk history (.bind name location) []).opens = !hasFrame history := rfl
    rw [openBelow_append_singleton, Step.needed, records.opened, opens, depth_bind]
    have occupied := records.hasFrame_iff
    by_cases framed : hasFrame history = true
    · have deep := occupied.mp framed
      simp only [framed, Bool.not_true, Bool.false_and, Bool.false_eq_true, if_false]
      omega
    · have flat := mt occupied.mpr framed
      simp only [framed, Bool.not_false, Bool.true_and, decide_eq_true_eq]
      split <;> omega
  occupied dropped := by
    rw [hasFrameBelow_append_singleton, Step.needed, Bool.or_eq_true, records.occupied, depth_bind]
    simp only [Step.isPop, Bool.not_false, Bool.true_and, decide_eq_true_eq]
    omega

theorem Records.apply (records : scope.Records history) (stepped : scope.apply step = .ok after) :
    after.Records (history ++ [step]) := by
  cases step with
  | push =>
      cases stepped
      exact records.push
  | pop => exact records.pop stepped
  | bind name location =>
      cases stepped
      exact records.bind name location

theorem ofHistory_append_singleton (history : List (Step α)) (step : Step α) :
    ofHistory (history ++ [step]) = ofHistory history >>= (apply · step) := by
  simp [ofHistory]

theorem records_ofHistory (led : ofHistory history = .ok scope) : scope.Records history := by
  induction history using List.reverseRecOn generalizing scope with
  | nil =>
      cases led
      exact records_empty
  | append_singleton earlier step ih =>
      rw [ofHistory_append_singleton, Result.bind_eq_ok_iff] at led
      rcases led with ⟨before, ledBefore, stepped⟩
      exact (ih ledBefore).apply stepped

theorem apply_ok_iff (records : scope.Records history) :
    (∃ after, scope.apply step = .ok after) ↔ (step.isPop = true → hasFrame history = true) := by
  rw [records.hasFrame_iff]
  cases step with
  | push => simp [Scope.apply, Step.isPop]
  | bind name location => simp [Scope.apply, Step.isPop]
  | pop =>
      rcases scope with ⟨_ | ⟨frame, frames⟩⟩
      · simp [Scope.apply, Step.isPop, Scope.pop, depth]
      · simp [Scope.apply, Step.isPop, Scope.pop, depth]

/-- Some steps lead to a scope unless one of them closes a frame where there is none. -/
theorem ofHistory_ok_iff : (∃ scope, ofHistory history = .ok scope) ↔
    ∀ moment ∈ moments history, moment.step.isPop = true → hasFrame moment.before = true := by
  induction history using List.reverseRecOn with
  | nil => exact ⟨fun _ => List.forall_mem_nil _, fun _ => ⟨empty, rfl⟩⟩
  | append_singleton earlier step ih =>
      -- the moments before the last step are those of the earlier history
      have split : (∀ moment ∈ moments (earlier ++ [step]),
            moment.step.isPop = true → hasFrame moment.before = true) ↔
          (∃ scope, ofHistory earlier = .ok scope) ∧
            (step.isPop = true → hasFrame earlier = true) := by
        rw [ih, moments_append_singleton, List.forall_mem_append, List.forall_mem_map,
          List.forall_mem_singleton]
      simp only [split, ofHistory_append_singleton, Result.bind_eq_ok_iff]
      constructor
      · rintro ⟨after, scope, led, stepped⟩
        exact ⟨⟨scope, led⟩, (apply_ok_iff (records_ofHistory led)).mp ⟨after, stepped⟩⟩
      · rintro ⟨⟨scope, led⟩, allowed⟩
        rcases (apply_ok_iff (records_ofHistory led)).mpr allowed with ⟨after, stepped⟩
        exact ⟨after, scope, led, stepped⟩

theorem lookup_eq (scope : Scope α) (name : String) :
    scope.lookup name = scope.frames.flatten.lookup name := by
  rw [lookup]
  induction scope.frames with
  | nil => rfl
  | cons frame frames ih =>
      rw [List.findSome?_cons, List.flatten_cons, List.lookup_append, ← ih]
      cases frame.lookup name <;> rfl

end Runs

/--
Steps lead to a scope exactly if a frame is open whenever one is closed. A name then stands for
what it was bound to last, of the bindings whose frames have not been closed since, and for
nothing if there is none. The depth is the number of frames that have been opened and not closed.
-/
theorem lookup_ofHistory (history : List (Step α)) :
    ((∃ scope, ofHistory history = .ok scope) ↔
      ∀ before after, history = before ++ .pop :: after → hasFrame before = true) ∧
    ∀ scope, ofHistory history = .ok scope →
      (∀ name location, scope.lookup name = some location ↔
        ∃ before after, history = before ++ .bind name location :: after ∧ spares after = true ∧
          ∀ between other rest, after = between ++ .bind name other :: rest →
            spares rest = false) ∧
      (∀ name, scope.lookup name = none ↔
        ∀ before location after, history = before ++ .bind name location :: after →
          spares after = false) ∧
      scope.depth = openFrames history := by
  constructor
  · rw [ofHistory_ok_iff]
    constructor
    · intro allowed before after split
      exact allowed ⟨before, .pop, after⟩ (mem_moments.mpr split) rfl
    · rintro allowed ⟨before, step, after⟩ present isPop
      cases step with
      | pop => exact allowed before after (mem_moments.mp present)
      | push => cases isPop
      | bind name location => cases isPop
  · intro scope led
    have records := records_ofHistory led
    have found : ∀ name, scope.lookup name = (bindings 0 history).lookup name := by
      intro name
      rw [lookup_eq, ← records.bound, List.drop_zero]
    refine ⟨?_, ?_, ?_⟩
    · intro name location
      rw [found, lookup_bindings_eq_some_iff]
    · intro name
      rw [found, lookup_bindings_eq_none_iff]
    · rw [← openBelow_zero, records.opened, Nat.sub_zero]

end Scope

end Tuplet
