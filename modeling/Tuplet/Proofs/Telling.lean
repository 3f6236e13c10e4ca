import Tuplet.Diagnostic

/-!
# What is told of a failure

An error comes up inside constructs, one around the other. A reader is told of
the error first and then of the constructs, from the inside out, all at one
place and all in the category of the error.
-/

namespace Tuplet

variable {ε κ π ρ : Type}

/-- An error and what it has come up inside. -/
structure Failure (ε κ : Type) where
  cause : ε
  /-- The constructs around the error, innermost first. -/
  within : List κ

namespace Failure

/-- A failure inside no construct. -/
def because (cause : ε) : Failure ε κ := ⟨cause, []⟩

/-- Puts one more construct around a failure. -/
def inside (failure : Failure ε κ) (context : κ) : Failure ε κ :=
  { failure with within := failure.within ++ [context] }

@[simp]
theorem cause_inside (failure : Failure ε κ) (context : κ) :
    (failure.inside context).cause = failure.cause := rfl

variable [Fault ε] [Context κ]

/-- What a reader is told of a failure at a place. -/
def remarks (failure : Failure ε κ) (place : π) : List (Remark π) :=
  .ofError place failure.cause :: failure.within.map (.ofContext place failure.cause ·)

@[simp]
theorem remarks_inside (failure : Failure ε κ) (context : κ) (place : π) :
    (failure.inside context).remarks place =
      failure.remarks place ++ [.ofContext place failure.cause context] := by
  simp [remarks, inside]

theorem map_locate_remarks (failure : Failure ε κ) (place : π) (locate : π → ρ) :
    (failure.remarks place).map (·.locate locate) = failure.remarks (locate place) := by
  rw [remarks, List.map_cons, List.map_map]
  rfl

end Failure

variable [Fault ε] [Context κ]

variable (κ) in
/--
Some remarks tell of one error at one place, and of nothing else: the first is of the error
itself, and the others are of constructs.
-/
structure TellsOf (error : ε) (place : π) (group : List (Remark π)) : Prop where
  first : group.head? = some ⟨place, Fault.category error, Fault.message error⟩
  position_eq : ∀ remark ∈ group, remark.position = place
  category_eq : ∀ remark ∈ group, remark.category = Fault.category error
  others : ∃ within : List κ, group.tail.map (·.message) = within.map Context.message

theorem TellsOf.ne_nil {error : ε} {place : π} {group : List (Remark π)}
    (tells : TellsOf κ error place group) : group ≠ [] := by
  rintro rfl
  cases tells.first

theorem Failure.of_mem_remarks {failure : Failure ε κ} {place : π} {remark : Remark π}
    (told : remark ∈ failure.remarks place) :
    remark.position = place ∧ remark.category = Fault.category failure.cause := by
  rcases List.mem_cons.mp told with rfl | told
  · exact ⟨rfl, rfl⟩
  · obtain ⟨context, _, rfl⟩ := List.mem_map.mp told
    exact ⟨rfl, rfl⟩

theorem Failure.tellsOf (failure : Failure ε κ) (place : π) :
    TellsOf κ failure.cause place (failure.remarks place) where
  first := rfl
  position_eq _ told := (of_mem_remarks told).1
  category_eq _ told := (of_mem_remarks told).2
  others := by
    refine ⟨failure.within, ?_⟩
    rw [remarks, List.tail_cons, List.map_map]
    rfl

end Tuplet
