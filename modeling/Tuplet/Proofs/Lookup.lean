import Mathlib.Data.List.Forall2
import Mathlib.Data.List.Nodup

/-!
# Looking things up in lists

Names, ids and positions are all looked up in lists, and the first match counts.
-/

namespace Tuplet.Lookup

variable {α β κ : Type}

theorem lookup_cons_of_ne [BEq κ] [LawfulBEq κ] {key other : κ} (differ : key ≠ other)
    (value : α) (rest : List (κ × α)) :
    List.lookup key ((other, value) :: rest) = List.lookup key rest := by
  rw [List.lookup_cons, beq_false_of_ne differ]

theorem find?_of_mem [BEq κ] [LawfulBEq κ] {key : α → κ} {members : List α} {member : α}
    (distinct : (members.map key).Nodup) (present : member ∈ members) :
    members.find? (key · == key member) = some member := by
  induction members with
  | nil => simp at present
  | cons first rest ih =>
      simp only [List.map_cons, List.nodup_cons, List.mem_map, not_exists, not_and] at distinct
      rcases List.mem_cons.mp present with rfl | present
      · simp
      · have differ : key first ≠ key member := fun same => distinct.1 member present same.symm
        simp [differ, ih distinct.2 present]

/-- Where keys are distinct, a member that has been replaced is found by the key of both. -/
theorem find?_set [DecidableEq κ] {key : α → κ} {members : List α} {index : Nat} {old new : α}
    (distinct : (members.map key).Nodup) (present : members[index]? = some old)
    (sameKey : key new = key old) (wanted : κ) :
    (members.set index new).find? (key · == wanted) =
      if key new = wanted then some new else members.find? (key · == wanted) := by
  induction members generalizing index with
  | nil => simp at present
  | cons first rest ih =>
      simp only [List.map_cons, List.nodup_cons, List.mem_map, not_exists, not_and] at distinct
      cases index with
      | zero =>
          obtain rfl : first = old := by simpa using present
          by_cases same : key new = wanted
          · simp [same]
          · simp [same, ← sameKey]
      | succ index =>
          have present : rest[index]? = some old := by simpa using present
          have differ : key old ≠ key first := distinct.1 old (List.mem_of_getElem? present)
          rw [List.set_cons_succ, List.find?_cons, List.find?_cons, ih distinct.2 present]
          by_cases here : key first = wanted
          · have differ : key new ≠ wanted := by rw [sameKey, ← here]; exact differ
            simp [here, differ]
          · simp only [beq_false_of_ne here]

/-- What stands at the first position where something holds is the first for which it holds. -/
theorem find?_of_findIdx? {holds : α → Bool} {members : List α} {index : Nat} {member : α}
    (first : members.findIdx? holds = some index) (present : members[index]? = some member) :
    members.find? holds = some member := by
  induction members generalizing index with
  | nil => simp at present
  | cons head rest ih =>
      by_cases here : holds head
      · obtain rfl : 0 = index := by simpa [List.findIdx?_cons, here] using first
        simpa [here] using present
      · obtain ⟨earlier, found, rfl⟩ : ∃ earlier, rest.findIdx? holds = some earlier ∧
            earlier + 1 = index := by simpa [List.findIdx?_cons, here] using first
        simpa [here] using ih found (by simpa using present)

/-- What stands at a position on the right is related to what stands there on the left. -/
theorem getElem?_of_forall₂ {Related : α → β → Prop} {left : List α} {right : List β}
    {index : Nat} {member : β} (related : List.Forall₂ Related left right)
    (present : right[index]? = some member) :
    ∃ partner, left[index]? = some partner ∧ Related partner member := by
  induction related generalizing index with
  | nil => simp at present
  | cons head tail ih =>
      cases index with
      | zero =>
          simp only [List.getElem?_cons_zero, Option.some.injEq] at present
          subst present
          exact ⟨_, rfl, head⟩
      | succ index => exact ih (by simpa using present)

/-- Lists that differ at one place are the same at all others. -/
theorem getElem?_append_cons_of_ne (before rest : List α) (here other : α) {index : Nat}
    (elsewhere : index ≠ before.length) :
    (before ++ here :: rest)[index]? = (before ++ other :: rest)[index]? := by
  induction before generalizing index with
  | nil =>
      cases index with
      | zero => exact absurd rfl elsewhere
      | succ index => rfl
  | cons first before ih =>
      cases index with
      | zero => rfl
      | succ index => exact ih (by simpa using elsewhere)

end Tuplet.Lookup
