import Tuplet.Proofs.Lookahead

/-!
# Reading goes forward

The rules call each other, and some of them go on in a loop until they meet a token that
ends it. Their recursion is on the number of tokens that are left, and it ends because a
rule that succeeds has read at least one of them: whatever the tokens are, an end of input
among them included, no loop turns twice at the same token.

Here a rule is applied at a position of a token sequence. It stops at that position or
behind it, at the end of the sequence at the latest, and behind it where it succeeds. Both
are known of the tokens that are left: those are a tail of the tokens that the rule was
applied to, which is part of what settles its outcome, and a shorter one after a success.
-/

namespace Tuplet

namespace Reading

variable {bound : Nat} {α : Type}

/-- A rule that was applied at a position has stopped there or, if it succeeded, behind it. -/
def Advances (reading : Reading bound α) (tokens : List Token) (position : Nat) : Prop :=
  ∃ reached, position ≤ reached ∧ reached ≤ tokens.length ∧
    reading.rest = tokens.drop reached ∧
    ∀ value, reading.result = .ok value → position < reached

/-- A tail of the tokens from a position on starts at a position that is no smaller. -/
theorem drop_eq_of_split {tokens before rest : List Token} {position : Nat}
    (within : position ≤ tokens.length) (split : tokens.drop position = before ++ rest) :
    position + before.length ≤ tokens.length ∧
      rest = tokens.drop (position + before.length) := by
  have lengths := congrArg List.length split
  rw [List.length_drop, List.length_append] at lengths
  constructor
  · omega
  · rw [← List.drop_drop, split, List.drop_left]

theorem Settled.advances {rule : (tokens : List Token) → Reading tokens.length α}
    {tokens : List Token} {position : Nat} (within : position ≤ tokens.length)
    (settled : Settled rule (tokens.drop position)) :
    (rule (tokens.drop position)).Advances tokens position := by
  rcases settled with ⟨before, split, _⟩
  rcases drop_eq_of_split within split with ⟨reachedWithin, stopped⟩
  refine ⟨position + before.length, Nat.le_add_right _ _, reachedWithin, stopped, ?_⟩
  intro value succeeded
  -- after a success fewer tokens are left, so some were read
  have shorter := (reads_iff.mpr ⟨rfl, succeeded⟩).shorter
  have lengths := congrArg List.length split
  rw [List.length_append] at lengths
  omega

end Reading

namespace Grammar

open Reading

/-- Every item of a program was read from tokens of its own. -/
theorem length_items_add_length_rest_le (tokens : List Token) :
    (program tokens).items.length + (program tokens).rest.length ≤ tokens.length := by
  fun_induction program tokens with
  | case1 tokens ended => simp
  | case2 tokens notEnded error rest log failed =>
      rcases settled_function tokens with ⟨before, split, _⟩
      have stopped : (function tokens).rest = rest := by
        have inside := congrArg Reading.rest failed
        rwa [rest_inside] at inside
      have lengths := congrArg List.length split
      rw [List.length_append, stopped] at lengths
      simp only [List.length_nil]
      omega
  | case3 tokens notEnded item rest shorter log done reading ih =>
      have others : reading.items.length + reading.rest.length ≤ rest.length := ih
      simp only [List.length_cons]
      omega

/--
At every position of every token sequence, the rules for expressions, statements,
signatures and functions stop at that position or behind it, within the sequence, and
behind it where they succeed. Reading a program stops within the sequence too, after no
more items than there are tokens between the position and where it stops.
-/
theorem rules_advance (tokens : List Token) (position : Fin (tokens.length + 1)) :
    (expression (tokens.drop position)).Advances tokens position ∧
      (statement (tokens.drop position)).Advances tokens position ∧
      (signature (tokens.drop position)).Advances tokens position ∧
      (function (tokens.drop position)).Advances tokens position ∧
      ∃ reached : Nat, position ≤ reached ∧ reached ≤ tokens.length ∧
        (program (tokens.drop position)).rest = tokens.drop reached ∧
        position + (program (tokens.drop position)).items.length ≤ reached := by
  have within : (position : Nat) ≤ tokens.length := Nat.le_of_lt_succ position.isLt
  refine ⟨(settled_expression _).advances within, (settled_statement _).advances within,
    (settled_signature _).advances within, (settled_function _).advances within, ?_⟩
  rcases program_settled (tokens.drop position) with ⟨before, split, _⟩
  rcases drop_eq_of_split within split with ⟨reachedWithin, stopped⟩
  refine ⟨position + before.length, Nat.le_add_right _ _, reachedWithin, stopped, ?_⟩
  have counted := length_items_add_length_rest_le (tokens.drop position)
  have lengths := congrArg List.length split
  rw [List.length_append] at lengths
  omega

end Grammar

end Tuplet
