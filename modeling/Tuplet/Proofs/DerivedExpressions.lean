import Tuplet.Proofs.Rules
import Tuplet.Proofs.Unambiguity

/-!
# Expressions that are read, and expressions that are derived

What the grammar reads as an expression are the tokens of a derivation, and the tree
is that of the derivation. Conversely the tokens of a derivation are read wherever the
expression cannot go on with what stands behind it.

The first direction is by induction on the number of tokens, since a group and the
arguments of a call are shorter than what they stand in. The other one is by recursion
on the derivation.
-/

namespace Tuplet

namespace Node

variable {first : Node} {links : List (Operator × Node)}

theorem ofLeastRise_of_none (never : firstRise? links = none) :
    first.ofLeastRise links = first.leftFold links := by
  rw [ofLeastRise]
  split
  · rfl
  · rename_i found
    simp [never] at found

theorem ofLeastRise_of_some {rise : Nat} {link : Operator × Node}
    (found : firstRise? links = some rise) (stands : links[rise]? = some link) :
    first.ofLeastRise links =
      .binary link.1 (link.2.ofLeastRise (links.drop (rise + 1)))
        (first.leftFold (links.take rise)) := by
  rw [ofLeastRise]
  split
  · rename_i never
    simp [found] at never
  · rename_i rise' found'
    obtain rfl : rise = rise' := by simpa [found] using found'
    have bounded := firstRise?_lt found
    obtain rfl : links[rise] = link := by simpa [List.getElem?_eq_getElem bounded] using stands
    rfl

theorem firstRise?_cons_cons (link next : Operator × Node) :
    firstRise? (link :: next :: links) =
      if link.1.precedence < next.1.precedence then some 0
      else (firstRise? (next :: links)).map (· + 1) := by
  simp [firstRise?, List.findIdx?_cons]

/-- Taking operators from the left finds the first one that binds weaker than the next. -/
theorem ofChain_eq_ofLeastRise (first : Node) (links : List (Operator × Node)) :
    first.ofChain links = first.ofLeastRise links := by
  fun_induction ofChain first links with
  | case1 first =>
      rw [ofLeastRise_of_none rfl]
      rfl
  | case2 first op right =>
      rw [ofLeastRise_of_none rfl]
      rfl
  | case3 first op right next operand rest binds ih =>
      rw [ih]
      have moved : firstRise? ((op, right) :: (next, operand) :: rest) =
          (firstRise? ((next, operand) :: rest)).map (· + 1) := by
        rw [firstRise?_cons_cons, if_neg (by simpa using binds)]
      cases found : firstRise? ((next, operand) :: rest) with
      | none =>
          rw [found, Option.map_none] at moved
          rw [ofLeastRise_of_none found, ofLeastRise_of_none moved]
          rfl
      | some rise =>
          rw [found, Option.map_some] at moved
          have stands := List.getElem?_eq_getElem (firstRise?_lt found)
          rw [ofLeastRise_of_some found stands,
            ofLeastRise_of_some moved (List.getElem?_cons_succ.trans stands)]
          rfl
  | case4 first op right next operand rest weaker ih =>
      have here : firstRise? ((op, right) :: (next, operand) :: rest) = some 0 := by
        rw [firstRise?_cons_cons, if_pos (by simpa using weaker)]
      rw [ih, ofLeastRise_of_some here rfl]
      rfl

end Node

namespace Grammar

open Tuplet.Derivation

variable {tokens rest : List Token} {bound : Nat}

/-- Operands within some number of tokens are the tokens of derivations. -/
def OperandsDerived (bound : Nat) : Prop :=
  ∀ tokens node rest, tokens.length ≤ bound → (operand tokens).Reads node rest →
    ∃ derivation : Operand, tokens = derivation.tokens ++ rest ∧ derivation.tree = node

theorem OperandsDerived.chain (operands : OperandsDerived bound)
    {links : List (Operator × Node)} (within : tokens.length ≤ bound)
    (reads : (chain tokens).Reads links rest) :
    ∃ derivation : Links, tokens = derivation.tokens ++ rest ∧ derivation.links = links := by
  induction links generalizing tokens with
  | nil =>
      rcases chain_cases reads with ⟨_, rfl⟩ | ⟨_, _, _, _, _, _, _, _, _, _, links⟩
      · exact ⟨.nil, rfl, rfl⟩
      · cases links
  | cons link others ih =>
      rcases chain_cases reads with ⟨links, _⟩ |
        ⟨op, sign, behind, right, middle, _, rfl, isSign, readsRight, readsOthers, links⟩
      · cases links
      · cases links
        simp only [List.length_cons] at within
        have shorter := readsRight.shorter
        rcases ih (by omega) readsOthers with ⟨tail, rfl, rfl⟩
        rcases operands behind right _ (by omega) readsRight with ⟨head, rfl, rfl⟩
        refine ⟨.cons op ⟨sign, isSign⟩ head tail, ?_, rfl⟩
        simp [Links.tokens]

theorem OperandsDerived.expression (operands : OperandsDerived bound) {node : Node}
    (within : tokens.length ≤ bound) (reads : (expression tokens).Reads node rest) :
    ∃ derivation : Expression, tokens = derivation.tokens ++ rest ∧ derivation.tree = node := by
  rcases reads_expression.mp reads with ⟨first, middle, links, readsFirst, readsLinks, rfl⟩
  rcases operands tokens first middle within readsFirst with ⟨head, rfl, rfl⟩
  have shorter := readsFirst.shorter
  rcases operands.chain (by omega) readsLinks with ⟨tail, rfl, rfl⟩
  refine ⟨.chain head tail, ?_, ?_⟩
  · simp [Expression.tokens]
  · rw [Expression.tree, Node.ofChain_eq_ofLeastRise]

theorem OperandsDerived.values (operands : OperandsDerived bound) {closing : TokenKind}
    {values : List Node} (reads : ReadsValues closing tokens values rest)
    (within : tokens.length ≤ bound) :
    ∃ (derivation : Values) (closer : Mark closing),
      tokens = derivation.tokens ++ closer.val :: rest ∧ derivation.trees = values := by
  induction reads with
  | last reads closes =>
      rcases operands.expression within reads with ⟨value, rfl, rfl⟩
      exact ⟨.last value, ⟨_, closes⟩, rfl, rfl⟩
  | more reads isComma _ ih =>
      have shorter := reads.shorter
      simp only [List.length_cons] at shorter
      rcases ih (by omega) with ⟨others, closer, rfl, rfl⟩
      rcases operands.expression within reads with ⟨value, rfl, rfl⟩
      refine ⟨.more value ⟨_, isComma⟩ others, closer, ?_, rfl⟩
      simp [Values.tokens]

theorem operandsDerived (bound : Nat) : OperandsDerived bound := by
  induction bound with
  | zero =>
      intro tokens node rest within reads
      have shorter := reads.shorter
      omega
  | succ bound ih =>
      intro tokens node rest within reads
      -- a token stands before what is inside a group or a call, so that is within `bound`
      cases reads_operand.mp reads with
      | literal isLiteral fits => exact ⟨.literal ⟨_, _, isLiteral, fits⟩, rfl, rfl⟩
      | group opens reads closes =>
          simp only [List.length_cons, Nat.add_le_add_iff_right] at within
          rcases ih.expression within reads with ⟨inner, rfl, rfl⟩
          refine ⟨.group ⟨_, opens⟩ inner ⟨_, closes⟩, ?_, rfl⟩
          simp [Operand.tokens]
      | call isName opens reads =>
          simp only [List.length_cons, Nat.add_le_add_iff_right] at within
          cases reads_arguments.mp reads with
          | none closes => exact ⟨.emptyCall ⟨_, isName⟩ ⟨_, opens⟩ ⟨_, closes⟩, rfl, rfl⟩
          | some reads =>
              rcases ih.values reads (by omega) with ⟨args, closer, rfl, rfl⟩
              refine ⟨.call ⟨_, isName⟩ ⟨_, opens⟩ args closer, ?_, rfl⟩
              simp [Operand.tokens]
      | var isName ends => exact ⟨.var ⟨_, isName⟩, rfl, rfl⟩

end Grammar

namespace Derivation

open Grammar

mutual

/-- An operand is read wherever it cannot go on as a call. -/
theorem Operand.reads (derivation : Operand) {rest : List Token}
    (ends : headKind rest ≠ .parenOpen) :
    (operand (derivation.tokens ++ rest)).Reads derivation.tree rest := by
  rw [reads_operand]
  cases derivation with
  | literal literal => exact .literal literal.isLiteral literal.fits
  | group opening inner closing =>
      simp only [Operand.tokens, List.cons_append, List.append_assoc, List.nil_append]
      exact .group opening.2 (inner.reads closing.endsValues_parenClose.toEndsExpression) closing.2
  | var name => exact .var name.2 ends
  | emptyCall name opening closing =>
      exact .call name.2 opening.2 (reads_arguments.mpr (.none closing.2))
  | call name opening args closing =>
      simp only [Operand.tokens, List.cons_append, List.append_assoc, List.nil_append]
      exact .call name.2 opening.2
        (reads_arguments.mpr (.some (args.reads closing closing.endsValues_parenClose)))
termination_by structural derivation

theorem Expression.reads (derivation : Expression) {rest : List Token}
    (ends : EndsExpression rest) :
    (expression (derivation.tokens ++ rest)).Reads derivation.tree rest := by
  rcases derivation with ⟨first, links⟩
  rw [Expression.tokens, List.append_assoc]
  exact reads_expression.mpr ⟨_, _, _, first.reads (links.noCall ends), links.reads ends,
    Node.ofChain_eq_ofLeastRise _ _⟩
termination_by structural derivation

theorem Links.reads (derivation : Links) {rest : List Token} (ends : EndsExpression rest) :
    (chain (derivation.tokens ++ rest)).Reads derivation.links rest := by
  cases derivation with
  | nil => exact (reads_chain_nil ends.noOperator).mpr ⟨rfl, rfl⟩
  | cons op sign operand others =>
      rw [Links.tokens, List.cons_append, List.append_assoc]
      exact (reads_chain_cons sign.2).mpr
        ⟨_, _, _, operand.reads (others.noCall ends), others.reads ends, rfl⟩
termination_by structural derivation

theorem Values.reads (derivation : Values) {closing : TokenKind} (closer : Mark closing)
    {rest : List Token} (ends : EndsValues (closer.val :: rest)) :
    ReadsValues closing (derivation.tokens ++ closer.val :: rest) derivation.trees rest := by
  cases derivation with
  | last value => exact .last (value.reads ends.toEndsExpression) closer.2
  | more value comma others =>
      simp only [Values.tokens, List.append_assoc, List.cons_append]
      exact .more (value.reads comma.endsExpression_comma) comma.2 (others.reads closer ends)
termination_by structural derivation

end

end Derivation

end Tuplet
