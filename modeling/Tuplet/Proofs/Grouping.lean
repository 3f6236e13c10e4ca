import Tuplet.Proofs.AcceptedGrammar
import Tuplet.Proofs.Lookahead

/-!
# How operators are grouped

An operator should have no operand that binds weaker than itself, unless the operand is in
parentheses. On its right it never has one. On its left it can have one, since an operator
that gives way to a tighter one behind it takes all that is left of the chain, and weaker
operators with it.

The operator at the root of a chain is the last one before the first rise. So the operands
on the left are fine exactly if no operator of a chain is undercut: once it has given way to
a tighter one, none that binds weaker than itself may follow.
-/

namespace Tuplet

namespace Node

/-- Whether a node is an operator that binds weaker than another one. -/
def bindsWeakerThan (op : Operator) : Node → Bool
  | .binary inner _ _ => inner.precedence < op.precedence
  | _ => false

mutual

/-- Whether something holds of each operator in a tree and its operands. -/
def everyOperator (holds : Operator → Node → Node → Bool) : Node → Bool
  | .binary op left right =>
      holds op left right && left.everyOperator holds && right.everyOperator holds
  | .call _ args => everyOperatorOfEach holds args
  | .group inner => inner.everyOperator holds
  | .assign _ value => value.everyOperator holds
  | .ret values => everyOperatorOfEach holds values
  | .function _ body => everyOperatorOfEach holds body
  | .literal _ | .var _ | .decl _ | .signature _ => true

def everyOperatorOfEach (holds : Operator → Node → Node → Bool) : List Node → Bool
  | [] => true
  | node :: rest => node.everyOperator holds && everyOperatorOfEach holds rest

end

/-- Whether no operator has an operand on its right that binds weaker. -/
def isGradedOnRight : Node → Bool :=
  everyOperator fun op _ right => !right.bindsWeakerThan op

/-- Whether no operator has an operand that binds weaker. -/
def isGraded : Node → Bool :=
  everyOperator fun op left right => !left.bindsWeakerThan op && !right.bindsWeakerThan op

end Node

namespace Operator

/-- The operator at the root of a chain that starts with `op`: the last before the first rise. -/
def governing (op : Operator) : List Operator → Operator
  | [] => op
  | next :: rest => if next.precedence ≤ op.precedence then governing next rest else op

/-- Behind an operator that gives way to a tighter one, none binds weaker than it. -/
def NeverUndercut : List Operator → Prop
  | [] => True
  | op :: rest =>
      (∀ next ∈ rest.head?, op.precedence < next.precedence →
        ∀ later ∈ rest, op.precedence ≤ later.precedence) ∧ NeverUndercut rest

theorem governing_mem (op : Operator) (rest : List Operator) : op.governing rest ∈ op :: rest := by
  induction rest generalizing op with
  | nil => exact List.mem_singleton_self op
  | cons next rest ih =>
      rw [governing]
      split
      case isTrue => exact List.mem_cons_of_mem op (ih next)
      case isFalse => exact List.mem_cons_self

/-- In a chain that is never undercut, no operator binds weaker than the one at the root. -/
theorem NeverUndercut.governing_le {op : Operator} {rest : List Operator}
    (never : NeverUndercut (op :: rest)) :
    ∀ later ∈ op :: rest, (op.governing rest).precedence ≤ later.precedence := by
  induction rest generalizing op with
  | nil =>
      intro later stands
      rw [List.mem_singleton.mp stands]
      exact Nat.le_refl _
  | cons next rest ih =>
      rw [governing]
      split
      case isTrue falls =>
        have behind := ih never.2
        refine List.forall_mem_cons.mpr ⟨?_, behind⟩
        exact Nat.le_trans (behind next List.mem_cons_self) falls
      case isFalse rises =>
        refine List.forall_mem_cons.mpr ⟨Nat.le_refl _, ?_⟩
        exact never.1 next rfl (Nat.lt_of_not_le rises)

/-- A chain undercuts an operator exactly if its root does. -/
theorem NeverUndercut.le_governing_iff {op next : Operator} {rest : List Operator}
    (never : NeverUndercut (next :: rest)) :
    op.precedence ≤ (next.governing rest).precedence ↔
      ∀ later ∈ next :: rest, op.precedence ≤ later.precedence := by
  constructor
  · intro below later stands
    exact Nat.le_trans below (never.governing_le later stands)
  · intro below
    exact below _ (governing_mem next rest)

end Operator

namespace Node

variable {first : Node} {links : List (Operator × Node)}

theorem bindsWeakerThan_of_ne_binary {node : Node} (notBinary : node.form ≠ .binary)
    (op : Operator) : node.bindsWeakerThan op = false := by
  cases node with
  | binary => exact absurd rfl notBinary
  | _ => rfl

theorem bindsWeakerThan_ofChain (first right : Node) (op other : Operator)
    (links : List (Operator × Node)) :
    (first.ofChain ((op, right) :: links)).bindsWeakerThan other =
      decide ((op.governing (links.map (·.1))).precedence < other.precedence) := by
  induction links generalizing first op right with
  | nil => rfl
  | cons link rest ih =>
      rw [ofChain, List.map_cons, Operator.governing]
      split
      case isTrue => exact ih _ _ _
      case isFalse => rfl

/-- The operands of a chain are no operators, and what stands before it binds tightly enough. -/
structure Chained (first : Node) (links : List (Operator × Node)) : Prop where
  operands : ∀ link ∈ links, link.2.form ≠ .binary
  leads : ∀ link ∈ links.head?, first.bindsWeakerThan link.1 = false

namespace Chained

variable {op next : Operator} {right operand : Node}

theorem of_operands (notBinary : first.form ≠ .binary)
    (operands : ∀ link ∈ links, link.2.form ≠ .binary) : Chained first links := by
  refine ⟨operands, ?_⟩
  intro link _
  exact bindsWeakerThan_of_ne_binary notBinary link.1

theorem fold (chained : Chained first ((op, right) :: (next, operand) :: links))
    (falls : next.precedence ≤ op.precedence) :
    Chained (.binary op first right) ((next, operand) :: links) := by
  refine ⟨(List.forall_mem_cons.mp chained.operands).2, ?_⟩
  rintro _ ⟨⟩
  exact decide_eq_false (Nat.not_lt_of_le falls)

theorem rest (chained : Chained first ((op, right) :: links)) : Chained right links := by
  rcases List.forall_mem_cons.mp chained.operands with ⟨notBinary, others⟩
  exact of_operands notBinary others

theorem leads_cons (chained : Chained first ((op, right) :: links)) :
    first.bindsWeakerThan op = false := chained.leads (op, right) rfl

theorem right_cons (chained : Chained first ((op, right) :: links)) :
    right.bindsWeakerThan op = false :=
  bindsWeakerThan_of_ne_binary (chained.operands (op, right) List.mem_cons_self) op

end Chained

theorem isGradedOnRight_binary (op : Operator) (left right : Node) :
    (binary op left right).isGradedOnRight = true ↔
      right.bindsWeakerThan op = false ∧ left.isGradedOnRight = true ∧
        right.isGradedOnRight = true := by
  simp [isGradedOnRight, everyOperator, and_assoc]

theorem isGraded_binary (op : Operator) (left right : Node) :
    (binary op left right).isGraded = true ↔
      (left.bindsWeakerThan op = false ∧ right.bindsWeakerThan op = false) ∧
        left.isGraded = true ∧ right.isGraded = true := by
  simp [isGraded, everyOperator, and_assoc]

/-- Whatever the operators of a chain are, none has a weaker one on its right. -/
theorem isGradedOnRight_ofChain_iff (chained : Chained first links) :
    (first.ofChain links).isGradedOnRight = true ↔
      first.isGradedOnRight = true ∧ ∀ link ∈ links, link.2.isGradedOnRight = true := by
  fun_induction ofChain first links with
  | case1 first => simp
  | case2 first op right => simp [isGradedOnRight_binary, chained.right_cons]
  | case3 first op right next operand rest falls ih =>
      rw [ih (chained.fold falls), isGradedOnRight_binary]
      simp [chained.right_cons, and_assoc]
  | case4 first op right next operand rest rises ih =>
      rw [isGradedOnRight_binary, ih chained.rest]
      simp [chained.leads_cons, and_comm]

/-- A chain is grouped by precedence exactly if none of its operators is undercut. -/
theorem isGraded_ofChain_iff (chained : Chained first links) :
    (first.ofChain links).isGraded = true ↔
      (first.isGraded = true ∧ ∀ link ∈ links, link.2.isGraded = true) ∧
        Operator.NeverUndercut (links.map (·.1)) := by
  fun_induction ofChain first links with
  | case1 first => simp [Operator.NeverUndercut]
  | case2 first op right =>
      simp [isGraded_binary, chained.leads_cons, chained.right_cons, Operator.NeverUndercut]
  | case3 first op right next operand rest falls ih =>
      have notRises : ¬ op.precedence < next.precedence := Nat.not_lt_of_le falls
      rw [ih (chained.fold falls), isGraded_binary]
      simp [chained.leads_cons, chained.right_cons, Operator.NeverUndercut, notRises, and_assoc]
  | case4 first op right next operand rest rises ih =>
      have rises : op.precedence < next.precedence := Nat.lt_of_not_le rises
      rw [isGraded_binary, ih chained.rest, bindsWeakerThan_ofChain, decide_eq_false_iff_not,
        Nat.not_lt, @List.forall_mem_cons _ _ (op, right)]
      constructor
      · rintro ⟨⟨below, _⟩, ⟨gradedBehind, never⟩, firstGraded⟩
        refine ⟨⟨firstGraded, gradedBehind⟩, ?_, never⟩
        intro _ _ _
        exact never.le_governing_iff.mp below
      · rintro ⟨⟨firstGraded, gradedBehind⟩, notUndercut, never⟩
        refine ⟨⟨?_, chained.leads_cons⟩, ⟨gradedBehind, never⟩, firstGraded⟩
        exact never.le_governing_iff.mpr (notUndercut next rfl rises)

end Node

namespace Derivation

mutual

/-- Something holds of the operators of each chain in an operand. -/
def Operand.EveryChain (holds : List Operator → Prop) : Operand → Prop
  | .literal _ | .var _ | .emptyCall _ _ _ => True
  | .group _ inner _ => inner.EveryChain holds
  | .call _ _ args _ => args.EveryChain holds

def Expression.EveryChain (holds : List Operator → Prop) : Expression → Prop
  | .chain first links =>
      (first.EveryChain holds ∧ links.EveryChain holds) ∧ holds (links.links.map (·.1))

/-- Something holds of the operators of each chain in the operands of another one. -/
def Links.EveryChain (holds : List Operator → Prop) : Links → Prop
  | .nil => True
  | .cons _ _ operand others => operand.EveryChain holds ∧ others.EveryChain holds

def Values.EveryChain (holds : List Operator → Prop) : Values → Prop
  | .last value => value.EveryChain holds
  | .more value _ others => value.EveryChain holds ∧ others.EveryChain holds

end

mutual

theorem Operand.everyChain_true : ∀ operand : Operand, operand.EveryChain fun _ => True
  | .literal _ | .var _ | .emptyCall _ _ _ => trivial
  | .group _ inner _ => inner.everyChain_true
  | .call _ _ args _ => args.everyChain_true

theorem Expression.everyChain_true :
    ∀ expression : Expression, expression.EveryChain fun _ => True
  | .chain first links => ⟨⟨first.everyChain_true, links.everyChain_true⟩, trivial⟩

theorem Links.everyChain_true : ∀ links : Links, links.EveryChain fun _ => True
  | .nil => trivial
  | .cons _ _ operand others => ⟨operand.everyChain_true, others.everyChain_true⟩

theorem Values.everyChain_true : ∀ values : Values, values.EveryChain fun _ => True
  | .last value => value.everyChain_true
  | .more value _ others => ⟨value.everyChain_true, others.everyChain_true⟩

end

theorem Operand.form_tree_ne (operand : Operand) : operand.tree.form ≠ .binary := by
  cases operand <;> simp [Operand.tree, Node.form]

theorem Links.form_ne : ∀ (links : Links), ∀ link ∈ links.links, link.2.form ≠ .binary
  | .nil => by simp [Links.links]
  | .cons op sign operand others => by
      rw [Links.links, List.forall_mem_cons]
      exact ⟨operand.form_tree_ne, others.form_ne⟩

open Node

/-- Something holds in a chain if it holds in the operands, on a condition on the operators. -/
def DecidedByChains (holds : Operator → Node → Node → Bool) (condition : List Operator → Prop) :
    Prop :=
  ∀ {first : Node} {links : List (Operator × Node)}, Chained first links →
    ((first.ofChain links).everyOperator holds = true ↔
      (first.everyOperator holds = true ∧ ∀ link ∈ links, link.2.everyOperator holds = true) ∧
        condition (links.map (·.1)))

variable {holds : Operator → Node → Node → Bool} {condition : List Operator → Prop}

mutual

theorem Operand.everyOperator_iff (decided : DecidedByChains holds condition) :
    ∀ operand : Operand,
      operand.tree.everyOperator holds = true ↔ operand.EveryChain condition
  | .literal _ | .var _ | .emptyCall _ _ _ => iff_of_true rfl trivial
  | .group _ inner _ => inner.everyOperator_iff decided
  | .call _ _ args _ => args.everyOperator_iff decided

/-- Something holds in an expression exactly if the condition holds of all its chains. -/
theorem Expression.everyOperator_iff (decided : DecidedByChains holds condition) :
    ∀ expression : Expression,
      expression.tree.everyOperator holds = true ↔ expression.EveryChain condition
  | .chain first links => by
      have chained : Chained first.tree links.links := .of_operands first.form_tree_ne links.form_ne
      rw [Expression.tree, ← ofChain_eq_ofLeastRise, decided chained, Expression.EveryChain,
        first.everyOperator_iff decided, links.everyOperator_iff decided]

theorem Links.everyOperator_iff (decided : DecidedByChains holds condition) :
    ∀ links : Links,
      (∀ link ∈ links.links, link.2.everyOperator holds = true) ↔ links.EveryChain condition
  | .nil => by simp [Links.links, Links.EveryChain]
  | .cons op sign operand others => by
      rw [Links.links, List.forall_mem_cons, Links.EveryChain, operand.everyOperator_iff decided,
        others.everyOperator_iff decided]

theorem Values.everyOperator_iff (decided : DecidedByChains holds condition) :
    ∀ values : Values,
      everyOperatorOfEach holds values.trees = true ↔ values.EveryChain condition
  | .last value => by
      rw [Values.trees, everyOperatorOfEach, everyOperatorOfEach, Bool.and_true,
        Values.EveryChain, value.everyOperator_iff decided]
  | .more value comma others => by
      rw [Values.trees, everyOperatorOfEach, Bool.and_eq_true, Values.EveryChain,
        value.everyOperator_iff decided, others.everyOperator_iff decided]

end

theorem Expression.isGradedOnRight (expression : Expression) :
    expression.tree.isGradedOnRight = true := by
  apply (expression.everyOperator_iff _).mpr expression.everyChain_true
  intro first links chained
  rw [and_true]
  exact isGradedOnRight_ofChain_iff chained

theorem Expression.isGraded_iff (expression : Expression) :
    expression.tree.isGraded = true ↔ expression.EveryChain Operator.NeverUndercut :=
  expression.everyOperator_iff isGraded_ofChain_iff

end Derivation

namespace Grammar

open Tuplet.Derivation

/--
In an expression that is read, no operator has a weaker one on its right, parentheses and
arguments apart. It has none on its left either exactly if no operator of any chain is
undercut: no weaker one follows once it has given way to a tighter one.
-/
theorem graded_iff_neverUndercut {tokens rest : List Token} {node : Node}
    (reads : (expression tokens).Reads node rest) :
    ∃ derivation : Derivation.Expression, tokens = derivation.tokens ++ rest ∧
      derivation.tree = node ∧ node.isGradedOnRight = true ∧
        (node.isGraded = true ↔ derivation.EveryChain Operator.NeverUndercut) := by
  rcases (operandsDerived tokens.length).expression (Nat.le_refl _) reads with
    ⟨derivation, spelled, rfl⟩
  exact ⟨derivation, spelled, rfl, derivation.isGradedOnRight, derivation.isGraded_iff⟩

/-- The chain rises to a tighter operator and falls again, but not below where it rose from. -/
theorem graded_iff_neverUndercut_rising :
    ∃ node, (expression (tokenize "7 - 2 * 3 + 1")).Reads node [] ∧ node.isGraded = true ∧
      ∃ derivation : Derivation.Expression, tokenize "7 - 2 * 3 + 1" = derivation.tokens ∧
        derivation.tree = node ∧ derivation.EveryChain Operator.NeverUndercut := by
  have exhausted : (expression (tokenize "7 - 2 * 3 + 1")).rest = [] := by decide +kernel
  have found : (expression (tokenize "7 - 2 * 3 + 1")).result.toOption.map Node.isGraded =
      some true := by decide +kernel
  rcases Reading.exists_reads exhausted found with ⟨node, reads, graded⟩
  rcases graded_iff_neverUndercut reads with ⟨derivation, spelled, tree, _, never⟩
  rw [List.append_nil] at spelled
  exact ⟨node, reads, graded, derivation, spelled, tree, never.mp graded⟩

/-- The sum at the end of the chain is multiplied, since `*` has given way to `/` before it. -/
theorem sum_inside_product :
    ∃ node, (expression (tokenize "2 * 8 / 4 + 1")).Reads node [] ∧
      node.outline = "Binary *\n  Binary +\n    Binary /\n      Literal 8\n      Literal 4\n" ++
        "    Literal 1\n  Literal 2\n" ∧ node.isGraded = false := by
  have exhausted : (expression (tokenize "2 * 8 / 4 + 1")).rest = [] := by decide +kernel
  have found : (expression (tokenize "2 * 8 / 4 + 1")).result.toOption.map
      (fun node => (node.outline, node.isGraded)) =
        some ("Binary *\n  Binary +\n    Binary /\n      Literal 8\n      Literal 4\n" ++
          "    Literal 1\n  Literal 2\n", false) := by
    decide +kernel
  rcases Reading.exists_reads exhausted found with ⟨node, reads, shape⟩
  exact ⟨node, reads, Prod.mk.inj shape⟩

end Grammar

end Tuplet
