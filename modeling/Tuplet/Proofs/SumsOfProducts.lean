import Mathlib.Algebra.BigOperators.Group.List.Basic
import Mathlib.Algebra.Ring.Int.Defs
import Mathlib.Data.List.SplitBy
import Tuplet.Proofs.DerivedExpressions
import Tuplet.Proofs.WrappingArithmetic
import Tuplet.Token.Scan

/-!
# Sums of products have their usual value

Where an operator binds weaker than the one behind it, the tree of a chain has the rest of the
chain on the left and what stands before it on the right. In a chain of `+` and `*` this can only
be a `+`, and what it adds may be added in either order. So such a chain is worth what it is
usually taken for: the runs joined by `*` are multiplied, and their products are summed up.
-/

namespace Tuplet

/-- Where only the later of two neighbours says whether they belong together, the first group goes
on as long as it is said. -/
theorem splitBy_cons_eq {α : Type} (joins : α → Bool) (first : α) (rest : List α) :
    (first :: rest).splitBy (fun _ next => joins next) =
      (first :: rest.takeWhile joins) ::
        (rest.dropWhile joins).splitBy fun _ next => joins next := by
  have joined : (first :: rest.takeWhile joins).IsChain fun _ next => joins next = true := by
    induction rest generalizing first with
    | nil => exact .singleton first
    | cons next rest ih =>
        by_cases goesOn : joins next = true
        · rw [List.takeWhile_cons_of_pos goesOn]
          exact .cons_cons goesOn (ih next)
        · rw [List.takeWhile_cons_of_neg goesOn]
          exact .singleton first
  have together : (first :: rest.takeWhile joins).splitBy (fun _ next => joins next) =
      [first :: rest.takeWhile joins] := List.splitBy_of_isChain (List.cons_ne_nil _ _) joined
  have parts : first :: rest = (first :: rest.takeWhile joins) ++ rest.dropWhile joins := by
    rw [List.cons_append, List.takeWhile_append_dropWhile]
  cases behind : rest.dropWhile joins with
  | nil =>
      rw [behind, List.append_nil] at parts
      rw [parts, together, List.splitBy_nil]
  | cons other others =>
      have ends : joins other = false := by
        have stopped := List.head?_dropWhile_not joins rest
        simpa [behind] using stopped
      rw [behind] at parts
      rw [parts, List.splitBy_append_cons _ (by simp [ends]), together, List.singleton_append]

/-- The factors of a chain, in the longest runs that are joined by `*`. -/
def productRuns (first : Int) (terms : List (Operator × Int)) : List (List Int) :=
  (((Operator.add, first) :: terms).splitBy fun _ next => next.1 = .mul).map (·.map Prod.snd)

/-- What a chain of `+` and `*` is usually worth, before it is wrapped around. -/
def sumOfProducts (first : Int) (terms : List (Operator × Int)) : Int :=
  ((productRuns first terms).map List.prod).sum

theorem sumOfProducts_nil (first : Int) : sumOfProducts first [] = first := by
  simp [sumOfProducts, productRuns, splitBy_cons_eq]

theorem sumOfProducts_add (first second : Int) (terms : List (Operator × Int)) :
    sumOfProducts first ((.add, second) :: terms) = first + sumOfProducts second terms := by
  simp [sumOfProducts, productRuns, splitBy_cons_eq _ (Operator.add, first)]

theorem sumOfProducts_mul (first second : Int) (terms : List (Operator × Int)) :
    sumOfProducts first ((.mul, second) :: terms) = sumOfProducts (first * second) terms := by
  simp [sumOfProducts, productRuns, splitBy_cons_eq, mul_assoc]

namespace Node

open Run (Value)

variable {call : Answers} {environment : Environment}

theorem eval_binary {op : Operator} {left right : Node} {leftExact rightExact exact : Int}
    (leftEvaluates : left.eval call environment = .ok (.int (.ofInt leftExact)))
    (rightEvaluates : right.eval call environment = .ok (.int (.ofInt rightExact)))
    (meant : op.exactValue? leftExact rightExact = some exact) :
    (binary op left right).eval call environment = .ok (.int (.ofInt exact)) := by
  rcases Operator.eval_of_exactValue? meant with ⟨arithmetic, computable, computed⟩
  rw [eval, leftEvaluates, rightEvaluates]
  simp [running, Value.toInt, Operator.compute_eq computable, computed]

/-- An operator with its operand is worth an operator with an integer, up to what wraps around. -/
def LinkEvaluates (call : Answers) (environment : Environment) (link : Operator × Node)
    (term : Operator × Int) : Prop :=
  link.1 = term.1 ∧ link.2.eval call environment = .ok (.int (.ofInt term.2))

/-- In a chain of `+` and `*`, what an operator takes on its left and what it takes on its right
may be swapped. -/
theorem eval_ofChain {first : Node} {links : List (Operator × Node)} {value : Int}
    {terms : List (Operator × Int)}
    (evaluates : first.eval call environment = .ok (.int (.ofInt value)))
    (others : List.Forall₂ (LinkEvaluates call environment) links terms)
    (signs : ∀ term ∈ terms, term.1 = .add ∨ term.1 = .mul) :
    (first.ofChain links).eval call environment =
      .ok (.int (.ofInt (sumOfProducts value terms))) := by
  fun_induction ofChain first links generalizing value terms with
  | case1 first =>
      cases others
      rwa [sumOfProducts_nil]
  | case2 first op right =>
      rcases others with _ | @⟨_, ⟨_, factor⟩, _, _, ⟨rfl, rightEvaluates⟩, ⟨⟩⟩
      apply eval_binary evaluates rightEvaluates
      rcases signs _ List.mem_cons_self with rfl | rfl
      · rw [sumOfProducts_add, sumOfProducts_nil]
        rfl
      · rw [sumOfProducts_mul, sumOfProducts_nil]
        rfl
  | case3 first op right next operand rest binds ih =>
      rcases others with _ | @⟨_, ⟨_, factor⟩, _, terms, ⟨rfl, rightEvaluates⟩, others⟩
      have behind := List.forall_mem_of_forall_mem_cons signs
      have combined {exact : Int} (meant : op.exactValue? value factor = some exact) :=
        ih (eval_binary evaluates rightEvaluates meant) others behind
      rcases signs _ List.mem_cons_self with rfl | rfl
      · have sum := combined rfl
        rcases others with _ | @⟨_, ⟨_, later⟩, _, terms, ⟨rfl, _⟩, _⟩
        rcases behind _ List.mem_cons_self with rfl | rfl
        · rw [sumOfProducts_add] at sum
          rwa [sumOfProducts_add, sumOfProducts_add, ← add_assoc]
        · -- a `*` binds tighter than the `+` in front of it
          exact absurd binds (by decide)
      · rw [sumOfProducts_mul]
        exact combined rfl
  | case4 first op right next operand rest weaker ih =>
      rcases others with _ | @⟨_, ⟨_, factor⟩, _, terms, ⟨rfl, rightEvaluates⟩, others⟩
      have behind := ih rightEvaluates others (List.forall_mem_of_forall_mem_cons signs)
      apply eval_binary behind evaluates
      rcases signs _ List.mem_cons_self with rfl | rfl
      · rw [sumOfProducts_add, add_comm]
        rfl
      · -- neither `+` nor `*` binds tighter than a `*`
        rcases others with _ | @⟨_, ⟨_, later⟩, _, terms, ⟨rfl, _⟩, _⟩
        rcases signs _ (List.mem_cons_of_mem _ List.mem_cons_self) with rfl | rfl
        · exact absurd (by decide) weaker
        · exact absurd (by decide) weaker

end Node

namespace Grammar

open Tuplet.Derivation

/-- A chain of `+` and `*` is read as a tree that is worth what the chain is usually taken for: the
sum of the products of the runs that are joined by `*`, wrapped around at 32 bits. The operands may
be anything that has a word for its value. -/
theorem eval_chain_of_add_mul {first : Operand} {links : Links} {rest : List Token}
    {call : Answers} {environment : Environment} {value : Int32}
    {terms : List (Operator × Int32)} (ends : EndsExpression rest)
    (evaluates : first.tree.eval call environment = .ok (.int value))
    (others : List.Forall₂ (fun link term => link.1 = term.1 ∧
      link.2.eval call environment = .ok (.int term.2)) links.links terms)
    (signs : ∀ term ∈ terms, term.1 = .add ∨ term.1 = .mul) :
    ∃ node, (expression (first.tokens ++ links.tokens ++ rest)).Reads node rest ∧
      node.eval call environment =
        .ok (.int (.ofInt
          (sumOfProducts value.toInt (terms.map fun term => (term.1, term.2.toInt))))) := by
  refine ⟨_, (Expression.chain first links).reads ends, ?_⟩
  rw [Expression.tree, ← Node.ofChain_eq_ofLeastRise]
  apply Node.eval_ofChain
  · rwa [Int32.ofInt_toInt]
  · rw [List.forall₂_map_right_iff]
    refine others.imp fun link term evaluated => ⟨evaluated.1, ?_⟩
    rw [Int32.ofInt_toInt]
    exact evaluated.2
  · rw [List.forall_mem_map]
    exact signs

/-- The operands of `x + 100000 * 100000 + f() * (x)`, at columns of their first line. -/
def columnLiteral (column : Nat) : Operand :=
  .literal ⟨⟨.intLiteral, "100000", ⟨1, column⟩⟩, 100000, rfl,
    (by decide +kernel : intLiteral? "100000" = some 100000)⟩

def columnVariable (column : Nat) : Operand :=
  .var ⟨⟨.name, "x", ⟨1, column⟩⟩, rfl, (by decide +kernel : isReferenceName "x" = false)⟩

def columnCall : Operand :=
  .emptyCall ⟨⟨.name, "f", ⟨1, 22⟩⟩, rfl, by decide +kernel⟩ ⟨⟨.parenOpen, "(", ⟨1, 23⟩⟩, rfl⟩
    ⟨⟨.parenClose, ")", ⟨1, 24⟩⟩, rfl⟩

def columnGroup : Operand :=
  .group ⟨⟨.parenOpen, "(", ⟨1, 28⟩⟩, rfl⟩ (.chain (columnVariable 29) .nil)
    ⟨⟨.parenClose, ")", ⟨1, 30⟩⟩, rfl⟩

def columnLinks : Links :=
  .cons .add ⟨⟨.operator .add, "+", ⟨1, 2⟩⟩, rfl⟩ (columnLiteral 4) <|
  .cons .mul ⟨⟨.operator .mul, "*", ⟨1, 11⟩⟩, rfl⟩ (columnLiteral 13) <|
  .cons .add ⟨⟨.operator .add, "+", ⟨1, 20⟩⟩, rfl⟩ columnCall <|
  .cons .mul ⟨⟨.operator .mul, "*", ⟨1, 26⟩⟩, rfl⟩ columnGroup .nil

/-- With 7 for `x` and 3 for `f()`, the chain is worth 10000000028 before it is wrapped around. -/
theorem eval_chain_of_add_mul_columns :
    ∃ node, (expression (tokenize "x + 100000 * 100000 + f() * (x)")).Reads node [] ∧
      node.eval (fun _ _ => .ok (.aggregate [.int 3])) [("x", some (.int 7))] =
        .ok (.int 1410065436) := by
  let terms : List (Operator × Int32) := [(.add, 100000), (.mul, 100000), (.add, 3), (.mul, 7)]
  have spelled : tokenize "x + 100000 * 100000 + f() * (x)" =
      (columnVariable 0).tokens ++ columnLinks.tokens ++ [] := by decide +kernel
  have worth : Int32.ofInt (sumOfProducts (7 : Int32).toInt
      (terms.map fun term => (term.1, term.2.toInt))) = 1410065436 := by decide +kernel
  have grouped : columnGroup.tree = .group (.var ⟨"x", none⟩) := by
    rw [columnGroup, Operand.tree, Expression.tree, ← Node.ofChain_eq_ofLeastRise]
    rfl
  rw [spelled, ← worth]
  refine eval_chain_of_add_mul ⟨by decide, by decide⟩ rfl
    (.cons ⟨rfl, rfl⟩ (.cons ⟨rfl, rfl⟩ (.cons ⟨rfl, rfl⟩ (.cons ⟨rfl, ?_⟩ .nil)))) (by decide)
  change columnGroup.tree.eval _ _ = _
  rw [grouped]
  rfl

end Grammar

end Tuplet
