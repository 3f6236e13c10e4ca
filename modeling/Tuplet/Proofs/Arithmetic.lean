import Tuplet.Lower.Value
import Tuplet.Proofs.Meaning
import Tuplet.Proofs.Result

/-!
# Operators and arithmetic instructions

Operators mean operations on integers whose results wrap around at 32 bits.
Arithmetic instructions work on words of 32 bits. They agree, including the
cases in which there is no result: the one quotient that does not fit into a
word is that of the least number and minus one.
-/

namespace Tuplet

namespace Word

theorem toInt_eq_zero_iff (number : Int32) : number.toInt = 0 ↔ number = 0 := by
  rw [← Int32.toInt_inj]
  rfl

/-- Modulo 2³², a signed number is the unsigned number of the same bits. -/
theorem toInt_emod (number : Int32) : number.toInt % 0x100000000 = number.toUInt32.toNat := by
  have signed : number.toInt = number.toBitVec.toInt := rfl
  have unsigned : number.toUInt32.toNat = number.toBitVec.toNat := rfl
  have bounded := number.toBitVec.isLt
  rw [signed, unsigned, BitVec.toInt_eq_toNat_cond]
  split <;> omega

theorem ofInt_toNat (number : UInt32) : Int32.ofInt number.toNat = number.toInt32 := by
  apply Int32.toBitVec_inj.mp
  simp

theorem ofInt_tdiv (left right : Int32) :
    Int32.ofInt (left.toInt.tdiv right.toInt) = left / right := by
  apply Int32.toInt_inj.mp
  rw [Int32.toInt_div, Int32.toInt_ofInt]

theorem ofInt_emod (left right : Int32) :
    Int32.ofInt (left.toInt % 0x100000000 % (right.toInt % 0x100000000)) =
      (left.toUInt32 % right.toUInt32).toInt32 := by
  rw [toInt_emod, toInt_emod, ← Int.natCast_emod, ← UInt32.toNat_mod, ofInt_toNat]

/-- Only one quotient does not fit into 32 bits. -/
theorem tdiv_eq_iff (left right : Int32) :
    left.toInt.tdiv right.toInt = 0x80000000 ↔ left = Int32.minValue ∧ right = -1 := by
  rw [← Int32.toInt_inj, ← Int32.toInt_inj]
  have least : Int32.minValue.toInt = -0x80000000 := rfl
  have negated : (-1 : Int32).toInt = -1 := rfl
  rw [least, negated]
  have lower := left.le_toInt
  have upper := left.toInt_lt
  constructor
  · intro quotient
    have size : left.toInt.natAbs / right.toInt.natAbs = 0x80000000 :=
      (Int.natAbs_tdiv _ _).symm.trans (congrArg Int.natAbs quotient)
    -- By two or more, the quotient would be at most half as large.
    have unit : right.toInt.natAbs = 1 := by
      rcases Nat.lt_or_ge right.toInt.natAbs 2 with small | large
      · have nonzero : right.toInt.natAbs ≠ 0 := by
          intro zero
          simp [zero] at size
        omega
      · have halved : left.toInt.natAbs / right.toInt.natAbs ≤ left.toInt.natAbs / 2 :=
          Nat.div_le_div_left large (by decide)
        omega
    rcases Int.natAbs_eq_iff.mp unit with rightEq | rightEq
    · rw [rightEq, Int.natCast_one, Int.tdiv_one] at quotient
      omega
    · rw [rightEq, Int.natCast_one, Int.tdiv_neg, Int.tdiv_one] at quotient
      exact ⟨by omega, rightEq⟩
  · rintro ⟨leftEq, rightEq⟩
    rw [leftEq, rightEq]
    decide

end Word

/-- An operator means what its arithmetic instruction does. -/
theorem Operator.compute_eq {op : Operator} {arithmetic : Ir.Arithmetic}
    (computable : op.arithmetic? = some arithmetic) (left right : Int32) :
    op.compute left right = Node.running (arithmetic.eval left right) := by
  cases op with
  | add =>
      obtain rfl := Option.some.inj computable
      simp [compute, Ir.Arithmetic.eval, Node.running, Int32.ofInt_add]
  | sub =>
      obtain rfl := Option.some.inj computable
      simp [compute, Ir.Arithmetic.eval, Node.running, Int32.ofInt_sub]
  | mul =>
      obtain rfl := Option.some.inj computable
      simp [compute, Ir.Arithmetic.eval, Node.running, Int32.ofInt_mul]
  | div =>
      obtain rfl := Option.some.inj computable
      simp only [compute, Ir.Arithmetic.eval, Word.toInt_eq_zero_iff, Word.tdiv_eq_iff,
        Word.ofInt_tdiv]
      split
      · rfl
      · split <;> rfl
  | mod =>
      obtain rfl := Option.some.inj computable
      simp only [compute, Ir.Arithmetic.eval, Word.toInt_eq_zero_iff, Word.ofInt_emod]
      split <;> rfl
  | exp => simp [arithmetic?] at computable
  | root => simp [arithmetic?] at computable

end Tuplet
