import Mathlib.Data.List.Induction
import Mathlib.Data.Nat.Digits.Defs
import Tuplet.Syntax.Name

/-!
# Numerals

A numeral is a row of decimal digits, at least one, with or without a minus sign in front. Every
digit counts for itself times ten to the power of its place. The integer literals are the numerals
whose values have 32 bits, with any number of leading zeros.

Numbers are read from the highest place down, so the inductions are on the last digit of a row.
A further digit never takes a number closer to zero. For that reason the range may be checked at
every digit or only once, behind the last one.
-/

namespace Tuplet

theorem toInt_ofInt_of_within {number : Int}
    (within : -2147483648 ≤ number ∧ number ≤ 2147483647) : (Int32.ofInt number).toInt = number :=
  Int32.toInt_ofInt_of_le (by omega) (by omega)

theorem toInt32?_eq_some_iff {number : Int} {value : Int32} :
    toInt32? number = some value ↔
      (-2147483648 ≤ number ∧ number ≤ 2147483647) ∧ value.toInt = number := by
  rw [toInt32?]
  split
  case isTrue within =>
      rw [Option.some.injEq, ← Int32.toInt_inj, toInt_ofInt_of_within within,
        and_iff_right within, eq_comm]
  case isFalse outside =>
      constructor
      · intro read
        cases read
      · intro fits
        exact absurd fits.1 outside

theorem toInt32?_toInt (value : Int32) : toInt32? value.toInt = some value := by
  have lower := value.le_toInt
  have upper := value.toInt_lt
  exact toInt32?_eq_some_iff.mpr ⟨by omega, rfl⟩

/-- A text of digits only is read without a sign. -/
theorem intLiteral?_of_digits {text : String} (nonempty : text.toList ≠ [])
    (digits : ∀ char ∈ text.toList, char.isDigit = true) :
    intLiteral? text = toInt32? (digitsValue text.toList) := by
  have isNumber : natLiteral? text.toList = some (digitsValue text.toList) := by
    rw [natLiteral?, if_pos ⟨nonempty, List.all_eq_true.mpr digits⟩]
  rw [intLiteral?]
  split
  case h_1 signless spelled =>
    have isDigit := digits '-' (by simp [spelled])
    exact absurd isDigit (by decide)
  case h_2 =>
    rw [isNumber]
    rfl

theorem intLiteral?_of_minus {text : String} {digits : List Char}
    (spelled : text.toList = '-' :: digits) :
    intLiteral? text = (natLiteral? digits).bind fun value => toInt32? (-value) := by
  rw [intLiteral?, spelled]
  rfl

/-- At most one minus sign, then one or more decimal digits, the highest place first. -/
structure Numeral where
  negative : Bool
  digits : List (Fin 10)
  nonempty : digits ≠ []

namespace Numeral

/-- The characters of a row of digits. -/
def spell (digits : List (Fin 10)) : List Char := digits.map fun digit => digit.val.digitChar

/-- What a row of digits stands for, the last one being that of the ones. -/
def magnitude (digits : List (Fin 10)) : Nat := Nat.ofDigits 10 (digits.map Fin.val).reverse

def signed (negative : Bool) (magnitude : Nat) : Int :=
  if negative then -magnitude else magnitude

@[simp]
theorem signed_false (magnitude : Nat) : signed false magnitude = magnitude := rfl

@[simp]
theorem signed_true (magnitude : Nat) : signed true magnitude = -magnitude := rfl

def text (numeral : Numeral) : String :=
  String.ofList (if numeral.negative then '-' :: spell numeral.digits else spell numeral.digits)

def value (numeral : Numeral) : Int := signed numeral.negative (magnitude numeral.digits)

/--
Takes a further digit into a 32-bit number, away from zero. The number moves up by a place
before the digit is added, and neither of the two may leave the range.
-/
def extend? (negative : Bool) (number : Int32) (digit : Fin 10) : Option Int32 :=
  (toInt32? (10 * number.toInt)).bind fun moved => toInt32? (moved.toInt + signed negative digit)

/-- Reads a numeral within 32 bits, digit by digit. -/
def readChecked? (numeral : Numeral) : Option Int32 :=
  numeral.digits.foldlM (extend? numeral.negative) 0

section Digits

variable {char : Char} {chars : List Char}

theorem exists_digit (isDigit : char.isDigit = true) :
    ∃ digit : Fin 10, digit.val.digitChar = char := by
  rcases Bool.and_eq_true_iff.mp isDigit with ⟨notBefore, notBehind⟩
  have lower : 48 ≤ char.toNat := UInt32.le_iff_toNat_le.mp (of_decide_eq_true notBefore)
  have upper : char.toNat ≤ 57 := UInt32.le_iff_toNat_le.mp (of_decide_eq_true notBehind)
  have below : char.toNat - 48 < 10 := by omega
  refine ⟨⟨char.toNat - 48, below⟩, Char.toNat_inj.mp ?_⟩
  rw [Nat.toNat_digitChar_of_lt_ten below]
  omega

theorem isDigit_of_mem_spell {digits : List (Fin 10)} (occurs : char ∈ spell digits) :
    char.isDigit = true := by
  rcases List.mem_map.mp occurs with ⟨digit, _, rfl⟩
  rw [Nat.isDigit_digitChar]
  exact decide_eq_true digit.isLt

theorem exists_spell (allDigits : ∀ char ∈ chars, char.isDigit = true) :
    ∃ digits, spell digits = chars := by
  induction chars with
  | nil => exact ⟨[], rfl⟩
  | cons first rest ih =>
      rcases List.forall_mem_cons.mp allDigits with ⟨isDigit, restDigits⟩
      rcases exists_digit isDigit with ⟨digit, rfl⟩
      rcases ih restDigits with ⟨digits, rfl⟩
      exact ⟨digit :: digits, rfl⟩

theorem spell_ne_nil {digits : List (Fin 10)} (nonempty : digits ≠ []) : spell digits ≠ [] := by
  rw [spell, ne_eq, List.map_eq_nil_iff]
  exact nonempty

theorem magnitude_append_singleton (digits : List (Fin 10)) (digit : Fin 10) :
    magnitude (digits ++ [digit]) = 10 * magnitude digits + digit := by
  rw [magnitude, List.map_append, List.reverse_append, List.map_singleton,
    List.reverse_singleton, List.singleton_append, Nat.ofDigits_cons, Nat.add_comm]
  rfl

theorem digitsValue_spell (digits : List (Fin 10)) :
    digitsValue (spell digits) = magnitude digits := by
  induction digits using List.reverseRecOn with
  | nil => rfl
  | append_singleton digits digit ih =>
      have last : digit.val.digitChar.toNat - '0'.toNat = digit :=
        Nat.toNat_digitChar_sub_48_of_lt_ten digit.isLt
      calc digitsValue (spell (digits ++ [digit]))
        _ = 10 * digitsValue (spell digits) + (digit.val.digitChar.toNat - '0'.toNat) := by
          rw [spell, List.map_append, digitsValue, List.foldl_append]
          rfl
        _ = magnitude (digits ++ [digit]) := by rw [last, ih, magnitude_append_singleton]

theorem natLiteral?_spell {digits : List (Fin 10)} (nonempty : digits ≠ []) :
    natLiteral? (spell digits) = some (magnitude digits) := by
  have allDigits : (spell digits).all Char.isDigit = true :=
    List.all_eq_true.mpr fun _ => isDigit_of_mem_spell
  rw [natLiteral?, if_pos ⟨spell_ne_nil nonempty, allDigits⟩, digitsValue_spell]

theorem exists_spell_of_natLiteral? {number : Nat} (read : natLiteral? chars = some number) :
    ∃ digits, digits ≠ [] ∧ spell digits = chars := by
  rw [natLiteral?] at read
  split at read
  case isTrue shape =>
      rcases exists_spell (List.all_eq_true.mp shape.2) with ⟨digits, rfl⟩
      refine ⟨digits, ?_, rfl⟩
      rintro rfl
      exact shape.1 rfl
  case isFalse => cases read

end Digits

section Texts

theorem intLiteral?_text (numeral : Numeral) :
    intLiteral? numeral.text = toInt32? numeral.value := by
  rcases numeral with ⟨negative, digits, nonempty⟩
  cases negative with
  | false =>
      have written : (text ⟨false, digits, nonempty⟩).toList = spell digits :=
        String.toList_ofList
      rw [intLiteral?_of_digits, written, digitsValue_spell]
      · rfl
      · rw [written]
        exact spell_ne_nil nonempty
      · rw [written]
        exact fun _ => isDigit_of_mem_spell
  | true =>
      have written : (text ⟨true, digits, nonempty⟩).toList = '-' :: spell digits :=
        String.toList_ofList
      rw [intLiteral?_of_minus written, natLiteral?_spell nonempty]
      rfl

theorem exists_text_of_intLiteral? {text : String} {value : Int32}
    (read : intLiteral? text = some value) : ∃ numeral : Numeral, numeral.text = text := by
  rw [intLiteral?] at read
  split at read
  case h_1 chars spelled =>
      rcases Option.bind_eq_some_iff.mp read with ⟨number, isNumber, _⟩
      rcases exists_spell_of_natLiteral? isNumber with ⟨digits, nonempty, rfl⟩
      refine ⟨⟨true, digits, nonempty⟩, ?_⟩
      rw [← String.toList_inj, spelled]
      exact String.toList_ofList
  case h_2 =>
      rcases Option.bind_eq_some_iff.mp read with ⟨number, isNumber, _⟩
      rcases exists_spell_of_natLiteral? isNumber with ⟨digits, nonempty, spelled⟩
      refine ⟨⟨false, digits, nonempty⟩, ?_⟩
      rw [← String.toList_inj, ← spelled]
      exact String.toList_ofList

/-- The decimal text of an integer is a numeral. -/
theorem exists_text_eq_toString (number : Int) :
    ∃ numeral : Numeral, numeral.text = toString number ∧ numeral.value = number := by
  have allDigits : ∀ char ∈ Nat.toDigits 10 number.natAbs, char.isDigit = true :=
    fun _ => Nat.isDigit_of_mem_toDigits (by decide) (by decide)
  rcases exists_spell allDigits with ⟨digits, spelled⟩
  have nonempty : digits ≠ [] := by
    rintro rfl
    exact Nat.toDigits_ne_nil spelled.symm
  have counted : magnitude digits = number.natAbs := by
    rw [← digitsValue_spell, spelled]
    exact Nat.ofDigitChars_ten_toDigits
  rw [Int.toString_eq_repr, Int.repr_eq_if]
  split
  case isTrue unsigned =>
      refine ⟨⟨false, digits, nonempty⟩, ?_, ?_⟩
      · rw [← String.toList_inj, Nat.toList_repr, ← Int.natAbs_of_nonneg unsigned]
        exact String.toList_ofList.trans spelled
      · rw [value, signed_false, counted]
        exact Int.natAbs_of_nonneg unsigned
  case isFalse isNegative =>
      have opposite : (-number).toNat = number.natAbs := by omega
      refine ⟨⟨true, digits, nonempty⟩, ?_, ?_⟩
      · rw [← String.toList_inj, String.toList_append, Nat.toList_repr, opposite, ← spelled]
        exact String.toList_ofList
      · rw [value, signed_true, counted]
        omega

theorem intLiteral?_toString (value : Int32) : intLiteral? (toString value.toInt) = some value := by
  rcases exists_text_eq_toString value.toInt with ⟨numeral, written, counted⟩
  rw [← written, intLiteral?_text, counted, toInt32?_toInt]

end Texts

section Checked

theorem signed_extended (negative : Bool) (number digit : Nat) :
    signed negative (10 * number + digit) =
      10 * signed negative number + signed negative digit := by
  cases negative with
  | false =>
      simp only [signed_false]
      omega
  | true =>
      simp only [signed_true]
      omega

/-- A number that a further digit leaves within the range was within it, moved up or not. -/
theorem within_of_extended {negative : Bool} {number digit : Nat}
    (within : -2147483648 ≤ signed negative (10 * number + digit) ∧
      signed negative (10 * number + digit) ≤ 2147483647) :
    (-2147483648 ≤ signed negative number ∧ signed negative number ≤ 2147483647) ∧
      -2147483648 ≤ 10 * signed negative number ∧ 10 * signed negative number ≤ 2147483647 := by
  cases negative with
  | false =>
      simp only [signed_false] at within ⊢
      omega
  | true =>
      simp only [signed_true] at within ⊢
      omega

/-- A digit that is taken into a number of the range reads the same as the longer row. -/
theorem bind_extend? (negative : Bool) (number : Nat) (digit : Fin 10) :
    ((toInt32? (signed negative number)).bind fun read => extend? negative read digit) =
      toInt32? (signed negative (10 * number + digit)) := by
  ext value
  simp only [extend?, Option.bind_eq_some_iff, toInt32?_eq_some_iff]
  constructor
  · rintro ⟨read, ⟨_, exactly⟩, moved, ⟨_, movedUp⟩, within, added⟩
    rw [movedUp, exactly, ← signed_extended] at within added
    exact ⟨within, added⟩
  · -- nothing that is checked on the way is farther from zero than the result
    rintro ⟨within, added⟩
    rcases within_of_extended within with ⟨fits, movedFits⟩
    have exactly := toInt_ofInt_of_within fits
    have movedUp := toInt_ofInt_of_within movedFits
    refine ⟨_, ⟨fits, exactly⟩, Int32.ofInt (10 * signed negative number), ?_, ?_⟩
    · rw [exactly]
      exact ⟨movedFits, movedUp⟩
    · rw [movedUp, ← signed_extended]
      exact ⟨within, added⟩

theorem foldlM_extend? (negative : Bool) (digits : List (Fin 10)) :
    digits.foldlM (extend? negative) 0 = toInt32? (signed negative (magnitude digits)) := by
  induction digits using List.reverseRecOn with
  | nil => cases negative <;> rfl
  | append_singleton digits digit ih =>
      calc (digits ++ [digit]).foldlM (extend? negative) 0
        _ = (digits.foldlM (extend? negative) 0).bind fun read => extend? negative read digit := by
          rw [List.foldlM_append]
          simp only [List.foldlM_cons, List.foldlM_nil, bind_pure]
          rfl
        _ = toInt32? (signed negative (10 * magnitude digits + digit)) := by
          rw [ih, bind_extend?]
        _ = toInt32? (signed negative (magnitude (digits ++ [digit]))) := by
          rw [magnitude_append_singleton]

end Checked

/--
A text is read as an integer literal exactly if it is a numeral with a value of 32 bits, and it is
read as that value. Checking the range at every digit reads the same. In particular every 32-bit
integer is read from its decimal text.
-/
theorem literals_read_exactly :
    (∀ (text : String) (value : Int32), intLiteral? text = some value ↔
      ∃ numeral : Numeral, numeral.text = text ∧
        (-2147483648 ≤ numeral.value ∧ numeral.value ≤ 2147483647) ∧
        value.toInt = numeral.value) ∧
    (∀ numeral : Numeral, intLiteral? numeral.text = numeral.readChecked?) ∧
    ∀ value : Int32, intLiteral? (toString value.toInt) = some value := by
  refine ⟨?_, ?_, intLiteral?_toString⟩
  · intro text value
    constructor
    · intro read
      rcases exists_text_of_intLiteral? read with ⟨numeral, rfl⟩
      rw [intLiteral?_text] at read
      exact ⟨numeral, rfl, toInt32?_eq_some_iff.mp read⟩
    · rintro ⟨numeral, rfl, fits⟩
      rw [intLiteral?_text]
      exact toInt32?_eq_some_iff.mpr fits
  · intro numeral
    rw [intLiteral?_text, readChecked?, foldlM_extend?, value]

example : intLiteral? "-0002147483648" = some (-2147483648) ∧
    intLiteral? "2147483648" = none ∧ intLiteral? "--1" = none := by decide +kernel

end Numeral

end Tuplet
