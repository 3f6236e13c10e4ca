import Tuplet.Decimal.Shortest

/-!
# Single-precision numbers as text

A single-precision number is kept as its 32 bits and never computed with. Its
text is the shortest decimal that reads back as the same number, without an
exponent; zero and infinity keep their sign, what is not a number has none.
-/

namespace Tuplet

/-- The bits of a single-precision number. -/
structure Single where
  bits : UInt32
  deriving DecidableEq, Repr

namespace Single

/-- How many fractions there are for each exponent: `2 ^ 23`. -/
def fractions : Nat := 8388608

/-- Whether the sign bit is set. -/
def isNegative (single : Single) : Bool := 256 ≤ single.bits.toNat / fractions

/-- The exponent bits. -/
def exponentBits (single : Single) : Nat := single.bits.toNat / fractions % 256

/-- The fraction bits. -/
def fractionBits (single : Single) : Nat := single.bits.toNat % fractions

/-- The whole number of which a finite number is a multiple by a power of two. -/
def mantissa (single : Single) : Nat :=
  if single.exponentBits = 0 then single.fractionBits else fractions + single.fractionBits

/-- The power of two of which a finite number is a multiple. -/
def exponent (single : Single) : Int :=
  if single.exponentBits = 0 then -149 else (single.exponentBits : Int) - 150

/--
The numbers that read as a finite one, in quarters of its last place. The
neighbour below a power of two is only half as far away as the one above.
-/
def interval (single : Single) : Decimal.Interval where
  low := 4 * single.mantissa -
    if single.fractionBits = 0 ∧ 1 < single.exponentBits then 1 else 2
  value := 4 * single.mantissa
  high := 4 * single.mantissa + 2
  exponent := single.exponent - 2
  isClosed := single.mantissa % 2 = 0

/-- The coarsest grid that any finite number needs, as a power of ten. -/
def coarsestGrid : Int := 38

/-- How many finer grids there are until every finite number lies on the grid. -/
def finerGrids : Nat := 38 + 151

/-- The absolute value of a number as text. -/
def renderMagnitude (single : Single) : String :=
  if single.exponentBits = 255 then "inf"
  else if single.mantissa = 0 then "0"
  else (single.interval.search coarsestGrid finerGrids).render

/-- A number as text. -/
def render (single : Single) : String :=
  if single.exponentBits = 255 ∧ single.fractionBits ≠ 0 then "NaN"
  else (if single.isNegative then "-" else "") ++ single.renderMagnitude

end Single

end Tuplet
