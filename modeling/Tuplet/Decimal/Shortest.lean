/-!
# Shortest decimals

Of the decimal numbers in an interval around a value, the shortest is on the
coarsest grid of powers of ten that has a point in the interval. On that grid
only the two neighbours of the value need to be looked at: if any point of a
grid is in the interval, one of them is. All arithmetic is exact.
-/

namespace Tuplet

/-- The number `digits · 10 ^ exponent`. -/
structure Decimal where
  digits : Nat
  exponent : Int
  deriving DecidableEq, Repr

namespace Decimal

/-- An interval around a value; its numbers are multiples of `2 ^ exponent`. -/
structure Interval where
  low : Nat
  value : Nat
  high : Nat
  exponent : Int
  /-- Whether the two ends belong to the interval. -/
  isClosed : Bool
  deriving DecidableEq, Repr

namespace Interval

/-- The unit of the interval, brought to whole numbers along with `gridUnit`. -/
def valueUnit (interval : Interval) (grid : Int) : Nat :=
  Nat.pow 2 interval.exponent.toNat * Nat.pow 10 (-grid).toNat

/-- The distance of two points of the grid, brought to whole numbers along with `valueUnit`. -/
def gridUnit (interval : Interval) (grid : Int) : Nat :=
  Nat.pow 10 grid.toNat * Nat.pow 2 (-interval.exponent).toNat

/-- Whether a point of the grid is in the interval. -/
def contains (interval : Interval) (grid : Int) (point : Nat) : Bool :=
  let low := interval.low * interval.valueUnit grid
  let high := interval.high * interval.valueUnit grid
  let place := point * interval.gridUnit grid
  if interval.isClosed then decide (low ≤ place ∧ place ≤ high)
  else decide (low < place ∧ place < high)

/-- The last point of the grid that is not above the value. -/
def floor (interval : Interval) (grid : Int) : Nat :=
  interval.value * interval.valueUnit grid / interval.gridUnit grid

/-- The point of the grid in the interval that is nearest to the value; the upper of two. -/
def nearest? (interval : Interval) (grid : Int) : Option Nat :=
  let below := interval.floor grid
  let distance := interval.value * interval.valueUnit grid - below * interval.gridUnit grid
  match interval.contains grid below, interval.contains grid (below + 1) with
  | true, true =>
      if 2 * distance < interval.gridUnit grid then some below else some (below + 1)
  | true, false => some below
  | false, true => some (below + 1)
  | false, false => none

/-- The shortest decimal on the given grid or one of the `finer` grids below it. -/
def search (interval : Interval) (grid : Int) : Nat → Decimal
  | 0 => ⟨interval.floor grid, grid⟩
  | finer + 1 =>
      match interval.nearest? grid with
      | some digits => ⟨digits, grid⟩
      | none => search interval (grid - 1) finer

end Interval

/-- A positive decimal without exponent. -/
def render (decimal : Decimal) : String :=
  let digits := (toString decimal.digits).toList
  let places := (-decimal.exponent).toNat
  let zeros := List.replicate decimal.exponent.toNat '0'
  let whole := digits.take (digits.length - places)
  let fraction := List.replicate (places - digits.length) '0' ++
    digits.drop (digits.length - places)
  if places = 0 then String.ofList (digits ++ zeros)
  else String.ofList ((if whole.isEmpty then ['0'] else whole) ++ '.' :: fraction)

end Decimal

end Tuplet
