import SealedScript.Floating.Format

/-!
The shortest decimal that reads back.

The reals that round to a floating-point number form an interval. For one, two, three, … digits the
two neighbours of the number on that decimal grid are tried: the first grid with a neighbour in the
interval gives the digits, the nearer neighbour when both lie in it, the upper one on a tie.

All grids are coarsenings of one with more digits than any number needs, so the interval is measured
once, in units of that grid.
-/

namespace SealedScript.Floating
set_option autoImplicit false

/-- Decimal digits after a point: `0.d₁d₂… · 10 ^ point`. -/
structure Digits where
  digits : List Char
  point : Int
deriving DecidableEq, Repr

/-- A grid point of `10 ^ place` as digits without closing zeros. -/
def Digits.ofGrid (candidate : Nat) (place : Int) : Digits :=
  let all := Nat.toDigits 10 candidate
  ⟨(all.reverse.dropWhile (· == '0')).reverse, all.length + place⟩

/-- The interval of reals that round to a number, in parts of which `one` make up `10 ^ place`; its ends
belong to it exactly when `closed`. -/
structure Interval where
  low : Nat
  centre : Nat
  high : Nat
  one : Nat
  place : Int
  closed : Bool

/-- How many places the finest grid lies below the coarsest. -/
def finestGrid : Nat := 17

/-- A place at or in front of the first digit of a number below `2 ^ (exponent + 1)`, the factor being
the logarithm of two. -/
def leadingPlace (exponent : Int) : Int := exponent * 30103 / 100000 + 1

/-- The interval around a positive number of the format. Below a power of two the neighbour is only
half as far away. -/
def Format.interval (f : Format) (significand : Nat) (exponent : Int) : Interval :=
  let place := leadingPlace (exponent + significand.log2) - finestGrid
  let (quarter, one) := Format.scaled 1 1 (exponent - 2)
  let part := quarter * Nat.pow 10 (-place).toNat
  let below :=
    if significand = Nat.pow 2 f.fractionBits ∧ f.leastExponent < exponent then 1 else 2
  { low := (4 * significand - below) * part
    centre := 4 * significand * part
    high := (4 * significand + 2) * part
    one := one * Nat.pow 10 place.toNat
    place
    closed := significand % 2 = 0 }

namespace Interval

/-- Does a point of the finest grid lie in the interval? -/
def contains (i : Interval) (candidate : Nat) : Bool :=
  let value := candidate * i.one
  if i.closed then decide (i.low ≤ value) && decide (value ≤ i.high)
  else decide (i.low < value) && decide (value < i.high)

/-- The point to print of the grid that is coarser by a factor, when one of the two neighbours lies in
the interval. A grid without a point between zero and the number is too coarse. -/
def choose (i : Interval) (factor : Nat) : Option Nat :=
  let cell := factor * i.one
  let lower := i.centre / cell
  if lower = 0 then none
  else
    match i.contains (lower * factor), i.contains ((lower + 1) * factor) with
    | true, true => some (if cell ≤ 2 * (i.centre % cell) then lower + 1 else lower)
    | true, false => some lower
    | false, true => some (lower + 1)
    | false, false => none

/-- The digits of the coarsest grid that has a point in the interval. -/
def digits? (i : Interval) : Option Digits :=
  (List.range (finestGrid + 1)).reverse.findSome? fun coarser =>
    (i.choose (Nat.pow 10 coarser)).map fun candidate => .ofGrid candidate (i.place + coarser)

end Interval

/-- The shortest digits of a positive number of the format. -/
def Format.shortest (f : Format) (significand : Nat) (exponent : Int) : Digits :=
  let i := f.interval significand exponent
  i.digits?.getD (.ofGrid (i.centre / i.one) i.place)

end SealedScript.Floating
