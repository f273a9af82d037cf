import Exploration.Text.Numeral
import Exploration.Double

/-!
# The shortest decimal of a double

A double `mantissa * 2 ^ exponent` is nearest to all the reals of an interval around it, and every
decimal in the interval reads back as that double. `shortest` takes the coarsest decimal grid with
a point in the interval, and on it the point nearest to the double.
-/

namespace Exploration.Decimal

/-- Where a value halfway between two neighbours goes. -/
inductive Tie where
  | up
  | even
  deriving DecidableEq, Repr

/-- The positive number `coefficient * 10 ^ scale`. -/
structure Scaled where
  coefficient : Nat
  scale : Int
  deriving DecidableEq, Repr

/-- The interval of the reals nearest to a double, in quarters of its last place. -/
structure Interval where
  low : Nat
  high : Nat
  /-- Whether the ends belong to it. -/
  closed : Bool

/-- The last place is half as wide below a power of two, unless that is the least exponent. A real
halfway between two doubles belongs to the even mantissa. -/
def Interval.around (mantissa : Nat) (exponent : Int) : Interval :=
  let below := if mantissa = Nat.pow 2 52 ∧ Double.leastExponent < exponent then 1 else 2
  ⟨4 * mantissa - below, 4 * mantissa + 2, mantissa % 2 = 0⟩

/-- `a * 2 ^ e` and `b * 10 ^ s`, both multiplied by the least number that makes them whole. -/
def commensurate (a : Nat) (e : Int) (b : Nat) (s : Int) : Nat × Nat :=
  (a * Nat.pow 2 e.toNat * Nat.pow 10 (-s).toNat, b * Nat.pow 10 s.toNat * Nat.pow 2 (-e).toNat)

/-- Whether `coefficient * 10 ^ scale` lies in the interval around a double of that exponent. -/
def Interval.contains (i : Interval) (exponent : Int) (d : Scaled) : Bool :=
  let (low, x) := commensurate i.low (exponent - 2) d.coefficient d.scale
  let (high, y) := commensurate i.high (exponent - 2) d.coefficient d.scale
  if i.closed then low ≤ x && y ≤ high else low < x && y < high

/-- The point of the grid `10 ^ scale` at or below `mantissa * 2 ^ exponent`. -/
def gridBelow (mantissa : Nat) (exponent scale : Int) : Scaled :=
  let (x, unit) := commensurate mantissa exponent 1 scale
  ⟨x / unit, scale⟩

/-- Whether the grid point above is to be taken rather than the one below. -/
def nearerAbove (tie : Tie) (mantissa : Nat) (exponent : Int) (below : Scaled) : Bool :=
  let (x, middle) := commensurate (2 * mantissa) exponent (2 * below.coefficient + 1) below.scale
  middle < x || (middle = x && (tie = .up || below.coefficient % 2 = 1))

/-- The point of the grid `10 ^ scale` that stands for the double, if one reads back as it. -/
def onGrid (tie : Tie) (mantissa : Nat) (exponent scale : Int) : Option Scaled :=
  let interval := Interval.around mantissa exponent
  let below := gridBelow mantissa exponent scale
  let above : Scaled := ⟨below.coefficient + 1, scale⟩
  match interval.contains exponent below, interval.contains exponent above with
  | true, true => some (if nearerAbove tie mantissa exponent below then above else below)
  | true, false => some below
  | false, true => some above
  | false, false => none

/-- The greatest `e` with `10 ^ e ≤ mantissa * 2 ^ exponent`, for a positive mantissa. -/
def leadingExponent (mantissa : Nat) (exponent : Int) : Int :=
  if 0 ≤ exponent then ((digits (mantissa * Nat.pow 2 exponent.toNat)).length : Int) - 1
  else
    let denominator := Nat.pow 2 (-exponent).toNat
    if denominator ≤ mantissa then ((digits (mantissa / denominator)).length : Int) - 1
    else - ((digits ((denominator - 1) / mantissa)).length : Int)

/-- The first of `count` ever finer grids with a point that stands for the double. -/
def searchGrids (tie : Tie) (mantissa : Nat) (exponent : Int) : Nat → Int → Option Scaled
  | 0, _ => none
  | count + 1, scale =>
    (onGrid tie mantissa exponent scale).or (searchGrids tie mantissa exponent count (scale - 1))

/-- Trailing zeros of the coefficient moved into the scale. -/
def dropZeros : Nat → Scaled → Scaled
  | 0, d => d
  | fuel + 1, d =>
    if d.coefficient % 10 = 0 then dropZeros fuel ⟨d.coefficient / 10, d.scale + 1⟩ else d

/-- Seventeen digits always suffice. -/
def shortest (tie : Tie) (mantissa : Nat) (exponent : Int) : Scaled :=
  if mantissa = 0 then ⟨0, 0⟩
  else
    let found := searchGrids tie mantissa exponent 17 (leadingExponent mantissa exponent)
    dropZeros 18 (found.getD ⟨mantissa, exponent⟩)

end Exploration.Decimal
