/-!
# Doubles

The parts of a double, the total order of doubles (`totalLe`), and the operations whose treatment
of NaN and of signed zeros an answer can show.
-/

namespace Exploration.Double

/-- What a double stands for: a finite one is `mantissa * 2 ^ exponent` with a sign. -/
inductive Parts where
  | nan
  | infinite (negative : Bool)
  | finite (negative : Bool) (mantissa : Nat) (exponent : Int)
  deriving DecidableEq, Repr

/-- The power of two that the last place of a subnormal double counts. -/
def leastExponent : Int := -1074

def parts (x : Float) : Parts :=
  let bits := x.toBits.toNat
  let negative := decide (Nat.pow 2 63 ≤ bits)
  let biased := bits / Nat.pow 2 52 % Nat.pow 2 11
  let fraction := bits % Nat.pow 2 52
  if biased = 2047 then
    if fraction = 0 then .infinite negative else .nan
  else if biased = 0 then .finite negative fraction leastExponent
  else .finite negative (Nat.pow 2 52 + fraction) (leastExponent + (biased - 1 : Nat))

/-- Neither NaN nor infinite. -/
def isFinite (x : Float) : Bool :=
  match parts x with
  | .finite .. => true
  | _ => false

/-- The position of a double in the total order: every bit pattern has its own, a negative number
stands below a positive one, `-0.0` just below `0.0`, and NaN above all. -/
def rank (x : Float) : Int :=
  let bits := x.toBits.toNat
  if bits < Nat.pow 2 63 then bits else (Nat.pow 2 63 : Nat) - 1 - (bits : Int)

def totalLe (x y : Float) : Bool := decide (rank x ≤ rank y)

def totalLt (x y : Float) : Bool := decide (rank x < rank y)

/-- The larger of two doubles; NaN only if both are. -/
def larger (x y : Float) : Float :=
  if x.isNaN then y else if y.isNaN then x else if x < y then y else x

/-- The smaller of two doubles; NaN only if both are. -/
def smaller (x y : Float) : Float :=
  if x.isNaN then y else if y.isNaN then x else if y < x then y else x

/-- The nearest double in `[0, 1]`; a zero keeps its sign. -/
def clampUnit (x : Float) : Float :=
  if x < 0 then 0 else if 1 < x then 1 else x

/-- The sum in list order. It starts at the neutral element of addition, which is `-0.0`. -/
def sum (xs : List Float) : Float := xs.foldl (· + ·) (-0.0)

/-- The logarithm of `1 + x` for `x ≥ 0`. The part of `x` that `1 + x` rounds off is added back. -/
def log1p (x : Float) : Float :=
  let u := 1 + x
  if isFinite u then Float.log u + (x - (u - 1)) / u else u

end Exploration.Double
