import Exploration.Decimal.Shortest

/-!
# Written doubles

How a double is written. The digits of its shortest decimal are set out with the point at its place
or with an exponent; with a fixed number of places its exact value is rounded once, and half a unit
goes to the even neighbour.
-/

namespace Exploration.Decimal

/-! ## Shortest decimals -/

/-- The decisions of a number format. -/
structure Layout where
  tie : Tie
  /-- Whether a number with this leading exponent is written without an exponent. -/
  positional : Int → Bool
  /-- What follows the digits of a whole number. -/
  wholeEnding : List Char

/-- `digits`, of which the first counts `10 ^ leading`, with the point at its place. -/
def Layout.place (layout : Layout) (digits : List Char) (leading : Int) : List Char :=
  if leading < 0 then '0' :: '.' :: (List.replicate ((-leading).toNat - 1) '0' ++ digits)
  else
    let whole := leading.toNat + 1
    if digits.length ≤ whole then
      digits ++ List.replicate (whole - digits.length) '0' ++ layout.wholeEnding
    else digits.take whole ++ '.' :: digits.drop whole

/-- `digits` with the point after the first and a signed exponent. -/
def exponential (digits : List Char) (leading : Int) : List Char :=
  let fraction := if digits.length ≤ 1 then [] else '.' :: digits.drop 1
  let sign := if leading < 0 then '-' else '+'
  digits.take 1 ++ fraction ++ 'e' :: sign :: Decimal.digits leading.natAbs

def Layout.unsigned (layout : Layout) (d : Scaled) : List Char :=
  let digits := Decimal.digits d.coefficient
  let leading := d.scale + digits.length - 1
  if layout.positional leading then layout.place digits leading else exponential digits leading

def Layout.write (layout : Layout) (x : Float) : List Char :=
  match Double.parts x with
  | .nan => "NaN".toList
  | .infinite negative => if negative then "-inf".toList else "inf".toList
  | .finite negative mantissa exponent =>
    let text := layout.unsigned (shortest layout.tie mantissa exponent)
    if negative then '-' :: text else text

/-- Always with a point or an exponent, and without an exponent from `1e-5` up to `1e16`. -/
def Layout.exact : Layout where
  tie := .even
  positional leading := -5 ≤ leading && leading ≤ 15
  wholeEnding := ['.', '0']

/-- Never with an exponent, and whole numbers without a point. -/
def Layout.plain : Layout where
  tie := .up
  positional _ := true
  wholeEnding := []

def plainText (x : Float) : String := String.ofList (Layout.plain.write x)

/-! ## A fixed number of places -/

/-- The whole number nearest to `n / d`, the even one of two. -/
def roundDiv (n d : Nat) : Nat :=
  let q := n / d
  let twice := 2 * (n % d)
  if d < twice ∨ (twice = d ∧ q % 2 = 1) then q + 1 else q

/-- `mantissa * 2 ^ exponent` in units of `10 ^ -places`. -/
def inUnits (places mantissa : Nat) (exponent : Int) : Nat :=
  roundDiv (mantissa * Nat.pow 2 exponent.toNat * Nat.pow 10 places) (Nat.pow 2 (-exponent).toNat)

/-- `n` units of `10 ^ -places`, with the point at its place. -/
def withPlaces (places n : Nat) : List Char :=
  let ds := padded (places + 1) n
  let whole := ds.length - places
  if places = 0 then ds else ds.take whole ++ '.' :: ds.drop whole

/-- The sign stays when the digits are all zero. -/
def fixed (places : Nat) (x : Float) : List Char :=
  match Double.parts x with
  | .nan => "NaN".toList
  | .infinite negative => if negative then "-inf".toList else "inf".toList
  | .finite negative mantissa exponent =>
    let text := withPlaces places (inUnits places mantissa exponent)
    if negative then '-' :: text else text

def fixedText (places : Nat) (x : Float) : String := String.ofList (fixed places x)

end Exploration.Decimal
