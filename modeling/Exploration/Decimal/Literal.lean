import Exploration.Text.Numeral

/-!
# Decimal literals

A decimal as it is written, and the double nearest to it.
-/

namespace Exploration.Decimal

/-- The number `coefficient * 10 ^ scale` with a sign. -/
structure Literal where
  negative : Bool
  coefficient : Nat
  scale : Int
  deriving DecidableEq, Repr

/-- Infinite when the literal is beyond the doubles. -/
def Literal.toDouble (l : Literal) : Float :=
  let x := Float.ofScientific l.coefficient (decide (l.scale < 0)) l.scale.natAbs
  if l.negative then -x else x

/-- The literal with these digits before and after the point. -/
def Literal.ofParts (negative : Bool) (whole fraction : List Char) (exponent : Int) : Literal :=
  ⟨negative, ofDigits (whole ++ fraction), exponent - fraction.length⟩

/-- A sign, if there is one, and what follows it. -/
def splitSign : List Char → Bool × List Char
  | '-' :: rest => (true, rest)
  | '+' :: rest => (false, rest)
  | cs => (false, cs)

/-- The exponent at the end of a literal, 0 if the literal ends before it. -/
def readExponent : List Char → Option Int
  | [] => some 0
  | c :: rest =>
    if c = 'e' || c = 'E' then
      let (negative, ds) := splitSign rest
      (ofDigits? ds).map fun n => if negative then -(n : Int) else n
    else none

/-- A literal with digits before or after the point, the point and the exponent being optional. -/
def Literal.read? (cs : List Char) : Option Literal :=
  let (negative, cs) := splitSign cs
  let whole := cs.takeWhile isDigit
  let rest := cs.dropWhile isDigit
  let (fraction, rest) := match rest with
    | '.' :: rest => (rest.takeWhile isDigit, rest.dropWhile isDigit)
    | rest => ([], rest)
  if whole = [] ∧ fraction = [] then none
  else (readExponent rest).map (Literal.ofParts negative whole fraction)

end Exploration.Decimal
