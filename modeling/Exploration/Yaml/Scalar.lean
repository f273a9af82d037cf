import Exploration.Decimal.Literal
import Exploration.Double
import Exploration.Text.Numeral
import Exploration.Value

/-!
# YAML scalars

What a scalar stands for. One in quotes is a text. A plain one may be null, a flag, an integer in
one of four bases or a decimal, and is a text otherwise; digits after a leading zero are a text.
-/

namespace Exploration.Yaml

open Decimal (isDigit)

/-- An integer without its sign. -/
def readNatural : List Char → Option Nat
  | '0' :: 'x' :: ds => Numeral.read? 16 ds
  | '0' :: 'o' :: ds => Numeral.read? 8 ds
  | '0' :: 'b' :: ds => Numeral.read? 2 ds
  | '0' :: d :: ds =>
    if isDigit d && ds.all isDigit then none else Numeral.read? 10 ('0' :: d :: ds)
  | ds => Numeral.read? 10 ds

/-- The integers of up to 128 bits, with a sign or without. -/
def readInteger : List Char → Option Int
  | '-' :: ds => (readNatural ds).bind fun n => if n ≤ Nat.pow 2 127 then some (-n) else none
  | '+' :: ds => (readNatural ds).bind fun n => if n < Nat.pow 2 128 then some n else none
  | ds => (readNatural ds).bind fun n => if n < Nat.pow 2 128 then some n else none

/-- Whether a scalar is all digits after a leading zero, whatever its sign. -/
def isPaddedDigits (cs : List Char) : Bool :=
  match (Decimal.splitSign cs).2 with
  | '0' :: d :: ds => isDigit d && ds.all isDigit
  | _ => false

/-- A decimal, or infinity or NaN after a point. A decimal beyond the doubles is none. -/
def readDouble (cs : List Char) : Option Float :=
  let unsigned := if cs.head? = some '+' then cs.tail else cs
  let infinity : Float := 1.0 / 0.0
  if unsigned ∈ [".inf".toList, ".Inf".toList, ".INF".toList] then some infinity
  else if cs ∈ ["-.inf".toList, "-.Inf".toList, "-.INF".toList] then some (-infinity)
  else if cs ∈ [".nan".toList, ".NaN".toList, ".NAN".toList] then some (0.0 / 0.0)
  else
    (Decimal.Literal.read? cs).bind fun l =>
      if Double.isFinite l.toDouble then some l.toDouble else none

def readFlag (cs : List Char) : Option Bool :=
  let s := String.ofList cs
  if s ∈ ["true", "True", "TRUE"] then some true
  else if s ∈ ["false", "False", "FALSE"] then some false
  else none

def isNull (cs : List Char) : Bool := String.ofList cs ∈ ["~", "null", "Null", "NULL"]

/-- A scalar, with or without quotes. A paragraph counts as quoted. -/
inductive Scalar where
  | plain (cs : List Char)
  | quoted (cs : List Char)

namespace Scalar

def chars : Scalar → List Char
  | .plain cs => cs
  | .quoted cs => cs

/-- A key is its text, whatever it would stand for as a value. -/
def text (s : Scalar) : String := String.ofList s.chars

def value (s : Scalar) : Value :=
  match s with
  | .quoted _ => .text s.text
  | .plain cs =>
    if cs = [] || isNull cs then .null
    else
      match readFlag cs, readInteger cs with
      | some b, _ => .flag b
      | none, some n => .int n
      | none, none =>
        match if isPaddedDigits cs then none else readDouble cs with
        | some x => .double x
        | none => .text s.text

end Scalar

end Exploration.Yaml
