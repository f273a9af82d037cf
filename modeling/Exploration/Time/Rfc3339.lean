import Exploration.Text.Numeral
import Exploration.Time.Instant

/-!
# Timestamps

Instants as text in the form of RFC 3339. Written with the offset `+00:00` and as many decimals of
a second as are needed, in threes. A year outside 0 to 9999 has a sign, and is not read back.
-/

namespace Exploration.Time

open Decimal (padded isDigit)

/-! ## Writing -/

def writeYear (y : Int) : List Char :=
  if 0 ≤ y ∧ y ≤ 9999 then padded 4 y.toNat
  else (if y < 0 then '-' else '+') :: padded 4 y.natAbs

def writeDate (d : Date) : List Char :=
  writeYear d.year ++ '-' :: (padded 2 d.month ++ '-' :: padded 2 d.day)

def writeClock (hour minute second : Nat) : List Char :=
  padded 2 hour ++ ':' :: (padded 2 minute ++ ':' :: padded 2 second)

def writeFraction (nanos : Nat) : List Char :=
  if nanos = 0 then []
  else if nanos % 1000000 = 0 then '.' :: padded 3 (nanos / 1000000)
  else if nanos % 1000 = 0 then '.' :: padded 6 (nanos / 1000)
  else '.' :: padded 9 nanos

/-- A leap second is the second numbered sixty. -/
def writeInstant (i : Instant) : List Char :=
  let second := (i.seconds % 86400).toNat
  let leap := i.nanos / perSecond
  writeDate (Date.ofNumber (i.seconds / 86400)) ++ 'T' ::
    (writeClock (second / 3600) (second / 60 % 60) (second % 60 + leap) ++
      (writeFraction (i.nanos % perSecond) ++ "+00:00".toList))

def Instant.text (i : Instant) : String := String.ofList (writeInstant i)

/-! ## Reading -/

/-- Exactly `count` digits. -/
def readDigits (count : Nat) (cs : List Char) : Option (Nat × List Char) :=
  let ds := cs.take count
  if ds.length = count ∧ ds.all isDigit then some (Decimal.ofDigits ds, cs.drop count) else none

def readChar (p : Char → Bool) : List Char → Option (List Char)
  | c :: rest => if p c then some rest else none
  | [] => none

def readDate (cs : List Char) : Option (Date × List Char) := do
  let (year, cs) ← readDigits 4 cs
  let cs ← readChar (· = '-') cs
  let (month, cs) ← readDigits 2 cs
  let cs ← readChar (· = '-') cs
  let (day, cs) ← readDigits 2 cs
  let date : Date := ⟨year, month, day⟩
  if date.isValid then some (date, cs) else none

/-- The hour, the minute and the second, which may be sixty. -/
def readClock (cs : List Char) : Option ((Nat × Nat × Nat) × List Char) := do
  let (hour, cs) ← readDigits 2 cs
  let cs ← readChar (· = ':') cs
  let (minute, cs) ← readDigits 2 cs
  let cs ← readChar (· = ':') cs
  let (second, cs) ← readDigits 2 cs
  if hour ≤ 23 ∧ minute ≤ 59 ∧ second ≤ 60 then some ((hour, minute, second), cs) else none

/-- Decimals beyond the ninth are cut. -/
def readFraction : List Char → Option (Nat × List Char)
  | '.' :: cs =>
    let ds := cs.takeWhile isDigit
    if ds = [] then none
    else
      let kept := ds.take 9
      some (Decimal.ofDigits kept * Nat.pow 10 (9 - kept.length), cs.dropWhile isDigit)
  | cs => some (0, cs)

def minusSigns : List Char := ['-', '\u2212']

/-- The offset from UTC in minutes, at the end of the text. -/
def readOffset : List Char → Option Int
  | ['Z'] | ['z'] => some 0
  | c :: cs => do
    guard (c = '+' ∨ c ∈ minusSigns)
    let (hours, cs) ← readDigits 2 cs
    let cs ← readChar (· = ':') cs
    let (minutes, cs) ← readDigits 2 cs
    guard (hours ≤ 23 ∧ minutes ≤ 59 ∧ cs = [])
    let offset : Int := 60 * hours + minutes
    some (if c = '+' then offset else -offset)
  | [] => none

def readInstant (cs : List Char) : Option Instant := do
  let (date, cs) ← readDate cs
  let cs ← readChar (fun c => c = 'T' || c = 't' || c = ' ') cs
  let ((hour, minute, second), cs) ← readClock cs
  let (nanos, cs) ← readFraction cs
  let offset ← readOffset cs
  let leap := second / 60
  let inDay : Int := 3600 * hour + 60 * minute + (second - leap)
  Instant.of? (date.number * 86400 + inDay - 60 * offset) (nanos + leap * perSecond)

def Instant.read (s : String) : Option Instant := readInstant s.toList

end Exploration.Time
