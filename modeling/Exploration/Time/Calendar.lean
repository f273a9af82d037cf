/-!
# The calendar

Dates of the Gregorian calendar, extended to all years, and their numbers: days counted from
1 January 1970. Inside, a year begins in March, so that the leap day is its last.
-/

namespace Exploration.Time

structure Date where
  year : Int
  month : Nat
  day : Nat
  deriving DecidableEq, Repr

namespace Date

/-- Days of the four hundred years after which the calendar repeats. -/
def eraDays : Nat := 146097

/-- The day number of the first day of year 0, which is in March, is this much below zero. -/
def epoch : Nat := 719468

/-- Days in an era before its year `y`. -/
def beforeYear (y : Nat) : Nat := 365 * y + y / 4 - y / 100

/-- Days in a year before its month `m`, where March is month 0. -/
def beforeMonth (m : Nat) : Nat := (153 * m + 2) / 5

def number (d : Date) : Int :=
  let year := if d.month ≤ 2 then d.year - 1 else d.year
  let month := (d.month + 9) % 12
  let inEra := beforeYear (year % 400).toNat + (beforeMonth month + (d.day - 1))
  year / 400 * eraDays + inEra - epoch

def ofNumber (n : Int) : Date :=
  let fromEpoch := n + epoch
  let inEra := (fromEpoch % eraDays).toNat
  let year := (inEra - inEra / 1460 + inEra / 36524 - inEra / 146096) / 365
  let inYear := inEra - beforeYear year
  let month := (5 * inYear + 2) / 153
  let civilYear := fromEpoch / eraDays * 400 + year
  if month < 10 then ⟨civilYear, month + 3, inYear - beforeMonth month + 1⟩
  else ⟨civilYear + 1, month - 9, inYear - beforeMonth month + 1⟩

def isLeapYear (y : Int) : Bool := y % 4 = 0 && (y % 100 != 0 || y % 400 = 0)

def monthLength (year : Int) (month : Nat) : Nat :=
  if month = 2 then if isLeapYear year then 29 else 28
  else if month = 4 ∨ month = 6 ∨ month = 9 ∨ month = 11 then 30
  else 31

def isValid (d : Date) : Bool :=
  1 ≤ d.month && d.month ≤ 12 && 1 ≤ d.day && d.day ≤ monthLength d.year d.month

end Date

end Exploration.Time
