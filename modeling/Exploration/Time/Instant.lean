import Exploration.Time.Calendar

/-!
# Instants

A second of Unix time and the nanoseconds since it began. A leap second has no number of its own:
it is the second thousand million nanoseconds of the last second of a minute.
-/

namespace Exploration.Time

/-- The first second of the calendar's range, which begins in the year -262143. -/
def firstSecond : Int := -8334601228800

/-- The last second of the calendar's range, which ends in the year 262142. -/
def lastSecond : Int := 8210266876799

def perSecond : Nat := 1000000000

/-- Whether the nanoseconds fit the second: a leap second only ends a minute. -/
def fits (seconds : Int) (nanos : Nat) : Prop :=
  firstSecond ≤ seconds ∧ seconds ≤ lastSecond ∧ nanos < 2 * perSecond ∧
    (perSecond ≤ nanos → seconds % 60 = 59)

instance (seconds : Int) (nanos : Nat) : Decidable (fits seconds nanos) := by
  unfold fits
  infer_instance

structure Instant where
  seconds : Int
  nanos : Nat
  fits : Time.fits seconds nanos

namespace Instant

def of? (seconds : Int) (nanos : Nat) : Option Instant :=
  if h : Time.fits seconds nanos then some ⟨seconds, nanos, h⟩ else none

def le (a b : Instant) : Bool :=
  a.seconds < b.seconds || (a.seconds = b.seconds && a.nanos ≤ b.nanos)

def secondOfDay (i : Instant) : Int := i.seconds % 86400

/-- Nanoseconds from `a` to `b`. A leap second lies between them only if `b` comes later in the day
than the one of them that is in it. -/
def nanosBetween (a b : Instant) : Int :=
  let leap : Int :=
    if a.secondOfDay < b.secondOfDay ∧ perSecond ≤ a.nanos then 1
    else if b.secondOfDay < a.secondOfDay ∧ perSecond ≤ b.nanos then -1
    else 0
  (b.seconds - a.seconds + leap) * perSecond + (b.nanos - a.nanos)

/-- Whole milliseconds from `a` to `b`, none if `b` is not later. -/
def millisBetween (a b : Instant) : Nat := (nanosBetween a b / 1000000).toNat

end Instant

end Exploration.Time
