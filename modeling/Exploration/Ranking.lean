import Exploration.Trace

/-!
# Ranking

Which traces to look at again. A trace scores by the quality of its profile, less a penalty that
grows with the logarithm of its age; the scores become shares of one, and the greatest shares are
taken.
-/

namespace Exploration.Ranking

def millisPerDay : Float := 86400000

def sigmoid (x : Float) : Float := 1 / (1 + Float.exp (-x))

/-- Without a timestamp, or with one that lies ahead, a trace has no age. -/
def ageInDays (t : Trace) (now : Time.Instant) : Float :=
  match t.parsedTimestamp with
  | some created => Float.ofNat (created.millisBetween now) / millisPerDay
  | none => 0

def score (t : Trace) (now : Time.Instant) (recencyPenalty : Float) : Float :=
  sigmoid (t.profileScore - 0.5) - recencyPenalty * Double.log1p (ageInDays t now)

/-- The exponentials of the scores as shares of their sum, all reduced by the greatest score. -/
def softmax (scores : List Float) : List Float :=
  let greatest := scores.foldl Double.larger (-1.0 / 0.0)
  let powers := scores.map fun s => Float.exp (s - greatest)
  let total := Double.sum powers
  powers.map (· / total)

/-- The `k` traces of the greatest shares, or all as they stand if there are no more than `k`. Of
equal shares the earlier trace comes first. -/
def select (traces : List Trace) (k : Nat) (now : Time.Instant) (recencyPenalty : Float) :
    List Trace :=
  if traces.length ≤ k then traces
  else
    let shares := softmax (traces.map (score · now recencyPenalty))
    (((shares.zip traces).mergeSort fun a b => Double.totalLe b.1 a.1).take k).map (·.2)

end Exploration.Ranking
