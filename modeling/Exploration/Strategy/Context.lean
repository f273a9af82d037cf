import Exploration.Decimal.Layout
import Exploration.Strategy

/-!
# Strategies as context

The text that tells a run what the strategy knows: a header line, then a section for each part that
is not empty, with a blank line before it.
-/

namespace Exploration.Strategy

/-- The context of a run for which there is no strategy. -/
def firstRunContext : String :=
  "First run: no prior strategy exists. Explore broadly across all sources."

def header (s : Strategy) : String :=
  "Exploration strategy v" ++ toString s.version.toNat ++ " (learned from " ++
    toString s.derivedFromRuns.toNat ++ " runs, $" ++ Decimal.fixedText 2 s.totalCost ++ " spent)"

def productiveLine (p : ProductiveSearch) : String :=
  "- \"" ++ p.query ++ "\" (hit rate " ++ Decimal.fixedText 0 (p.hitRate * 100) ++
    "%, relevance " ++ Decimal.fixedText 2 p.relevance ++ ")"

def deadEndLine (query : String) : String := "- \"" ++ query ++ "\""

/-- The sources by falling priority, and by name where that is equal. -/
def orderedSources (s : Strategy) : List (String × Float) :=
  s.sourcePriorities.entries.mergeSort fun a b =>
    Double.totalLt b.2 a.2 || (Double.totalLe b.2 a.2 && a.1 ≤ b.1)

def sourceLine (e : String × Float) : String := "- " ++ e.1 ++ ": " ++ Decimal.fixedText 2 e.2

def topicLine (t : SharedTopic) : String :=
  "- " ++ t.topic ++ " [" ++ ", ".intercalate t.sources ++ "] strength " ++
    Decimal.fixedText 2 t.strength

/-- A section of `entries` under `heading`, none if there are no entries. -/
def part {α : Type} (heading : String) (line : α → String) (entries : List α) : List String :=
  if entries.isEmpty then [] else "" :: heading :: entries.map line

def sequencePart (tools : List String) : List String :=
  if tools.isEmpty then []
  else ["", "Recommended opening sequence: " ++ " -> ".intercalate tools]

def lines (s : Strategy) : List String :=
  s.header :: (part "Productive searches:" productiveLine s.productiveSearches ++
    part "Dead ends (avoid):" deadEndLine s.deadEnds ++
    part "Source priorities:" sourceLine s.orderedSources ++
    part "Cross-platform topics:" topicLine s.sharedTopics ++
    sequencePart s.toolSequence)

/-- Every line ends with a line feed. -/
def context (s : Strategy) : String := String.join (s.lines.map (· ++ "\n"))

end Exploration.Strategy
