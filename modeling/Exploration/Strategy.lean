import Exploration.StringMap

/-!
# Strategies

What the runs of a subject have taught so far, under a version number. Versions start at 1.
-/

namespace Exploration

/-- A query that has paid off. -/
structure ProductiveSearch where
  query : String
  hitRate : Float
  relevance : Float
  deriving BEq

/-- A topic found in several sources. -/
structure SharedTopic where
  topic : String
  sources : List String
  strength : Float
  deriving BEq

structure Strategy where
  version : UInt32
  productiveSearches : List ProductiveSearch
  deadEnds : List String
  sourcePriorities : StringMap Float
  sharedTopics : List SharedTopic
  toolSequence : List String
  derivedFromRuns : UInt64
  totalCost : Float

namespace Strategy

/-- The strategy that no run has taught anything. -/
def empty (version : UInt32) : Strategy where
  version := version
  productiveSearches := []
  deadEnds := []
  sourcePriorities := ∅
  sharedTopics := []
  toolSequence := []
  derivedFromRuns := 0
  totalCost := 0

/-- Whether two strategies agree in all but the version. Zeros of either sign are the same. -/
def sameContent (s t : Strategy) : Bool :=
  s.productiveSearches == t.productiveSearches && s.deadEnds == t.deadEnds &&
    s.sourcePriorities.entries == t.sourcePriorities.entries &&
    s.sharedTopics == t.sharedTopics && s.toolSequence == t.toolSequence &&
    s.derivedFromRuns == t.derivedFromRuns && s.totalCost == t.totalCost

end Strategy

end Exploration
