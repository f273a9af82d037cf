import Exploration.Settings
import Exploration.Strategy
import Exploration.Trace

/-!
# Evolution

The strategy that a history of traces teaches. Every part is a tally over all traces, kept in a map
by text, so that equal entries stand in the order of their texts.
-/

namespace Exploration

/-! ## Productive searches -/

/-- How often a query was useful and wasted, and the weight of the runs it was useful in. -/
structure QueryTally where
  hits : Nat := 0
  misses : Nat := 0
  weight : Float := 0

namespace QueryTally

def hit (weight : Float) (t : Option QueryTally) : QueryTally :=
  let t := t.getD {}
  { t with hits := t.hits + 1, weight := t.weight + weight }

def miss (t : Option QueryTally) : QueryTally :=
  let t := t.getD {}
  { t with misses := t.misses + 1 }

def hitRate (t : QueryTally) : Float := Float.ofNat t.hits / Float.ofNat (t.hits + t.misses)

end QueryTally

namespace EvolutionSettings

def weight (s : EvolutionSettings) (t : Trace) : Float :=
  Double.larger t.profileScore s.relevanceFloor

def tallyQueries (s : EvolutionSettings) (m : StringMap QueryTally) (t : Trace) :
    StringMap QueryTally :=
  let m := t.usefulSearches.foldl (fun m q => m.update q (QueryTally.hit (s.weight t))) m
  t.wastedSearches.foldl (fun m q => m.update q QueryTally.miss) m

def productiveSearch? (s : EvolutionSettings) (traces : Nat) (entry : String × QueryTally) :
    Option ProductiveSearch :=
  let tally := entry.2
  if s.minHitRate < tally.hitRate then
    some ⟨entry.1, tally.hitRate, Double.smaller (tally.weight / Float.ofNat traces) 1⟩
  else none

/-- By falling relevance; of equal ones the smaller text comes first. -/
def productiveSearches (s : EvolutionSettings) (traces : List Trace) : List ProductiveSearch :=
  let tallies := traces.foldl s.tallyQueries ∅
  let candidates := tallies.entries.filterMap (s.productiveSearch? traces.length)
  (candidates.mergeSort fun a b => Double.totalLe b.relevance a.relevance).take
    s.maxProductiveSearches.toNat

/-! ## Dead ends -/

/-- The queries with a search in the trace that came back empty. -/
def emptyQueries (t : Trace) : List String :=
  ((t.searches.filter (·.wasEmpty)).map (·.query)).eraseDups

def tallyEmpty (m : StringMap Nat) (t : Trace) : StringMap Nat :=
  (emptyQueries t).foldl (fun m q => m.update q fun n => n.getD 0 + 1) m

/-- By falling number of traces; of equal ones the smaller text comes first. -/
def deadEnds (s : EvolutionSettings) (traces : List Trace) : List String :=
  let tallies := traces.foldl tallyEmpty ∅
  let candidates := tallies.entries.filter fun e => s.deadEndMinTraces.toNat ≤ e.2
  ((candidates.mergeSort fun a b => b.2 ≤ a.2).take s.maxDeadEnds.toNat).map (·.1)

/-! ## Topics -/

structure TopicTally where
  sources : StringSet := ∅
  total : Nat := 0

def TopicTally.add (c : Connection) (t : Option TopicTally) : TopicTally :=
  let t := t.getD {}
  ⟨t.sources.insertAll c.sources.toList, t.total + c.totalMatches.toNat⟩

/-- The share of the greatest total; no topic has any strength if that is zero. -/
def strength (greatest total : Nat) : Float :=
  if greatest = 0 then 0 else Float.ofNat total / Float.ofNat greatest

/-- By falling strength; of equal ones the smaller text comes first. -/
def sharedTopics (s : EvolutionSettings) (traces : List Trace) : List SharedTopic :=
  let connections := traces.flatMap (·.connections)
  let tallies : StringMap TopicTally :=
    connections.foldl (fun m c => m.update c.topic (TopicTally.add c)) ∅
  let candidates := tallies.entries.filter fun e => 2 ≤ e.2.sources.size
  let greatest := (candidates.map (·.2.total)).foldl max 0
  let topics := candidates.map fun e =>
    (⟨e.1, e.2.sources.toList, strength greatest e.2.total⟩ : SharedTopic)
  (topics.mergeSort fun a b => Double.totalLe b.strength a.strength).take s.maxSharedTopics.toNat

/-! ## Sources -/

/-- The scores of the traces that explored a source, and how many those are. -/
structure SourceTally where
  scores : Float := 0
  traces : Nat := 0

def SourceTally.add (score : Float) (t : Option SourceTally) : SourceTally :=
  let t := t.getD {}
  ⟨t.scores + score, t.traces + 1⟩

def tallySources (m : StringMap SourceTally) (t : Trace) : StringMap SourceTally :=
  t.exploredSources.toList.foldl (fun m s => m.update s (SourceTally.add t.profileScore)) m

/-- The mean score of the traces that explored each source. -/
def sourcePriorities (traces : List Trace) : StringMap Float :=
  (traces.foldl tallySources ∅).map fun t => t.scores / Float.ofNat t.traces

/-! ## The opening sequence -/

/-- The trace with the highest score, the first of several. -/
def best? (traces : List Trace) : Option Trace :=
  traces.foldl (fun best t =>
    match best with
    | some b => if b.profileScore < t.profileScore then some t else some b
    | none => some t) none

/-- The strategy that these traces teach, under the given version. -/
def evolve (s : EvolutionSettings) (traces : List Trace) (version : UInt32) : Strategy :=
  if traces.isEmpty then .empty version
  else
    { version := version
      productiveSearches := s.productiveSearches traces
      deadEnds := s.deadEnds traces
      sourcePriorities := sourcePriorities traces
      sharedTopics := s.sharedTopics traces
      toolSequence := (best? traces).elim [] (·.toolSequence)
      derivedFromRuns := .ofNat traces.length
      totalCost := Double.sum (traces.map (·.cost)) }

end EvolutionSettings

end Exploration
