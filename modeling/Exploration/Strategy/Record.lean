import Exploration.Json.Reader
import Exploration.Json.Writer
import Exploration.Record
import Exploration.Strategy

/-!
# Strategies as records

The fields of a strategy and of its parts, by name and in their declared order. All must be there.
-/

namespace Exploration

instance : Readable ProductiveSearch where
  read v := do
    match ← v.columns ["query", "hitRate", "relevanceScore"] with
    | [query, hitRate, relevance] =>
      some ⟨← required query, ← required hitRate, ← required relevance⟩
    | _ => none

instance : Writable ProductiveSearch where
  write s := .record [("query", write s.query), ("hitRate", write s.hitRate),
    ("relevanceScore", write s.relevance)]

instance : Readable SharedTopic where
  read v := do
    match ← v.columns ["topic", "sources", "strength"] with
    | [topic, sources, strength] =>
      some ⟨← required topic, ← required sources, ← required strength⟩
    | _ => none

instance : Writable SharedTopic where
  write t := .record [("topic", write t.topic), ("sources", write t.sources),
    ("strength", write t.strength)]

namespace Strategy

def fieldNames : List String :=
  ["version", "productiveSearches", "deadEndSearches", "sourcePriorities", "crossPlatformTopics",
    "recommendedToolSequence", "derivedFromRuns", "totalCostUsd"]

instance : Readable Strategy where
  read v := do
    match ← v.columns fieldNames with
    | [version, productive, deadEnds, priorities, topics, tools, runs, cost] =>
      some ⟨← required version, ← required productive, ← required deadEnds, ← required priorities,
        ← required topics, ← required tools, ← required runs, ← required cost⟩
    | _ => none

instance : Writable Strategy where
  write s := .record [("version", write s.version),
    ("productiveSearches", write s.productiveSearches), ("deadEndSearches", write s.deadEnds),
    ("sourcePriorities", write s.sourcePriorities), ("crossPlatformTopics", write s.sharedTopics),
    ("recommendedToolSequence", write s.toolSequence),
    ("derivedFromRuns", write s.derivedFromRuns), ("totalCostUsd", write s.totalCost)]

/-- The strategy that a JSON text holds. -/
def decode (text : String) : Option Strategy := (Json.parse text).bind read

/-- The content of the file in which a strategy is kept. -/
def encode (s : Strategy) : String := Json.prettyText (write s)

end Strategy

end Exploration
