import Exploration.Json.Reader
import Exploration.Json.Writer
import Exploration.Record
import Exploration.Trace

/-!
# Traces as records

The fields of a trace and of its parts, by name and in their declared order. The lists that
reflection fills may be left out.
-/

namespace Exploration

/-- A trace stands in a JSON text with its arguments three levels down, and a text may nest 127. -/
def argsDepth : Nat := 124

/-- Any value but one nested too deep. -/
instance : Readable Canonical where
  read v := if v.depth ≤ argsDepth then v.canonical? else none

instance : Writable Canonical := ⟨Subtype.val⟩

instance : Readable ToolCall where
  read v := do
    match ← v.columns ["name", "args", "resultSizeBytes", "wasEmpty", "elapsedMs"] with
    | [name, args, size, wasEmpty, elapsed] =>
      some ⟨← required name, ← required args, ← required size, ← required wasEmpty,
        ← required elapsed⟩
    | _ => none

instance : Writable ToolCall where
  write c := .record [("name", write c.name), ("args", write c.args),
    ("resultSizeBytes", write c.resultSizeBytes), ("wasEmpty", write c.wasEmpty),
    ("elapsedMs", write c.elapsedMs)]

def SearchTool.name : SearchTool → String
  | .search => "search"
  | .crossReference => "cross_reference"

def SearchTool.ofName? (s : String) : Option SearchTool :=
  if s = SearchTool.search.name then some .search
  else if s = SearchTool.crossReference.name then some .crossReference
  else none

/-- The name alone, or a record whose one field has that name and no content. -/
instance : Readable SearchTool where
  read
    | .text s => SearchTool.ofName? s
    | .record [(s, .null)] => SearchTool.ofName? s
    | _ => none

instance : Writable SearchTool := ⟨fun t => .text t.name⟩

instance : Readable Search where
  read v := do
    match ← v.columns ["query", "tool", "wasEmpty", "resultCount"] with
    | [query, tool, wasEmpty, count] =>
      some ⟨← required query, ← required tool, ← required wasEmpty, ← required count⟩
    | _ => none

instance : Writable Search where
  write s := .record [("query", write s.query), ("tool", write s.tool),
    ("wasEmpty", write s.wasEmpty), ("resultCount", write s.resultCount)]

instance : Readable CrossReference where
  read v := do
    match ← v.columns ["topic", "sourcesMatched", "totalMatches"] with
    | [topic, sources, total] =>
      some ⟨← required topic, ← required sources, ← required total⟩
    | _ => none

instance : Writable CrossReference where
  write c := .record [("topic", write c.topic), ("sourcesMatched", write c.sourcesMatched),
    ("totalMatches", write c.totalMatches)]

instance : Readable Connection where
  read v := do
    match ← v.columns ["topic", "sources", "matches"] with
    | [topic, sources, total] =>
      some ⟨← required topic, ← required sources, ← required total⟩
    | _ => none

instance : Writable Connection where
  write c := .record [("topic", write c.topic), ("sources", write c.sources),
    ("matches", write c.totalMatches)]

namespace Trace

def fieldNames : List String :=
  ["runId", "timestamp", "strategyVersion", "toolCalls", "searches", "crossReferences",
    "usefulSearches", "wastedSearches", "discoveredConnections", "profileScore", "costUsd",
    "durationSeconds"]

instance : Readable Trace where
  read v := do
    match ← v.columns fieldNames with
    | [runId, timestamp, version, calls, searches, references, useful, wasted, connections, score,
        cost, duration] =>
      some ⟨← required runId, ← required timestamp, ← required version, ← required calls,
        ← required searches, ← required references, ← orElse [] useful, ← orElse [] wasted,
        ← orElse [] connections, ← required score, ← required cost, ← required duration⟩
    | _ => none

instance : Writable Trace where
  write t := .record [("runId", write t.runId), ("timestamp", write t.timestamp),
    ("strategyVersion", write t.strategyVersion), ("toolCalls", write t.toolCalls),
    ("searches", write t.searches), ("crossReferences", write t.crossReferences),
    ("usefulSearches", write t.usefulSearches), ("wastedSearches", write t.wastedSearches),
    ("discoveredConnections", write t.connections), ("profileScore", write t.profileScore),
    ("costUsd", write t.cost), ("durationSeconds", write t.duration)]

/-- The trace that a JSON text holds. -/
def decode (text : String) : Option Trace := (Json.parse text).bind read

/-- The content of the file in which a trace is kept. -/
def encode (t : Trace) : String := Json.prettyText (write t)

end Trace

end Exploration
