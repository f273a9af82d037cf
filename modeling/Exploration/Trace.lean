import Exploration.Time.Rfc3339
import Exploration.Value

/-!
# Traces

The record of one exploration run: what was called, searched and cross-referenced, what reflection
made of it, and what the run cost and scored.
-/

namespace Exploration

structure ToolCall where
  name : String
  args : Canonical
  resultSizeBytes : UInt64
  wasEmpty : Bool
  elapsedMs : UInt64

/-- The source that a browsing call names: its name starts with `browse`, and its arguments are a
record with a text under `source`. -/
def ToolCall.browsedSource (call : ToolCall) : Option String :=
  if "browse".toList.isPrefixOf call.name.toList then
    match call.args.1.field? "source" with
    | some (.text source) => some source
    | _ => none
  else none

inductive SearchTool where
  | search
  | crossReference
  deriving DecidableEq, Repr

structure Search where
  query : String
  tool : SearchTool
  wasEmpty : Bool
  resultCount : UInt64

/-- A topic that was looked up across sources. -/
structure CrossReference where
  topic : String
  sourcesMatched : StringSet
  totalMatches : UInt64

/-- A topic that several sources share. -/
structure Connection where
  topic : String
  sources : StringSet
  totalMatches : UInt64

structure Trace where
  runId : String
  /-- The time of creation; any text is kept, also one that is no timestamp. -/
  timestamp : String
  /-- The version of the strategy the run was given, or 0. -/
  strategyVersion : UInt32
  toolCalls : List ToolCall
  searches : List Search
  crossReferences : List CrossReference
  usefulSearches : List String
  wastedSearches : List String
  connections : List Connection
  profileScore : Float
  cost : Float
  duration : Float

namespace Trace

/-- A trace of a run in which nothing has happened yet. -/
def fresh (runId : String) (created : Time.Instant) (strategyVersion : UInt32) : Trace where
  runId := runId
  timestamp := created.text
  strategyVersion := strategyVersion
  toolCalls := []
  searches := []
  crossReferences := []
  usefulSearches := []
  wastedSearches := []
  connections := []
  profileScore := 0
  cost := 0
  duration := 0

def parsedTimestamp (t : Trace) : Option Time.Instant := Time.Instant.read t.timestamp

def isReflected (t : Trace) : Bool :=
  !t.usefulSearches.isEmpty || !t.wastedSearches.isEmpty || !t.connections.isEmpty

/-- The sources that were browsed or that matched a cross-reference. -/
def exploredSources (t : Trace) : StringSet :=
  StringSet.ofList (t.toolCalls.filterMap ToolCall.browsedSource ++
    t.crossReferences.flatMap fun c => c.sourcesMatched.toList)

def toolSequence (t : Trace) : List String := t.toolCalls.map (·.name)

end Trace

end Exploration
