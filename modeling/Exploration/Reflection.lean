import Exploration.Text.Words
import Exploration.Text.Lowercase
import Exploration.Trace

/-!
# Reflection

What a run's final text says about its searches. A query was useful if none of its searches came
back empty and one of its words of some length appears in the text, whatever the case; any other
query was wasted. A cross-reference that matched two sources is a connection.
-/

namespace Exploration

/-- A shorter word appears nearly everywhere, so it says nothing. -/
def shortestWord : Nat := 3

def leastSources : Nat := 2

/-- Whether a word of the query appears in `output`, which is in lowercase. The word's own lowercase
is that of the word alone. -/
def mentionsWord (output : List Char) (query : String) : Bool :=
  (Text.words query.toList).any fun word =>
    shortestWord ≤ word.length && Text.occursIn (Text.lowercase word) output

/-- Whether all searches for the query found something. -/
def alwaysFound (searches : List Search) (query : String) : Bool :=
  searches.all fun s => !(s.query = query && s.wasEmpty)

namespace Trace

/-- The distinct queries in the order of their first search. -/
def queries (t : Trace) : List String := (t.searches.map (·.query)).eraseDups

def isUseful (t : Trace) (output : List Char) (query : String) : Bool :=
  alwaysFound t.searches query && mentionsWord output query

def sharedReferences (t : Trace) : List Connection :=
  (t.crossReferences.filter fun c => leastSources ≤ c.sourcesMatched.size).map fun c =>
    ⟨c.topic, c.sourcesMatched, c.totalMatches⟩

/-- The trace with its derived lists made anew from the final text. -/
def reflect (t : Trace) (output : String) : Trace :=
  let lowered := Text.lowercase output.toList
  { t with
    usefulSearches := t.queries.filter (t.isUseful lowered)
    wastedSearches := t.queries.filter fun q => !t.isUseful lowered q
    connections := t.sharedReferences }

end Trace

end Exploration
