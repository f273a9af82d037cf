import Mathlib
import Exploration.Proofs.PresentedFields

/-!
# Traces and strategies in any presentation

Each record that traces and strategies are made of is read column by column, so for none of them it
matters how it is presented (`ReadsFields.reads`). So a text is decoded as the same trace or
strategy however its records are written, and not at all if something is missing, repeated or null
in one of them (`decode_presentations`). Only the lists that reflection fills may be left out of a
trace (`Trace.read_without`).
-/

namespace Exploration

theorem reads_strings : Reads (.list .whole) (read : Value → Option (List String)) :=
  reads_list (reads_whole rfl)

theorem bind_eq_some {α β : Type} {o : Option α} {f : α → Option β} {x : α} {y : β}
    (h : o = some x) (hf : f x = some y) : o >>= f = some y := by
  rw [h]
  exact hf

/-! ## The parts of traces -/

namespace ToolCall

def fields : List (String × Shape) :=
  [("name", .whole), ("args", .any), ("resultSizeBytes", .whole), ("wasEmpty", .whole),
    ("elapsedMs", .whole)]

theorem readsFields : ReadsFields fields [] (read : Value → Option ToolCall) where
  nodup := by decide
  make := ⟨_, fun _ => rfl, .whole rfl fun _ => .required reads_any fun _ => .whole rfl fun _ =>
    .whole rfl fun _ => .whole rfl fun _ => .done _⟩

end ToolCall

namespace Search

def fields : List (String × Shape) :=
  [("query", .whole), ("tool", .whole), ("wasEmpty", .whole), ("resultCount", .whole)]

theorem readsFields : ReadsFields fields [] (read : Value → Option Search) where
  nodup := by decide
  make := ⟨_, fun _ => rfl, .whole rfl fun _ => .whole rfl fun _ => .whole rfl fun _ =>
    .whole rfl fun _ => .done _⟩

end Search

namespace CrossReference

def fields : List (String × Shape) :=
  [("topic", .whole), ("sourcesMatched", .set), ("totalMatches", .whole)]

theorem readsFields : ReadsFields fields [] (read : Value → Option CrossReference) where
  nodup := by decide
  make := ⟨_, fun _ => rfl, .whole rfl fun _ => .required reads_set fun _ => .whole rfl fun _ =>
    .done _⟩

end CrossReference

namespace Connection

def fields : List (String × Shape) :=
  [("topic", .whole), ("sources", .set), ("matches", .whole)]

theorem readsFields : ReadsFields fields [] (read : Value → Option Connection) where
  nodup := by decide
  make := ⟨_, fun _ => rfl, .whole rfl fun _ => .required reads_set fun _ => .whole rfl fun _ =>
    .done _⟩

end Connection

/-! ## The parts of strategies -/

namespace ProductiveSearch

def fields : List (String × Shape) :=
  [("query", .whole), ("hitRate", .whole), ("relevanceScore", .whole)]

theorem readsFields : ReadsFields fields [] (read : Value → Option ProductiveSearch) where
  nodup := by decide
  make := ⟨_, fun _ => rfl, .whole rfl fun _ => .whole rfl fun _ => .whole rfl fun _ => .done _⟩

end ProductiveSearch

namespace SharedTopic

def fields : List (String × Shape) :=
  [("topic", .whole), ("sources", .list .whole), ("strength", .whole)]

theorem readsFields : ReadsFields fields [] (read : Value → Option SharedTopic) where
  nodup := by decide
  make := ⟨_, fun _ => rfl, .whole rfl fun _ => .required reads_strings fun _ =>
    .whole rfl fun _ => .done _⟩

end SharedTopic

/-! ## Strategies -/

namespace Strategy

def fields : List (String × Shape) :=
  [("version", .whole), ("productiveSearches", .list (.record ProductiveSearch.fields [])),
    ("deadEndSearches", .list .whole), ("sourcePriorities", .map .whole),
    ("crossPlatformTopics", .list (.record SharedTopic.fields [])),
    ("recommendedToolSequence", .list .whole), ("derivedFromRuns", .whole),
    ("totalCostUsd", .whole)]

def shape : Shape := .record fields []

theorem readsFields : ReadsFields fields [] (read : Value → Option Strategy) where
  nodup := by simp [fields]
  make := ⟨_, fun _ => rfl, .whole rfl fun _ =>
    .required (reads_list ProductiveSearch.readsFields.reads) fun _ =>
    .required reads_strings fun _ => .required (reads_map (reads_whole rfl)) fun _ =>
    .required (reads_list SharedTopic.readsFields.reads) fun _ => .required reads_strings fun _ =>
    .whole rfl fun _ => .whole rfl fun _ => .done _⟩

end Strategy

/-! ## Traces -/

namespace Trace

/-- The lists that reflection fills. -/
inductive Derived where
  | useful | wasted | connections

namespace Derived

def name : Derived → String
  | .useful => "usefulSearches"
  | .wasted => "wastedSearches"
  | .connections => "discoveredConnections"

/-- The trace with nothing in this list. -/
def clear (t : Trace) : Derived → Trace
  | .useful => { t with usefulSearches := [] }
  | .wasted => { t with wastedSearches := [] }
  | .connections => { t with connections := [] }

end Derived

def fields : List (String × Shape) :=
  [("runId", .whole), ("timestamp", .whole), ("strategyVersion", .whole),
    ("toolCalls", .list (.record ToolCall.fields [])),
    ("searches", .list (.record Search.fields [])),
    ("crossReferences", .list (.record CrossReference.fields [])),
    ("usefulSearches", .list .whole), ("wastedSearches", .list .whole),
    ("discoveredConnections", .list (.record Connection.fields [])), ("profileScore", .whole),
    ("costUsd", .whole), ("durationSeconds", .whole)]

def optional : List String := ["usefulSearches", "wastedSearches", "discoveredConnections"]

def shape : Shape := .record fields optional

theorem readsFields : ReadsFields fields optional (read : Value → Option Trace) where
  nodup := by simp [fields]
  make := ⟨_, fun _ => rfl, .whole rfl fun _ => .whole rfl fun _ => .whole rfl fun _ =>
    .required (reads_list ToolCall.readsFields.reads) fun _ =>
    .required (reads_list Search.readsFields.reads) fun _ =>
    .required (reads_list CrossReference.readsFields.reads) fun _ =>
    .orElse reads_strings (by decide) fun _ => .orElse reads_strings (by decide) fun _ =>
    .orElse (reads_list Connection.readsFields.reads) (by decide) fun _ => .whole rfl fun _ =>
    .whole rfl fun _ => .whole rfl fun _ => .done _⟩

theorem read_eq_some {entries : List (String × Value)} {t : Trace} :
    read (.record entries) = some t ↔
      (∀ name ∈ fieldNames, (entries.map (·.1)).count name ≤ 1) ∧
      required (entries.lookup "runId") = some t.runId ∧
      required (entries.lookup "timestamp") = some t.timestamp ∧
      required (entries.lookup "strategyVersion") = some t.strategyVersion ∧
      required (entries.lookup "toolCalls") = some t.toolCalls ∧
      required (entries.lookup "searches") = some t.searches ∧
      required (entries.lookup "crossReferences") = some t.crossReferences ∧
      orElse [] (entries.lookup "usefulSearches") = some t.usefulSearches ∧
      orElse [] (entries.lookup "wastedSearches") = some t.wastedSearches ∧
      orElse [] (entries.lookup "discoveredConnections") = some t.connections ∧
      required (entries.lookup "profileScore") = some t.profileScore ∧
      required (entries.lookup "costUsd") = some t.cost ∧
      required (entries.lookup "durationSeconds") = some t.duration := by
  have hread : (read (.record entries) : Option Trace) =
      ((Value.record entries).columns fieldNames).bind _ := rfl
  rw [hread, Value.columns_entries]
  split_ifs with honce
  · rw [and_iff_right honce, Option.bind_some]
    constructor
    · intro h
      obtain ⟨_, h₁, h⟩ := Option.bind_eq_some_iff.1 h
      obtain ⟨_, h₂, h⟩ := Option.bind_eq_some_iff.1 h
      obtain ⟨_, h₃, h⟩ := Option.bind_eq_some_iff.1 h
      obtain ⟨_, h₄, h⟩ := Option.bind_eq_some_iff.1 h
      obtain ⟨_, h₅, h⟩ := Option.bind_eq_some_iff.1 h
      obtain ⟨_, h₆, h⟩ := Option.bind_eq_some_iff.1 h
      obtain ⟨_, h₇, h⟩ := Option.bind_eq_some_iff.1 h
      obtain ⟨_, h₈, h⟩ := Option.bind_eq_some_iff.1 h
      obtain ⟨_, h₉, h⟩ := Option.bind_eq_some_iff.1 h
      obtain ⟨_, h₁₀, h⟩ := Option.bind_eq_some_iff.1 h
      obtain ⟨_, h₁₁, h⟩ := Option.bind_eq_some_iff.1 h
      obtain ⟨_, h₁₂, h⟩ := Option.bind_eq_some_iff.1 h
      cases h
      exact ⟨h₁, h₂, h₃, h₄, h₅, h₆, h₇, h₈, h₉, h₁₀, h₁₁, h₁₂⟩
    · rintro ⟨h₁, h₂, h₃, h₄, h₅, h₆, h₇, h₈, h₉, h₁₀, h₁₁, h₁₂⟩
      exact bind_eq_some h₁ <| bind_eq_some h₂ <| bind_eq_some h₃ <| bind_eq_some h₄ <|
        bind_eq_some h₅ <| bind_eq_some h₆ <| bind_eq_some h₇ <| bind_eq_some h₈ <|
        bind_eq_some h₉ <| bind_eq_some h₁₀ <| bind_eq_some h₁₁ <| bind_eq_some h₁₂ rfl
  · exact iff_of_false (fun h => by cases h) fun h => honce h.1

theorem read_without (d : Derived) {entries : List (String × Value)} {t : Trace}
    (h : read (.record entries) = some t) :
    read (.record (entries.filter (·.1 ≠ d.name))) = some (d.clear t) := by
  obtain ⟨honce, h⟩ := read_eq_some.1 h
  refine read_eq_some.2 ⟨fun name hname => ?_, ?_⟩
  · refine le_trans (List.Sublist.count_le _ ?_) (honce name hname)
    exact List.filter_sublist.map _
  · simp only [Value.lookup_filter]
    obtain ⟨h₁, h₂, h₃, h₄, h₅, h₆, h₇, h₈, h₉, h₁₀, h₁₁, h₁₂⟩ := h
    cases d with
    | useful => exact ⟨h₁, h₂, h₃, h₄, h₅, h₆, rfl, h₈, h₉, h₁₀, h₁₁, h₁₂⟩
    | wasted => exact ⟨h₁, h₂, h₃, h₄, h₅, h₆, h₇, rfl, h₉, h₁₀, h₁₁, h₁₂⟩
    | connections => exact ⟨h₁, h₂, h₃, h₄, h₅, h₆, h₇, h₈, rfl, h₁₀, h₁₁, h₁₂⟩

end Trace

/-! ## Texts -/

/-- It makes no difference to a trace or strategy in which of its presentations it is decoded. A
list that reflection fills is empty if it is left out, and nothing else may be left out. -/
theorem decode_presentations :
    (∀ text v, Json.parse text = some v →
      (∀ text' w, Json.parse text' = some w → Relation.EqvGen (Restated Trace.shape) v w →
        Trace.decode text' = Trace.decode text) ∧
      (∀ entries, v = .record entries → ∀ t, Trace.decode text = some t →
        ∀ (d : Trace.Derived) text',
          Json.parse text' = some (.record (entries.filter (·.1 ≠ d.name))) →
            Trace.decode text' = some (d.clear t)) ∧
      (Faulty Trace.shape v → Trace.decode text = none)) ∧
    ∀ text v, Json.parse text = some v →
      (∀ text' w, Json.parse text' = some w → Relation.EqvGen (Restated Strategy.shape) v w →
        Strategy.decode text' = Strategy.decode text) ∧
      (Faulty Strategy.shape v → Strategy.decode text = none) := by
  refine ⟨fun text v hv => ⟨fun text' w hw hvw => ?_, ?_, fun hfaulty => ?_⟩,
    fun text v hv => ⟨fun text' w hw hvw => ?_, fun hfaulty => ?_⟩⟩
  · rw [Trace.decode, Trace.decode, hv, hw, Option.bind_some, Option.bind_some]
    exact (Trace.readsFields.reads.eqvGen hvw).symm
  · rintro entries rfl t ht d text' htext'
    rw [Trace.decode, hv, Option.bind_some] at ht
    rw [Trace.decode, htext', Option.bind_some, Trace.read_without d ht]
  · rw [Trace.decode, hv, Option.bind_some, Trace.readsFields.reads.faulty hfaulty]
  · rw [Strategy.decode, Strategy.decode, hv, hw, Option.bind_some, Option.bind_some]
    exact (Strategy.readsFields.reads.eqvGen hvw).symm
  · rw [Strategy.decode, hv, Option.bind_some, Strategy.readsFields.reads.faulty hfaulty]

/-- The fields of a trace whose one cross-reference is written so. -/
def climbingFields (reference : Value) : List (String × Value) :=
  [("runId", .text "noon"), ("timestamp", .text "12:00"), ("strategyVersion", .int 1),
    ("toolCalls", .list []), ("searches", .list []), ("crossReferences", .list [reference]),
    ("usefulSearches", .list [.text "climbing"]), ("wastedSearches", .list []),
    ("discoveredConnections", .list []), ("profileScore", .double 0.5), ("costUsd", .double 0),
    ("durationSeconds", .double 0)]

/-- A cross-reference by name. -/
def namedReference : Value :=
  .record [("topic", .text "climbing"), ("sourcesMatched", .list [.text "strava", .text "yelp"]),
    ("totalMatches", .int 3)]

/-- The same by place, with its sources in another order and one of them twice. -/
def placedReference : Value :=
  .list [.text "climbing", .list [.text "yelp", .text "strava", .text "yelp"], .int 3]

def climbingTrace : Trace where
  runId := "noon"
  timestamp := "12:00"
  strategyVersion := 1
  toolCalls := []
  searches := []
  crossReferences := [⟨"climbing", StringSet.ofList ["strava", "yelp"], 3⟩]
  usefulSearches := ["climbing"]
  wastedSearches := []
  connections := []
  profileScore := 0.5
  cost := 0
  duration := 0

theorem restated_placedReference : Relation.EqvGen (Restated (.record CrossReference.fields []))
    namedReference placedReference := by
  have hsources : Restated .set (.list [.text "strava", .text "yelp"])
      (.list [.text "yelp", .text "strava", .text "yelp"]) := by
    refine @Restated.elements ["strava", "yelp"] ["yelp", "strava", "yelp"] fun x => ?_
    simp only [List.mem_cons, List.not_mem_nil, or_false]
    tauto
  refine .trans _ _ _ (.rel _ _ ?_) (.rel _ _ (.places (by rfl)))
  exact @Restated.field _ _ [("topic", .text "climbing")] [("totalMatches", .int 3)] _ _ _ _
    (by simp [CrossReference.fields]) hsources

theorem lossless_climbingFields {reference : Value} (h : reference.Lossless) :
    Value.AllFieldsLossless (climbingFields reference) := by
  have hscore : Json.ReadsBack 0.5 := rfl
  have hzero : Json.ReadsBack 0 := rfl
  simp [climbingFields, Value.Lossless, Value.AllLossless, Value.AllFieldsLossless, Value.isWord,
    hscore, hzero, h]

theorem restated_climbingFields {v w : Value}
    (h : Restated (.record CrossReference.fields []) v w) :
    Restated Trace.shape (.record (climbingFields v)) (.record (climbingFields w)) :=
  @Restated.field _ _ ((climbingFields v).take 5) ((climbingFields v).drop 6) "crossReferences"
    (.list (.record CrossReference.fields [])) _ _ (by simp [Trace.fields])
    (@Restated.item _ [] [] _ _ h)

/-- The trace is decoded with its cross-reference by place and with a field that nobody asks for,
and without the useful searches, but not with a second run id. -/
theorem decode_presentations_climbingTrace :
    Trace.decode (Json.prettyText (.record (("mood", .null) :: climbingFields placedReference))) =
      some climbingTrace ∧
    Trace.decode (Json.prettyText (.record ((climbingFields namedReference).filter
      (·.1 ≠ "usefulSearches")))) = some { climbingTrace with usefulSearches := [] } ∧
    Trace.decode (Json.prettyText (.record (("runId", .null) :: climbingFields namedReference))) =
      none := by
  have hparse : ∀ fields, Value.AllFieldsLossless fields →
      Json.parse (Json.prettyText (.record fields)) = some (.record fields) := fun fields h =>
    Json.parse_prettyText h
  have hnamed : Value.AllFieldsLossless (climbingFields namedReference) :=
    lossless_climbingFields (by simp [namedReference, Value.Lossless, Value.AllLossless,
      Value.AllFieldsLossless, Value.isWord])
  have hplaced : Value.AllFieldsLossless (("mood", .null) :: climbingFields placedReference) :=
    ⟨trivial, lossless_climbingFields (by simp [placedReference, Value.Lossless, Value.AllLossless,
      Value.isWord])⟩
  have hfiltered : Value.AllFieldsLossless
      ((climbingFields namedReference).filter (·.1 ≠ "usefulSearches")) :=
    Value.allFieldsLossless_iff.2 fun f hf =>
      Value.allFieldsLossless_iff.1 hnamed f (List.mem_of_mem_filter hf)
  have hdecode : Trace.decode (Json.prettyText (.record (climbingFields namedReference))) =
      some climbingTrace := by
    rw [Trace.decode, hparse _ hnamed]
    rfl
  have hrestated : Relation.EqvGen (Restated Trace.shape) (.record (climbingFields namedReference))
      (.record (("mood", .null) :: climbingFields placedReference)) :=
    .trans _ _ _ (eqvGen_within restated_climbingFields restated_placedReference)
      (.rel _ _ (.unknown (by simp [Trace.fields])))
  obtain ⟨hsame, homitted, -⟩ := decode_presentations.1 _ _ (hparse _ hnamed)
  obtain ⟨-, -, hfaulty⟩ := decode_presentations.1 _ _
    (hparse (("runId", .null) :: climbingFields namedReference) ⟨trivial, hnamed⟩)
  refine ⟨(hsame _ _ (hparse _ hplaced) hrestated).trans hdecode,
    homitted _ rfl _ hdecode .useful _ (hparse _ hfiltered), hfaulty ?_⟩
  exact @Faulty.repeated _ _ _ "runId" (by simp [Trace.fields]) (by simp [climbingFields])

end Exploration
