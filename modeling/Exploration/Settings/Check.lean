import Exploration.Decimal.Layout
import Exploration.Settings
import Exploration.Text.Words

/-!
# Checked settings

Which settings make sense. They are looked at in a fixed order, and the first that does not is
refused.
-/

namespace Exploration

/-- The counts of the evolution that must not be zero. -/
inductive Count where
  | productiveSearches
  | deadEnds
  | sharedTopics
  | deadEndTraces
  deriving DecidableEq, Repr

def Count.name : Count → String
  | .productiveSearches => "max_productive_searches"
  | .deadEnds => "max_dead_ends"
  | .sharedTopics => "max_cross_platform_topics"
  | .deadEndTraces => "dead_end_min_traces"

inductive SettingsError where
  /-- What was written is not a record of settings. -/
  | unreadable
  | emptyRoot
  | runs (n : UInt32)
  | budget (x : Float)
  | interval (n : UInt32)
  | hitRate (x : Float)
  | relevanceFloor (x : Float)
  | zeroCount (count : Count)
  | recencyPenalty (x : Float)
  | logLevel (s : String)
  | logFormat (s : String)
  | logRotation (s : String)
  deriving DecidableEq

/-- The words for a refusal; those for what cannot be read are not known here. -/
def SettingsError.message? : SettingsError → Option String
  | .unreadable => none
  | .emptyRoot => some "Archive root cannot be empty"
  | .runs n => some ("Invalid max_runs: " ++ toString n.toNat ++ ". Must be at least 1")
  | .budget x =>
    some ("Invalid max_budget_usd: " ++ Decimal.plainText x ++ ". Must be a positive number")
  | .interval n => some ("Invalid evolve_every_n: " ++ toString n.toNat ++ ". Must be at least 1")
  | .hitRate x => some ("Invalid min_hit_rate: " ++ Decimal.plainText x ++ ". Must be in [0, 1)")
  | .relevanceFloor x =>
    some ("Invalid relevance_weight_floor: " ++ Decimal.plainText x ++ ". Must be in [0, 1]")
  | .zeroCount count =>
    some ("Configuration validation failed: evolver." ++ count.name ++ " must be at least 1")
  | .recencyPenalty x =>
    some ("Invalid recency_penalty: " ++ Decimal.plainText x ++ ". Must be non-negative")
  | .logLevel s =>
    some ("Invalid log level: " ++ s ++ ". Must be one of: trace, debug, info, warn, error")
  | .logFormat s => some ("Invalid log format: " ++ s ++ ". Must be one of: json, pretty")
  | .logRotation s =>
    some ("Invalid log rotation: " ++ s ++ ". Must be one of: daily, hourly, never")

def logLevels : List String := ["trace", "debug", "info", "warn", "error"]

def logFormats : List String := ["json", "pretty"]

def logRotations : List String := ["daily", "hourly", "never"]

namespace Settings

/-- The counts in the order in which they are looked at. -/
def counts (s : Settings) : List (Count × UInt64) :=
  [(.productiveSearches, s.evolution.maxProductiveSearches),
    (.deadEnds, s.evolution.maxDeadEnds), (.sharedTopics, s.evolution.maxSharedTopics),
    (.deadEndTraces, s.evolution.deadEndMinTraces)]

/-- Each setting in the order in which it is looked at, with its refusal if it is refused. -/
def refusals (s : Settings) : List (Option SettingsError) :=
  let refuse (e : SettingsError) (bad : Bool) : Option SettingsError := if bad then some e else none
  [refuse .emptyRoot (Text.isBlankText s.archive.root),
    refuse (.runs s.cycle.maxRuns) (s.cycle.maxRuns = 0),
    refuse (.budget s.cycle.maxBudget)
      (!Double.isFinite s.cycle.maxBudget || s.cycle.maxBudget ≤ 0),
    refuse (.interval s.cycle.evolveEvery) (s.cycle.evolveEvery = 0),
    refuse (.hitRate s.evolution.minHitRate)
      !(0 ≤ s.evolution.minHitRate && s.evolution.minHitRate < 1),
    refuse (.relevanceFloor s.evolution.relevanceFloor)
      !(0 ≤ s.evolution.relevanceFloor && s.evolution.relevanceFloor ≤ 1)] ++
  (s.counts.map fun (count, n) => refuse (.zeroCount count) (n = 0)) ++
  [refuse (.recencyPenalty s.sampling.recencyPenalty)
      (!Double.isFinite s.sampling.recencyPenalty || s.sampling.recencyPenalty < 0),
    refuse (.logLevel s.logging.level) (!logLevels.contains s.logging.level),
    refuse (.logFormat s.logging.format) (!logFormats.contains s.logging.format),
    refuse (.logRotation s.logging.rotation) (!logRotations.contains s.logging.rotation)]

/-- The settings if all of them make sense, or the first refusal. -/
def check (s : Settings) : Except SettingsError Settings :=
  match s.refusals.findSome? id with
  | some e => .error e
  | none => .ok s

end Settings

end Exploration
