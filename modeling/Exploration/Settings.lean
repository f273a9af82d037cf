/-!
# Settings

What can be set, section by section, with the values that hold when nothing is.
-/

namespace Exploration

structure ArchiveSettings where
  /-- The directory with one subdirectory per subject. -/
  root : String := ".footprint/archive"

structure CycleSettings where
  maxRuns : UInt32 := 5
  /-- Looked at after each run only. -/
  maxBudget : Float := 1.0
  /-- A strategy is evolved whenever the number of archived runs is a multiple of this. -/
  evolveEvery : UInt32 := 3

structure EvolutionSettings where
  maxProductiveSearches : UInt64 := 20
  maxDeadEnds : UInt64 := 20
  maxSharedTopics : UInt64 := 10
  /-- A productive query was useful in a greater share of its runs than this. -/
  minHitRate : Float := 0.5
  /-- The least weight of a run in the relevance of a query. -/
  relevanceFloor : Float := 0.1
  /-- A dead end came back empty in at least as many runs as this. -/
  deadEndMinTraces : UInt64 := 2

structure SamplingSettings where
  /-- What a trace loses with the logarithm of its age. -/
  recencyPenalty : Float := 0.1

structure LoggingSettings where
  level : String := "info"
  format : String := "json"
  /-- The directory of the log files; without one nothing is written to files. -/
  directory : Option String := none
  rotation : String := "daily"

structure Settings where
  archive : ArchiveSettings := {}
  cycle : CycleSettings := {}
  evolution : EvolutionSettings := {}
  sampling : SamplingSettings := {}
  logging : LoggingSettings := {}

end Exploration
