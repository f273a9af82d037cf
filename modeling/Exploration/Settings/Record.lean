import Exploration.Record
import Exploration.Settings

/-!
# Settings as records

The names of the sections and of what they set. Whatever is left out has its default, and only the
log directory may be null.
-/

namespace Exploration

instance : Readable ArchiveSettings where
  read v := do
    let d : ArchiveSettings := {}
    match ← v.columns ["root"] with
    | [root] => some ⟨← orElse d.root root⟩
    | _ => none

instance : Writable ArchiveSettings := ⟨fun s => .record [("root", write s.root)]⟩

instance : Readable CycleSettings where
  read v := do
    let d : CycleSettings := {}
    match ← v.columns ["max_runs", "max_budget_usd", "evolve_every_n"] with
    | [runs, budget, every] =>
      some ⟨← orElse d.maxRuns runs, ← orElse d.maxBudget budget, ← orElse d.evolveEvery every⟩
    | _ => none

instance : Writable CycleSettings where
  write s := .record [("max_runs", write s.maxRuns), ("max_budget_usd", write s.maxBudget),
    ("evolve_every_n", write s.evolveEvery)]

instance : Readable EvolutionSettings where
  read v := do
    let d : EvolutionSettings := {}
    match ← v.columns ["max_productive_searches", "max_dead_ends", "max_cross_platform_topics",
      "min_hit_rate", "relevance_weight_floor", "dead_end_min_traces"] with
    | [productive, deadEnds, topics, hitRate, floor, traces] =>
      some ⟨← orElse d.maxProductiveSearches productive, ← orElse d.maxDeadEnds deadEnds,
        ← orElse d.maxSharedTopics topics, ← orElse d.minHitRate hitRate,
        ← orElse d.relevanceFloor floor, ← orElse d.deadEndMinTraces traces⟩
    | _ => none

instance : Writable EvolutionSettings where
  write s := .record [("max_productive_searches", write s.maxProductiveSearches),
    ("max_dead_ends", write s.maxDeadEnds), ("max_cross_platform_topics", write s.maxSharedTopics),
    ("min_hit_rate", write s.minHitRate), ("relevance_weight_floor", write s.relevanceFloor),
    ("dead_end_min_traces", write s.deadEndMinTraces)]

instance : Readable SamplingSettings where
  read v := do
    let d : SamplingSettings := {}
    match ← v.columns ["recency_penalty"] with
    | [penalty] => some ⟨← orElse d.recencyPenalty penalty⟩
    | _ => none

instance : Writable SamplingSettings where
  write s := .record [("recency_penalty", write s.recencyPenalty)]

/-- A text that may be null. -/
instance : Readable (Option String) where
  read
    | .null => some none
    | v => (read v).map some

instance : Writable (Option String) := ⟨fun s => s.elim .null write⟩

instance : Readable LoggingSettings where
  read v := do
    let d : LoggingSettings := {}
    match ← v.columns ["level", "format", "log_dir", "rotation"] with
    | [level, format, directory, rotation] =>
      some ⟨← orElse d.level level, ← orElse d.format format, ← orElse d.directory directory,
        ← orElse d.rotation rotation⟩
    | _ => none

instance : Writable LoggingSettings where
  write s := .record [("level", write s.level), ("format", write s.format),
    ("log_dir", write s.directory), ("rotation", write s.rotation)]

instance : Readable Settings where
  read v := do
    match ← v.columns ["archive", "cycle", "evolver", "sampling", "logging"] with
    | [archive, cycle, evolution, sampling, logging] =>
      some ⟨← orElse {} archive, ← orElse {} cycle, ← orElse {} evolution, ← orElse {} sampling,
        ← orElse {} logging⟩
    | _ => none

instance : Writable Settings where
  write s := .record [("archive", write s.archive), ("cycle", write s.cycle),
    ("evolver", write s.evolution), ("sampling", write s.sampling), ("logging", write s.logging)]

end Exploration
