import Mathlib
import Exploration.Proofs.Columns
import Exploration.Settings.Layers

/-!
# The leaves of the settings

Each of the things that can be set is a leaf: it has a section, a name and a type of its own, and
settings are what their leaves are (`Settings.get_ofLeaves`, `Settings.ofLeaves_get`). A layer of
settings is a map of maps. Its leaves are looked up one by one, and it is read as the settings that
have what each of its leaves is read as (`Settings.read_eq_some`).
-/

namespace Exploration

/-! ## Leaves -/

inductive Leaf where
  | root
  | maxRuns | maxBudget | evolveEvery
  | maxProductiveSearches | maxDeadEnds | maxSharedTopics | minHitRate | relevanceFloor
  | deadEndMinTraces
  | recencyPenalty
  | level | format | directory | rotation

namespace Leaf

def part : Leaf → String
  | .root => "archive"
  | .maxRuns | .maxBudget | .evolveEvery => "cycle"
  | .maxProductiveSearches | .maxDeadEnds | .maxSharedTopics | .minHitRate | .relevanceFloor
  | .deadEndMinTraces => "evolver"
  | .recencyPenalty => "sampling"
  | .level | .format | .directory | .rotation => "logging"

def name : Leaf → String
  | .root => "root"
  | .maxRuns => "max_runs"
  | .maxBudget => "max_budget_usd"
  | .evolveEvery => "evolve_every_n"
  | .maxProductiveSearches => "max_productive_searches"
  | .maxDeadEnds => "max_dead_ends"
  | .maxSharedTopics => "max_cross_platform_topics"
  | .minHitRate => "min_hit_rate"
  | .relevanceFloor => "relevance_weight_floor"
  | .deadEndMinTraces => "dead_end_min_traces"
  | .recencyPenalty => "recency_penalty"
  | .level => "level"
  | .format => "format"
  | .directory => "log_dir"
  | .rotation => "rotation"

/-- What can be set. -/
def Content : Leaf → Type
  | .root | .level | .format | .rotation => String
  | .directory => Option String
  | .maxRuns | .evolveEvery => UInt32
  | .maxProductiveSearches | .maxDeadEnds | .maxSharedTopics | .deadEndMinTraces => UInt64
  | .maxBudget | .minHitRate | .relevanceFloor | .recencyPenalty => Float

instance : (leaf : Leaf) → Readable leaf.Content
  | .root | .level | .format | .rotation => inferInstanceAs (Readable String)
  | .directory => inferInstanceAs (Readable (Option String))
  | .maxRuns | .evolveEvery => inferInstanceAs (Readable UInt32)
  | .maxProductiveSearches | .maxDeadEnds | .maxSharedTopics | .deadEndMinTraces =>
    inferInstanceAs (Readable UInt64)
  | .maxBudget | .minHitRate | .relevanceFloor | .recencyPenalty => inferInstanceAs (Readable Float)

instance : (leaf : Leaf) → DecidableEq leaf.Content
  | .root | .level | .format | .rotation => inferInstanceAs (DecidableEq String)
  | .directory => inferInstanceAs (DecidableEq (Option String))
  | .maxRuns | .evolveEvery => inferInstanceAs (DecidableEq UInt32)
  | .maxProductiveSearches | .maxDeadEnds | .maxSharedTopics | .deadEndMinTraces =>
    inferInstanceAs (DecidableEq UInt64)
  | .maxBudget | .minHitRate | .relevanceFloor | .recencyPenalty =>
    inferInstanceAs (DecidableEq Float)

/-- No leaf is a record. -/
theorem read_record (leaf : Leaf) (fields : List (String × Value)) :
    (read (.record fields) : Option leaf.Content) = none := by
  cases leaf <;> rfl

/-- No leaf has parts that could be sorted. -/
theorem read_sorted (leaf : Leaf) (v : Value) :
    (read v.sorted : Option leaf.Content) = read v := by
  cases v with
  | record fields => rw [Value.sorted, read_record, read_record]
  | list items =>
    rw [Value.sorted]
    cases leaf <;> rfl
  | _ => rw [Value.sorted]; all_goals simp

end Leaf

namespace Settings

def get (s : Settings) : (leaf : Leaf) → leaf.Content
  | .root => s.archive.root
  | .maxRuns => s.cycle.maxRuns
  | .maxBudget => s.cycle.maxBudget
  | .evolveEvery => s.cycle.evolveEvery
  | .maxProductiveSearches => s.evolution.maxProductiveSearches
  | .maxDeadEnds => s.evolution.maxDeadEnds
  | .maxSharedTopics => s.evolution.maxSharedTopics
  | .minHitRate => s.evolution.minHitRate
  | .relevanceFloor => s.evolution.relevanceFloor
  | .deadEndMinTraces => s.evolution.deadEndMinTraces
  | .recencyPenalty => s.sampling.recencyPenalty
  | .level => s.logging.level
  | .format => s.logging.format
  | .directory => s.logging.directory
  | .rotation => s.logging.rotation

def ofLeaves (x : (leaf : Leaf) → leaf.Content) : Settings where
  archive := ⟨x .root⟩
  cycle := ⟨x .maxRuns, x .maxBudget, x .evolveEvery⟩
  evolution := ⟨x .maxProductiveSearches, x .maxDeadEnds, x .maxSharedTopics, x .minHitRate,
    x .relevanceFloor, x .deadEndMinTraces⟩
  sampling := ⟨x .recencyPenalty⟩
  logging := ⟨x .level, x .format, x .directory, x .rotation⟩

theorem get_ofLeaves (x : (leaf : Leaf) → leaf.Content) (leaf : Leaf) :
    (ofLeaves x).get leaf = x leaf := by
  cases leaf <;> rfl

theorem ofLeaves_get (s : Settings) : ofLeaves s.get = s := rfl

/-- If each leaf has a content there are settings that have all of them. -/
theorem exists_get_or (x : (leaf : Leaf) → Option leaf.Content) :
    (∃ s : Settings, ∀ leaf, x leaf = some (s.get leaf)) ∨ ∃ leaf, x leaf = none := by
  by_contra! hboth
  choose y hy using fun leaf => Option.ne_none_iff_exists'.1 (hboth.2 leaf)
  obtain ⟨leaf, hleaf⟩ := hboth.1 (ofLeaves y)
  exact hleaf (by rw [hy, get_ofLeaves])

end Settings

/-! ## Maps of maps -/

namespace Value

/-- Records whose keys are in ascending order, so that none is there twice. -/
def IsMap (v : Value) : Prop :=
  ∃ fields, v = .record fields ∧ fields.Pairwise (·.1 < ·.1)

theorem columns_of_isMap {v : Value} (h : v.IsMap) (names : List String) :
    v.columns names = some (names.map (v.field? ·)) := by
  obtain ⟨fields, rfl, hfields⟩ := h
  have hnodup : (fields.map (·.1)).Nodup :=
    List.pairwise_map.2 (hfields.imp String.ne_of_lt)
  rw [columns_entries, if_pos fun name _ => List.nodup_iff_count_le_one.1 hnodup name]
  rfl

/-- A map in which the sections of the settings are maps. -/
structure IsLayer (v : Value) : Prop where
  isMap : v.IsMap
  sections : ∀ name ∈ Settings.sectionSizes.map (·.1), ∀ w, v.field? name = some w → w.IsMap

end Value

namespace Leaf

/-- What a layer sets a leaf to. -/
def value? (leaf : Leaf) (v : Value) : Option Value :=
  (v.field? leaf.part).bind (·.field? leaf.name)

theorem part_mem (leaf : Leaf) : leaf.part ∈ Settings.sectionSizes.map (·.1) := by
  cases leaf <;> simp [part, Settings.sectionSizes]

end Leaf

/-! ## Reading a layer -/

theorem cutSections_of_isLayer {v : Value} (h : v.IsLayer) : Settings.cutSections v = v := by
  obtain ⟨⟨fields, rfl, hfields⟩, hsections⟩ := h
  have hcut : ∀ e ∈ fields, Settings.cutSection e = e := by
    rintro ⟨key, w⟩ he
    have hw : (Value.record fields).field? key = some w :=
      StringMap.mem_entries (m := ⟨fields, hfields⟩).1 he
    cases w with
    | list items =>
      cases hsize : Settings.sectionSizes.lookup key with
      | none => simp [Settings.cutSection, hsize]
      | some n =>
        obtain ⟨before, after, heq, -⟩ := List.lookup_eq_some_iff.1 hsize
        have hkey : key ∈ Settings.sectionSizes.map (·.1) := by
          rw [heq]
          simp
        obtain ⟨_, heq, -⟩ := hsections key hkey _ hw
        cases heq
    | _ => rfl
  rw [Settings.cutSections, List.map_congr_left hcut, List.map_id']

section OrElse

variable {α : Type} [Readable α] {d : α} {v w : Option Value}

theorem orElse_congr (h : v.map (read : Value → Option α) = w.map read) :
    orElse d v = orElse d w := by
  cases v <;> cases w <;> simp_all [orElse]

theorem orElse_eq_none : orElse d v = none ↔ ∃ x, v = some x ∧ (read x : Option α) = none := by
  cases v <;> simp [orElse]

/-- A section that is a map is made of its columns. One that is not there is made of none. -/
theorem orElse_eq_make {names : List String} {make : List (Option Value) → Option α}
    (hread : ∀ x : Value, read x = (x.columns names).bind make)
    (hnone : make (names.map fun _ => none) = some d) (h : ∀ x ∈ v, x.IsMap) :
    orElse d v = make (names.map fun name => v.bind (·.field? name)) := by
  cases v with
  | none => exact hnone.symm
  | some x =>
    show read x = _
    rw [hread, Value.columns_of_isMap (h x rfl)]
    rfl

end OrElse

namespace Settings

/-- A layer is read leaf by leaf. One that it does not set has its default. -/
theorem read_eq_some {v : Value} (h : v.IsLayer) {s : Settings} :
    read (cutSections v) = some s ↔
      ∀ leaf, orElse (({} : Settings).get leaf) (leaf.value? v) = some (s.get leaf) := by
  have hpart : ∀ leaf : Leaf, ∀ w ∈ v.field? leaf.part, w.IsMap := fun leaf w hw =>
    h.sections _ leaf.part_mem w hw
  have harchive := orElse_eq_make (α := ArchiveSettings) (fun _ => rfl) rfl (hpart .root)
  have hcycle := orElse_eq_make (α := CycleSettings) (fun _ => rfl) rfl (hpart .maxRuns)
  have hevolution := orElse_eq_make (α := EvolutionSettings) (fun _ => rfl) rfl
    (hpart .maxProductiveSearches)
  have hsampling := orElse_eq_make (α := SamplingSettings) (fun _ => rfl) rfl
    (hpart .recencyPenalty)
  have hlogging := orElse_eq_make (α := LoggingSettings) (fun _ => rfl) rfl (hpart .level)
  have hread : (read v : Option Settings) = (v.columns _).bind _ := rfl
  rw [cutSections_of_isLayer h, hread, Value.columns_of_isMap h.isMap, Option.bind_some]
  simp only [List.map_cons, List.map_nil, Leaf.part] at harchive hcycle hevolution ⊢
  simp only [List.map_cons, List.map_nil, Leaf.part] at hsampling hlogging
  rw [harchive, hcycle, hevolution, hsampling, hlogging]
  simp only [Option.bind_eq_bind, Option.bind_eq_some_iff, Option.some.injEq]
  constructor
  · rintro ⟨_, ⟨_, hroot, rfl⟩, _, ⟨_, hruns, _, hbudget, _, hevery, rfl⟩,
      _, ⟨_, hsearches, _, hdead, _, htopics, _, hrate, _, hfloor, _, htraces, rfl⟩,
      _, ⟨_, hpenalty, rfl⟩, _, ⟨_, hlevel, _, hformat, _, hdirectory, _, hrotation, rfl⟩, rfl⟩
      leaf
    cases leaf
    exacts [hroot, hruns, hbudget, hevery, hsearches, hdead, htopics, hrate, hfloor, htraces,
      hpenalty, hlevel, hformat, hdirectory, hrotation]
  · intro hleaf
    exact ⟨_, ⟨_, hleaf .root, rfl⟩,
      _, ⟨_, hleaf .maxRuns, _, hleaf .maxBudget, _, hleaf .evolveEvery, rfl⟩,
      _, ⟨_, hleaf .maxProductiveSearches, _, hleaf .maxDeadEnds, _, hleaf .maxSharedTopics,
        _, hleaf .minHitRate, _, hleaf .relevanceFloor, _, hleaf .deadEndMinTraces, rfl⟩,
      _, ⟨_, hleaf .recencyPenalty, rfl⟩,
      _, ⟨_, hleaf .level, _, hleaf .format, _, hleaf .directory, _, hleaf .rotation, rfl⟩, rfl⟩

theorem read_eq_none {v : Value} (h : v.IsLayer) : (read (cutSections v) : Option Settings) = none ↔
    ∃ leaf, orElse (({} : Settings).get leaf) (leaf.value? v) = none := by
  constructor
  · intro hnone
    refine (exists_get_or fun leaf => orElse _ (leaf.value? v)).resolve_left ?_
    rintro ⟨s, hs⟩
    have hread := (read_eq_some h).2 hs
    rw [hnone] at hread
    cases hread
  · rintro ⟨leaf, hnone⟩
    refine Option.eq_none_iff_forall_ne_some.2 fun s hs => ?_
    have hleaf := (read_eq_some h).1 hs leaf
    rw [hnone] at hleaf
    cases hleaf

end Settings

end Exploration
