import Mathlib
import Exploration.Proofs.RankedLists
import Exploration.Proofs.Tallies

/-!
# The queries of an evolved strategy

Dead ends and productive searches are each the first of all queries that qualify (`Foremost`). The
tallies list their queries in ascending order, so that a stable sort breaks ties by text.
-/

namespace Exploration

namespace EvolutionSettings

variable {s : EvolutionSettings} {traces : List Trace}

/-! ## Dead ends -/

/-- In how many traces a search for the query came back empty. -/
def emptyRuns (traces : List Trace) (q : String) : ℕ :=
  traces.countP fun t => ∃ search ∈ t.searches, search.query = q ∧ search.wasEmpty = true

theorem mem_emptyQueries {t : Trace} {q : String} :
    q ∈ emptyQueries t ↔ ∃ search ∈ t.searches, search.query = q ∧ search.wasEmpty = true := by
  simp only [emptyQueries, List.mem_eraseDups, List.mem_map, List.mem_filter]
  exact exists_congr fun search => by rw [and_assoc, and_comm (a := search.wasEmpty = true)]

theorem empties_eq_emptyRuns (q : String) : empties traces q = emptyRuns traces q := by
  rw [empties_eq_countP, emptyRuns]
  simp only [mem_emptyQueries]

theorem isSome_tallyEmpty (q : String) :
    ((traces.foldl tallyEmpty ∅).get? q).isSome = true ↔ 0 < emptyRuns traces q := by
  have hfold := StringMap.isSome_foldl_update (k := id) (u := fun _ n => n.getD 0 + 1) q
    (traces.flatMap emptyQueries) ∅
  rw [List.foldl_flatMap] at hfold
  refine hfold.trans ?_
  simp [StringMap.get?_empty, emptyRuns, mem_emptyQueries]

/-- A query is tallied with its number of empty runs if it has any. -/
theorem mem_tallyEmpty {q : String} {n : ℕ} : (q, n) ∈ (traces.foldl tallyEmpty ∅).entries ↔
    0 < n ∧ emptyRuns traces q = n := by
  have hsome := @isSome_tallyEmpty traces q
  have hcount := @empties_eq_emptyRuns traces q
  unfold empties at hcount
  rw [StringMap.mem_entries, ← hcount]
  cases htally : (traces.foldl tallyEmpty ∅).get? q with
  | none =>
    refine iff_of_false nofun ?_
    rintro ⟨hpos, rfl⟩
    exact lt_irrefl _ hpos
  | some m =>
    rw [htally, ← hcount, htally] at hsome
    rw [Option.some.injEq]
    exact ⟨fun heq => ⟨heq ▸ hsome.1 rfl, heq⟩, fun h => h.2⟩

/-- The tallies of the queries with enough empty runs. -/
def enoughEmpty (s : EvolutionSettings) (traces : List Trace) : List (String × ℕ) :=
  (traces.foldl tallyEmpty ∅).entries.filter fun e => s.deadEndMinTraces.toNat ≤ e.2

theorem mem_enoughEmpty {q : String} {n : ℕ} : (q, n) ∈ s.enoughEmpty traces ↔
    0 < n ∧ emptyRuns traces q = n ∧ s.deadEndMinTraces.toNat ≤ n := by
  rw [enoughEmpty, List.mem_filter, mem_tallyEmpty, decide_eq_true_eq, and_assoc]

theorem ascending_enoughEmpty : (s.enoughEmpty traces).Pairwise (·.1 < ·.1) :=
  (traces.foldl tallyEmpty ∅).ascending.filter _

theorem foremost_deadEnds : Foremost (Outranks (emptyRuns traces) id)
    (fun q => max 1 s.deadEndMinTraces.toNat ≤ emptyRuns traces q) s.maxDeadEnds.toNat
      (s.deadEnds traces) := by
  have hforemost := (foremost_mergeSort Prod.snd (@ascending_enoughEmpty s traces)
    s.maxDeadEnds.toNat).map Prod.fst (Outranks (emptyRuns traces) id) ?_
  · refine hforemost.congr fun q => ?_
    simp only [Prod.exists, mem_enoughEmpty]
    constructor
    · rintro ⟨q, n, ⟨hpos, rfl, hmin⟩, rfl⟩
      exact max_le hpos hmin
    · exact fun h => ⟨q, _, ⟨(le_max_left _ _).trans h, rfl, (le_max_right _ _).trans h⟩, rfl⟩
  · rintro ⟨q, m⟩ ⟨r, n⟩ hq hr h
    obtain ⟨-, rfl, -⟩ := mem_enoughEmpty.1 hq
    obtain ⟨-, rfl, -⟩ := mem_enoughEmpty.1 hr
    exact h

/-- The dead ends are the first of all queries with enough empty runs, and with one at least. -/
theorem evolve_deadEnds (s : EvolutionSettings) (traces : List Trace) (version : UInt32) :
    let deadEnds := (s.evolve traces version).deadEnds
    let candidate (q : String) : Prop := max 1 s.deadEndMinTraces.toNat ≤ emptyRuns traces q
    Foremost (Outranks (emptyRuns traces) id) candidate s.maxDeadEnds.toNat deadEnds ∧
      deadEnds.Nodup ∧
      ∀ q ∈ deadEnds, ∀ r, candidate r → r ∉ deadEnds →
        ¬ emptyRuns traces q < emptyRuns traces r ∧
          (emptyRuns traces r = emptyRuns traces q → q < r) := by
  intro deadEnds candidate
  rw [show deadEnds = _ from (evolve_lists s traces version).2.1]
  refine ⟨foremost_deadEnds, nodup_map_take_mergeSort ascending_enoughEmpty _ _,
    fun q hq r hr hout => ?_⟩
  · rcases foremost_deadEnds.before_of_notMem hq hr hout with h | ⟨h, hqr⟩
    · exact ⟨h.not_gt, fun heq => absurd heq h.ne⟩
    · exact ⟨h.not_lt, fun _ => hqr⟩

/-! ## Productive searches -/

def timesUseful (traces : List Trace) (q : String) : ℕ :=
  (traces.flatMap (·.usefulSearches)).count q

def timesWasted (traces : List Trace) (q : String) : ℕ :=
  (traces.flatMap (·.wastedSearches)).count q

/-- A query that is useful often enough, with its share of hits and with the weight of its hits per
trace. -/
structure IsProductive (s : EvolutionSettings) (traces : List Trace) (p : ProductiveSearch) :
    Prop where
  labelled : ∃ t ∈ traces, p.query ∈ t.usefulSearches ∨ p.query ∈ t.wastedSearches
  hitRate : p.hitRate = Float.ofNat (timesUseful traces p.query) /
    Float.ofNat (timesUseful traces p.query + timesWasted traces p.query)
  paysOff : s.minHitRate < p.hitRate
  relevance : p.relevance = Double.smaller
    ((s.weights traces p.query).foldl (· + ·) 0 / Float.ofNat traces.length) 1

theorem isProductive_iff {p : ProductiveSearch} : s.IsProductive traces p ↔
    p ∈ (traces.foldl s.tallyQueries ∅).entries.filterMap
      (s.productiveSearch? traces.length) := by
  have huseful : s.hits traces p.query = timesUseful traces p.query := by
    rw [hits_eq, timesUseful, List.count_flatMap]
    rfl
  have hwasted : s.misses traces p.query = timesWasted traces p.query := by
    rw [misses_eq, timesWasted, List.count_flatMap]
    rfl
  rw [List.mem_filterMap, productiveSearch?_eq_some, isSome_tallyQueries, huseful, hwasted]
  exact ⟨fun h => ⟨h.labelled, h.hitRate, h.paysOff, h.relevance⟩,
    fun ⟨hlabelled, hrate, hpays, hrelevance⟩ => ⟨hlabelled, hrate, hpays, hrelevance⟩⟩

theorem ascending_productiveSearch? (n : ℕ) :
    ((traces.foldl s.tallyQueries ∅).entries.filterMap (s.productiveSearch? n)).Pairwise
      (·.query < ·.query) := by
  have hquery : ∀ {e p}, s.productiveSearch? n e = some p → p.query = e.1 := by
    intro e p hp
    simp only [productiveSearch?, Option.ite_none_right_eq_some, Option.some.injEq] at hp
    rw [← hp.2]
  refine List.pairwise_filterMap.2 ?_
  refine (traces.foldl s.tallyQueries ∅).ascending.imp fun hlt p hp p' hp' => ?_
  rw [hquery hp, hquery hp']
  exact hlt

/-- The productive searches are the first of all queries that are useful often enough. -/
theorem evolve_productiveSearches (s : EvolutionSettings) (traces : List Trace)
    (version : UInt32) :
    let productive := (s.evolve traces version).productiveSearches
    Foremost (Outranks (fun p : ProductiveSearch => Double.rank p.relevance) (·.query))
      (s.IsProductive traces) s.maxProductiveSearches.toNat productive ∧
      (productive.map (·.query)).Nodup := by
  intro productive
  have hascending := @ascending_productiveSearch? s traces traces.length
  rw [show productive = _ from (evolve_lists s traces version).1]
  refine ⟨?_, nodup_map_take_mergeSort hascending _ _⟩
  exact (foremost_mergeSort (fun p : ProductiveSearch => Double.rank p.relevance) hascending
    s.maxProductiveSearches.toNat).congr fun p => isProductive_iff.symm

end EvolutionSettings

end Exploration
