import Mathlib
import Exploration.Proofs.DoubleOrder
import Exploration.Proofs.Reopening
import Exploration.Proofs.Tallies

/-!
# What the order of the traces decides

Counts, sums of matches and sets of sources come out the same in whatever order traces are tallied
(`StringMap.foldl_update_perm`), and so does all that is listed by them. Only what is summed up in
doubles depends on the order, and which one is taken of several traces with the highest score
(`TaughtAlike`).
-/

namespace Exploration

/-- The query with its hit rate. -/
def ProductiveSearch.rated (p : ProductiveSearch) : String × Float := (p.query, p.hitRate)

def QueryTally.counts (t : QueryTally) : ℕ × ℕ := (t.hits, t.misses)

namespace EvolutionSettings

variable {s : EvolutionSettings} {traces traces' : List Trace}

/-! ## Dead ends, topics and sources -/

theorem TopicTally.add_right_comm (c d : Connection) (o : Option TopicTally) :
    add d (some (add c o)) = add c (some (add d o)) := by
  simp only [add, Option.getD_some, TopicTally.mk.injEq]
  exact ⟨StringSet.insertAll_right_comm _ _ _, Nat.add_right_comm _ _ _⟩

/-- The empty queries of traces, those of each trace counted in the order in which `orders` has
them. -/
def tallyEmptyIn (orders : Trace → List String) (traces : List Trace) : StringMap ℕ :=
  traces.foldl (fun m t => (orders t).foldl (fun m q => m.update q fun n => n.getD 0 + 1) m) ∅

/-- The empty queries of a trace are a set, and may be counted in any order. -/
theorem tallyEmptyIn_perm (h : traces.Perm traces') {orders : Trace → List String}
    (horders : ∀ t ∈ traces, (orders t).Perm (emptyQueries t)) :
    tallyEmptyIn orders traces = traces'.foldl tallyEmpty ∅ := by
  have hall : (traces.flatMap orders).Perm (traces'.flatMap emptyQueries) := h.flatMap horders
  unfold tallyEmptyIn tallyEmpty
  rw [← List.foldl_flatMap, ← List.foldl_flatMap]
  exact StringMap.foldl_update_perm (k := id) (fun _ _ _ _ => rfl) hall ∅

theorem deadEnds_perm (h : traces.Perm traces') : s.deadEnds traces = s.deadEnds traces' := by
  have htally : traces.foldl tallyEmpty ∅ = traces'.foldl tallyEmpty ∅ :=
    tallyEmptyIn_perm h fun _ _ => .refl _
  unfold deadEnds
  rw [htally]

theorem sharedTopics_perm (h : traces.Perm traces') :
    s.sharedTopics traces = s.sharedTopics traces' := by
  have hconnections : (traces.flatMap (·.connections)).Perm (traces'.flatMap (·.connections)) :=
    h.flatMap fun t _ => .refl t.connections
  have htally := StringMap.foldl_update_perm (k := (·.topic)) (u := TopicTally.add)
    (fun c d _ o => TopicTally.add_right_comm c d o) hconnections ∅
  simp only [sharedTopics, htally]

theorem keys_sourcePriorities_perm (h : traces.Perm traces') :
    (sourcePriorities traces).keys = (sourcePriorities traces').keys := by
  refine StringMap.keys_congr fun source => ?_
  unfold sourcePriorities
  rw [StringMap.get?_map, StringMap.get?_map, Option.isSome_map, Option.isSome_map,
    Bool.eq_iff_iff, isSome_tallySources, isSome_tallySources]
  exact exists_congr fun t => and_congr_left' h.mem_iff

/-! ## Productive searches -/

/-- The productive queries with their hit rates, before any are cut. -/
def productive (s : EvolutionSettings) (traces : List Trace) : List (String × Float) :=
  ((traces.foldl s.tallyQueries ∅).entries.filterMap
    (s.productiveSearch? traces.length)).map (·.rated)

theorem isSome_tallyQueries_perm (h : traces.Perm traces') (q : String) :
    ((traces.foldl s.tallyQueries ∅).get? q).isSome =
      ((traces'.foldl s.tallyQueries ∅).get? q).isSome := by
  rw [Bool.eq_iff_iff, isSome_tallyQueries, isSome_tallyQueries]
  exact exists_congr fun t => and_congr_left' h.mem_iff

theorem map_counts_perm (h : traces.Perm traces') :
    (traces.foldl s.tallyQueries ∅).map (·.counts) =
      (traces'.foldl s.tallyQueries ∅).map (·.counts) := by
  refine StringMap.ext_get? fun q => ?_
  have hsome := @isSome_tallyQueries_perm s traces traces' h q
  have hhits : s.hits traces q = s.hits traces' q := by
    rw [hits_eq, hits_eq]
    exact (h.map _).sum_eq
  have hmisses : s.misses traces q = s.misses traces' q := by
    rw [misses_eq, misses_eq]
    exact (h.map _).sum_eq
  rw [StringMap.get?_map, StringMap.get?_map]
  unfold hits at hhits
  unfold misses at hmisses
  revert hsome hhits hmisses
  cases (traces.foldl s.tallyQueries ∅).get? q <;>
    cases (traces'.foldl s.tallyQueries ∅).get? q <;> simp [QueryTally.counts]
  exact And.intro

/-- A query with these counts, with its hit rate if that makes it productive. -/
def rated? (s : EvolutionSettings) (e : String × ℕ × ℕ) : Option (String × Float) :=
  let rate := Float.ofNat e.2.1 / Float.ofNat (e.2.1 + e.2.2)
  if s.minHitRate < rate then some (e.1, rate) else none

theorem productive_eq : s.productive traces =
    ((traces.foldl s.tallyQueries ∅).map (·.counts)).entries.filterMap s.rated? := by
  have hrated : ∀ e : String × QueryTally, (s.productiveSearch? traces.length e).map (·.rated) =
      s.rated? (e.1, e.2.counts) := by
    intro e
    simp only [productiveSearch?, apply_ite (Option.map _), Option.map_some, Option.map_none]
    rfl
  simp only [productive, List.map_filterMap, hrated, StringMap.map, List.filterMap_map]
  rfl

theorem productive_perm (h : traces.Perm traces') :
    s.productive traces = s.productive traces' := by
  rw [productive_eq, productive_eq, map_counts_perm h]

/-- The first of the productive queries, as many as there may be. -/
theorem productiveSearches_cut :
    ((s.productiveSearches traces).map (·.rated)).Subperm (s.productive traces) ∧
      (s.productiveSearches traces).length =
        min s.maxProductiveSearches.toNat (s.productive traces).length := by
  unfold productiveSearches productive
  constructor
  · refine ((List.take_sublist _ _).map _).subperm.trans ?_
    exact ((List.mergeSort_perm _ _).map _).subperm
  · rw [List.length_take, List.length_mergeSort, List.length_map]

theorem productiveSearches_uncut
    (h : (s.productive traces).length ≤ s.maxProductiveSearches.toNat) :
    ((s.productiveSearches traces).map (·.rated)).Perm (s.productive traces) := by
  obtain ⟨hsub, hlength⟩ := @productiveSearches_cut s traces
  refine hsub.perm_of_length_le ?_
  rw [List.length_map, hlength, min_eq_right h]

/-! ## The opening sequence -/

/-- A trace that none scores higher than, if there are any. -/
def Topmost : List Trace → Option Trace → Prop :=
  Picked fun b t => ¬ b.profileScore < t.profileScore

theorem topmost_best? (traces : List Trace) : Topmost traces (best? traces) := by
  refine picked_foldl (P := fun b t : Trace => ¬ b.profileScore < t.profileScore)
    (fun _ => Double.lt_irrefl _) (fun _ => rfl) (fun b t => ?_) traces
  by_cases h : b.profileScore < t.profileScore
  · exact Or.inr ⟨if_pos h, fun u hu hlt => hu (Double.lt_trans h hlt)⟩
  · exact Or.inl ⟨if_neg h, h⟩

theorem Topmost.perm {b : Option Trace} (h : Topmost traces b) (hperm : traces.Perm traces') :
    Topmost traces' b := by
  cases b with
  | none => exact (List.perm_nil.1 (h ▸ hperm.symm))
  | some b => exact ⟨hperm.mem_iff.1 h.1, fun t ht => h.2 t (hperm.mem_iff.2 ht)⟩

/-! ## The strategy -/

/-- What two strategies agree in that the same traces teach in different orders. Left open are the
relevances with the order and the cut that rest on them, the mean scores, the total cost, and which
one gives the tools of the traces with the highest score. -/
structure TaughtAlike (s : EvolutionSettings) (traces : List Trace) (x y : Strategy) : Prop where
  version : x.version = y.version
  derivedFromRuns : x.derivedFromRuns = y.derivedFromRuns
  deadEnds : x.deadEnds = y.deadEnds
  sharedTopics : x.sharedTopics = y.sharedTopics
  sources : x.sourcePriorities.keys = y.sourcePriorities.keys
  uncut : (s.productive traces).length ≤ s.maxProductiveSearches.toNat →
    (x.productiveSearches.map (·.rated)).Perm (y.productiveSearches.map (·.rated))
  /-- Also where some are cut, there are equally many, and all of them are productive. -/
  cut : x.productiveSearches.length = y.productiveSearches.length ∧
    (x.productiveSearches.map (·.rated)).Subperm (s.productive traces) ∧
    (y.productiveSearches.map (·.rated)).Subperm (s.productive traces)
  toolSequence : ∃ b b' : Option Trace, Topmost traces b ∧ Topmost traces b' ∧
    x.toolSequence = b.elim [] (·.toolSequence) ∧ y.toolSequence = b'.elim [] (·.toolSequence)

theorem taughtAlike_evolve (h : traces.Perm traces') (version : UInt32) :
    TaughtAlike s traces (s.evolve traces version) (s.evolve traces' version) := by
  unfold evolve
  rcases traces with _ | ⟨t, traces⟩
  · obtain rfl := List.nil_perm.1 h
    exact ⟨rfl, rfl, rfl, rfl, rfl, fun _ => .refl _, ⟨rfl, List.nil_subperm, List.nil_subperm⟩,
      none, none, rfl, rfl, rfl, rfl⟩
  have hsame := @productive_perm s _ _ h
  obtain ⟨hcut, hlength⟩ := @productiveSearches_cut s (t :: traces)
  obtain ⟨hcut', hlength'⟩ := @productiveSearches_cut s traces'
  rw [← hsame] at hcut' hlength'
  rw [if_neg (by simp), if_neg (by simp [← h.isEmpty_eq])]
  refine ⟨rfl, congrArg UInt64.ofNat h.length_eq, deadEnds_perm h, sharedTopics_perm h,
    keys_sourcePriorities_perm h, fun hfew => ?_, ⟨hlength.trans hlength'.symm, hcut, hcut'⟩,
    best? (t :: traces), best? traces', topmost_best? _, (topmost_best? _).perm h.symm, rfl, rfl⟩
  refine (productiveSearches_uncut hfew).trans ?_
  rw [hsame] at hfew ⊢
  exact (productiveSearches_uncut hfew).symm

end EvolutionSettings

/-! ## Archives that are opened again -/

open Archive EvolutionSettings

/-- Whoever opens the archive of `k` again is taught alike. -/
def Keeper.TeachesAgain (root : Path) (subject : String) (k : Keeper) : Prop :=
  ∀ sampling, ∃ again, (openAt sampling root subject k.tree).1 = .ok again ∧
    ∀ s : EvolutionSettings, TaughtAlike s k.archive.traces (k.archive.evolve s) (again.evolve s)

/-- An archive that is opened again loads the traces of the one that added them, in another order,
and knows of the same versions. -/
theorem Keeper.teachesAgain_run {root : Path} {subject : String} {tree opened : FileTree}
    {first : Archive} {sampling : SamplingSettings}
    (hopen : openAt sampling root subject tree = (.ok first, opened))
    (additions : List (Addition × Bool)) :
    let final := Keeper.run { archive := first, tree := opened } additions
    (∀ t ∈ final.added, t.Storable) → final.TeachesAgain root subject := by
  intro final hadded sampling'
  have hfinal : final.Abreast root subject tree first := abreast_run additions (abreast_start hopen)
  obtain ⟨hopenable, hfirst⟩ :=
    ((openAt_opening sampling root subject tree).ok_iff first).1 (by rw [hopen])
  refine ⟨_, ((openAt_opening sampling' root subject final.tree).ok_iff _).2
    ⟨hfinal.grown.openable_iff.2 hopenable, rfl⟩, fun s => ?_⟩
  have htraces : final.archive.traces.Perm
      (loaded sampling' root subject final.tree).traces := by
    rw [hfinal.traces, hfirst]
    exact (hfinal.grown.loaded_traces sampling' hadded).symm
  have hversion : (loaded sampling' root subject final.tree).latestVersion =
      final.archive.latestVersion :=
    UInt32.toNat_inj.1 (latestVersion_loaded hfinal.highest)
  unfold Archive.evolve
  rw [hversion]
  exact taughtAlike_evolve htraces _

/-- What the same traces teach in different orders, be they listed so or loaded so. Nor does it
matter in which order the empty queries of a trace are counted. -/
theorem evolve_order :
    (∀ (s : EvolutionSettings) (traces traces' : List Trace), traces.Perm traces' →
      ∀ version, TaughtAlike s traces (s.evolve traces version) (s.evolve traces' version)) ∧
    (∀ (traces traces' : List Trace) (orders : Trace → List String), traces.Perm traces' →
      (∀ t ∈ traces, (orders t).Perm (emptyQueries t)) →
        tallyEmptyIn orders traces = traces'.foldl tallyEmpty ∅) ∧
    ∀ (sampling : SamplingSettings) (root : Path) (subject : String) (tree opened : FileTree)
      (first : Archive), openAt sampling root subject tree = (.ok first, opened) →
      ∀ additions : List (Addition × Bool),
        let final := Keeper.run { archive := first, tree := opened } additions
        (∀ t ∈ final.added, t.Storable) → final.TeachesAgain root subject :=
  ⟨fun _ _ _ h version => taughtAlike_evolve h version,
    fun _ _ _ h horders => tallyEmptyIn_perm h horders,
    fun _ _ _ _ _ _ hopen additions => Keeper.teachesAgain_run hopen additions⟩

open Session (tornTree tornArchive openAt_tornTree)
open Shared (nightTrace morrowTrace storable_nightTrace storable_fresh)

/-- Five runs in the order in which they were made and backwards, and two runs that an archive that
is opened again loads in another order. -/
theorem evolve_order_gardenTraces :
    let s : EvolutionSettings := {}
    let back := s.evolve gardenTraces.reverse 1
    let final := Keeper.run { archive := tornArchive, tree := tornTree }
      [(.trace morrowTrace, true), (.trace nightTrace, true)]
    back.deadEnds = ["garden"] ∧
      back.productiveSearches.map (·.rated) = [("garden", Float.ofNat 3 / Float.ofNat 5)] ∧
      ∃ again, (openAt {} [] "s" final.tree).1 = .ok again ∧ (again.evolve s).version = 8 ∧
        (again.evolve s).derivedFromRuns = 2 := by
  intro s back final
  obtain ⟨hlisted, -, hloaded⟩ := evolve_order
  have hback := hlisted s _ _ (List.reverse_perm gardenTraces).symm 1
  obtain ⟨again, hagain, halike⟩ := hloaded _ _ _ _ _ _ openAt_tornTree
    [(.trace morrowTrace, true), (.trace nightTrace, true)] (by
      have hadded : final.added = [morrowTrace, nightTrace] := rfl
      rw [hadded]
      simpa using ⟨storable_fresh _ _ _, storable_nightTrace⟩) {}
  have hdead : (s.evolve gardenTraces 1).deadEnds = ["garden"] := by decide +kernel
  have hrated : (s.evolve gardenTraces 1).productiveSearches.map (·.rated) =
      [("garden", Float.ofNat 3 / Float.ofNat 5)] := by decide +kernel
  have hfew : (s.productive gardenTraces).length ≤ s.maxProductiveSearches.toNat := by
    decide +kernel
  have hrated' := hback.uncut hfew
  rw [hrated, List.singleton_perm] at hrated'
  exact ⟨hback.deadEnds.symm.trans hdead, hrated'.symm, again, hagain,
    (halike s).version.symm.trans rfl, (halike s).derivedFromRuns.symm.trans rfl⟩

end Exploration
