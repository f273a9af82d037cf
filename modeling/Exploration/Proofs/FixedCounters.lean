import Mathlib
import Exploration.Proofs.EvolvedSources
import Exploration.Proofs.EvolvedTopics

/-!
# Counters of fixed width

The tallies of a history count in numbers. Counted in words, of 32 bits for queries and sources and
of 64 bits for empty queries and topics, each tally is the same up to multiples of the width. So as
long as no counter runs over (`Countable`) what is listed by them is the same, and the same strategy
is evolved (`evolveFixed_eq`).
-/

namespace Exploration

/-! ## Maps -/

theorem StringMap.map_update {α β : Type} {f : α → β} {u : Option α → α} {v : Option β → β}
    (h : ∀ o, f (u o) = v (o.map f)) (m : StringMap α) (key : String) :
    (m.update key u).map f = (m.map f).update key v := by
  refine ext_get? fun q => ?_
  rw [get?_map, get?_update, get?_update, get?_map, get?_map]
  split_ifs
  · exact congrArg some (h _)
  · rfl

/-- Where the steps of two tallies correspond, the tallies do. -/
theorem StringMap.map_foldl_update {α β ι : Type} {f : α → β} {k : ι → String}
    {u : ι → Option α → α} {v : ι → Option β → β} (h : ∀ i o, f (u i o) = v i (o.map f))
    (xs : List ι) (m : StringMap α) :
    (xs.foldl (fun m i => m.update (k i) (u i)) m).map f =
      xs.foldl (fun m i => m.update (k i) (v i)) (m.map f) :=
  (List.foldl_hom (·.map f) fun m i => (map_update (h i) m (k i)).symm).symm

/-! ## Tallies of words -/

/-- The tally of a query with counters of 32 bits. -/
structure QueryTally32 where
  hits : UInt32 := 0
  misses : UInt32 := 0
  weight : Float := 0

namespace QueryTally32

def hit (weight : Float) (t : Option QueryTally32) : QueryTally32 :=
  let t := t.getD {}
  { t with hits := t.hits + 1, weight := t.weight + weight }

def miss (t : Option QueryTally32) : QueryTally32 :=
  let t := t.getD {}
  { t with misses := t.misses + 1 }

def hitRate (t : QueryTally32) : Float :=
  Float.ofNat t.hits.toNat / Float.ofNat (t.hits + t.misses).toNat

end QueryTally32

def QueryTally.fixed (t : QueryTally) : QueryTally32 := ⟨.ofNat t.hits, .ofNat t.misses, t.weight⟩

theorem QueryTally.fixed_hit (weight : Float) (o : Option QueryTally) :
    (hit weight o).fixed = QueryTally32.hit weight (o.map fixed) := by
  cases o <;> simp [hit, QueryTally32.hit, fixed, UInt32.ofNat_add]

theorem QueryTally.fixed_miss (o : Option QueryTally) :
    (miss o).fixed = QueryTally32.miss (o.map fixed) := by
  cases o <;> simp [miss, QueryTally32.miss, fixed, UInt32.ofNat_add]

theorem QueryTally.hitRate_fixed {t : QueryTally} (h : t.hits + t.misses < UInt32.size) :
    t.fixed.hitRate = t.hitRate := by
  have hhits : t.hits < UInt32.size := lt_of_le_of_lt (Nat.le_add_right _ _) h
  rw [hitRate, QueryTally32.hitRate, fixed, ← UInt32.ofNat_add, UInt32.toNat_ofNat_of_lt' hhits,
    UInt32.toNat_ofNat_of_lt' h]

namespace EvolutionSettings

/-- The tally of a topic with a counter of 64 bits. -/
structure TopicTally64 where
  sources : StringSet := ∅
  total : UInt64 := 0

def TopicTally64.add (c : Connection) (t : Option TopicTally64) : TopicTally64 :=
  let t := t.getD {}
  ⟨t.sources.insertAll c.sources.toList, t.total + c.totalMatches⟩

def TopicTally.fixed (t : TopicTally) : TopicTally64 := ⟨t.sources, .ofNat t.total⟩

theorem TopicTally.fixed_add (c : Connection) (o : Option TopicTally) :
    (add c o).fixed = TopicTally64.add c (o.map fixed) := by
  cases o <;> simp [add, TopicTally64.add, fixed, UInt64.ofNat_add]

/-- The tally of a source with a counter of 32 bits. -/
structure SourceTally32 where
  scores : Float := 0
  traces : UInt32 := 0

def SourceTally32.add (score : Float) (t : Option SourceTally32) : SourceTally32 :=
  let t := t.getD {}
  ⟨t.scores + score, t.traces + 1⟩

def SourceTally.fixed (t : SourceTally) : SourceTally32 := ⟨t.scores, .ofNat t.traces⟩

theorem SourceTally.fixed_add (score : Float) (o : Option SourceTally) :
    (add score o).fixed = SourceTally32.add score (o.map fixed) := by
  cases o <;> simp [add, SourceTally32.add, fixed, UInt32.ofNat_add]

/-! ## What is listed by words -/

def tallyQueries32 (s : EvolutionSettings) (m : StringMap QueryTally32) (t : Trace) :
    StringMap QueryTally32 :=
  let m := t.usefulSearches.foldl (fun m q => m.update q (QueryTally32.hit (s.weight t))) m
  t.wastedSearches.foldl (fun m q => m.update q QueryTally32.miss) m

def productiveSearch32? (s : EvolutionSettings) (traces : Nat) (entry : String × QueryTally32) :
    Option ProductiveSearch :=
  let tally := entry.2
  if s.minHitRate < tally.hitRate then
    some ⟨entry.1, tally.hitRate, Double.smaller (tally.weight / Float.ofNat traces) 1⟩
  else none

def productiveSearches32 (s : EvolutionSettings) (traces : List Trace) : List ProductiveSearch :=
  let tallies := traces.foldl s.tallyQueries32 ∅
  let candidates := tallies.entries.filterMap (s.productiveSearch32? traces.length)
  (candidates.mergeSort fun a b => Double.totalLe b.relevance a.relevance).take
    s.maxProductiveSearches.toNat

def tallyEmpty64 (m : StringMap UInt64) (t : Trace) : StringMap UInt64 :=
  (emptyQueries t).foldl (fun m q => m.update q fun n => n.getD 0 + 1) m

def deadEnds64 (s : EvolutionSettings) (traces : List Trace) : List String :=
  let tallies := traces.foldl tallyEmpty64 ∅
  let candidates := tallies.entries.filter fun e => s.deadEndMinTraces ≤ e.2
  ((candidates.mergeSort fun a b => b.2 ≤ a.2).take s.maxDeadEnds.toNat).map (·.1)

def strength64 (greatest total : UInt64) : Float :=
  if greatest = 0 then 0 else Float.ofNat total.toNat / Float.ofNat greatest.toNat

def sharedTopics64 (s : EvolutionSettings) (traces : List Trace) : List SharedTopic :=
  let connections := traces.flatMap (·.connections)
  let tallies : StringMap TopicTally64 :=
    connections.foldl (fun m c => m.update c.topic (TopicTally64.add c)) ∅
  let candidates := tallies.entries.filter fun e => 2 ≤ e.2.sources.size
  let greatest := (candidates.map (·.2.total)).foldl max 0
  let topics := candidates.map fun e =>
    (⟨e.1, e.2.sources.toList, strength64 greatest e.2.total⟩ : SharedTopic)
  (topics.mergeSort fun a b => Double.totalLe b.strength a.strength).take s.maxSharedTopics.toNat

def tallySources32 (m : StringMap SourceTally32) (t : Trace) : StringMap SourceTally32 :=
  t.exploredSources.toList.foldl (fun m s => m.update s (SourceTally32.add t.profileScore)) m

def sourcePriorities32 (traces : List Trace) : StringMap Float :=
  (traces.foldl tallySources32 ∅).map fun t => t.scores / Float.ofNat t.traces.toNat

/-- The strategy that these traces teach where all is counted in words. -/
def evolveFixed (s : EvolutionSettings) (traces : List Trace) (version : UInt32) : Strategy :=
  if traces.isEmpty then .empty version
  else
    { s.evolve traces version with
      productiveSearches := s.productiveSearches32 traces
      deadEnds := s.deadEnds64 traces
      sourcePriorities := sourcePriorities32 traces
      sharedTopics := s.sharedTopics64 traces }

variable {s : EvolutionSettings} {traces : List Trace}

/-! ## Words and numbers -/

/-- No counter runs over. -/
structure Countable (s : EvolutionSettings) (traces : List Trace) : Prop where
  length : traces.length < UInt32.size
  queries : ∀ q, s.hits traces q + s.misses traces q < UInt32.size
  topics : ∀ topic, matchTotal traces topic < UInt64.size

theorem tallyQueries32_eq :
    traces.foldl s.tallyQueries32 ∅ = (traces.foldl s.tallyQueries ∅).map (·.fixed) := by
  refine @List.foldl_hom _ _ _ (StringMap.map QueryTally.fixed) s.tallyQueries s.tallyQueries32
    traces ∅ fun m t => ?_
  rw [tallyQueries, tallyQueries32, StringMap.map_foldl_update fun _ => QueryTally.fixed_miss,
    StringMap.map_foldl_update fun _ => QueryTally.fixed_hit (s.weight t)]

theorem productiveSearches32_eq (h : s.Countable traces) :
    s.productiveSearches32 traces = s.productiveSearches traces := by
  have hrate : ∀ e ∈ (traces.foldl s.tallyQueries ∅).entries,
      s.productiveSearch32? traces.length (e.1, e.2.fixed) =
        s.productiveSearch? traces.length e := by
    rintro ⟨q, tally⟩ he
    have hfits := h.queries q
    rw [hits, misses, StringMap.mem_entries.1 he] at hfits
    simp only [productiveSearch32?, productiveSearch?, QueryTally.hitRate_fixed hfits]
    rfl
  have hcandidates := List.filterMap_congr hrate
  simp only [productiveSearches32, tallyQueries32_eq, StringMap.map, List.filterMap_map,
    Function.comp_def, hcandidates]
  rfl

theorem tallyEmpty64_eq :
    traces.foldl tallyEmpty64 ∅ = (traces.foldl tallyEmpty ∅).map .ofNat := by
  refine @List.foldl_hom _ _ _ (StringMap.map UInt64.ofNat) tallyEmpty tallyEmpty64 traces ∅
    fun m t => ?_
  rw [tallyEmpty, tallyEmpty64, StringMap.map_foldl_update]
  rintro q (_ | n)
  · rfl
  · exact UInt64.ofNat_add n 1

/-- A query comes back empty in no more traces than there are. -/
theorem empties_le_length (q : String) : empties traces q ≤ traces.length := by
  rw [empties_eq_countP]
  exact List.countP_le_length

theorem deadEnds64_eq (h : traces.length < UInt64.size) :
    s.deadEnds64 traces = s.deadEnds traces := by
  have hfits : ∀ e ∈ (traces.foldl tallyEmpty ∅).entries, (UInt64.ofNat e.2).toNat = e.2 := by
    rintro ⟨q, n⟩ he
    refine UInt64.toNat_ofNat_of_lt' (lt_of_le_of_lt ?_ h)
    have hle := @empties_le_length traces q
    rwa [empties, StringMap.mem_entries.1 he] at hle
  have hcandidates : ((traces.foldl tallyEmpty ∅).map .ofNat).entries.filter
        (fun e => s.deadEndMinTraces ≤ e.2) =
      ((traces.foldl tallyEmpty ∅).entries.filter
        fun e => s.deadEndMinTraces.toNat ≤ e.2).map fun e => (e.1, .ofNat e.2) := by
    rw [StringMap.map, List.filter_map]
    refine congrArg (List.map _) (List.filter_congr fun e he => ?_)
    simp only [Function.comp, UInt64.le_iff_toNat_le, hfits e he]
  simp only [deadEnds64, deadEnds, tallyEmpty64_eq, hcandidates]
  rw [← List.map_mergeSort (r := fun a b => b.2 ≤ a.2), ← List.map_take, List.map_map]
  · rfl
  · intro a ha b hb
    simp only [UInt64.le_iff_toNat_le, hfits a (List.mem_of_mem_filter ha),
      hfits b (List.mem_of_mem_filter hb)]

theorem strength64_eq {greatest total : ℕ} (hgreatest : greatest < UInt64.size)
    (htotal : total < UInt64.size) :
    strength64 (.ofNat greatest) (.ofNat total) = strength greatest total := by
  have hzero : UInt64.ofNat greatest = 0 ↔ greatest = 0 := by
    rw [← UInt64.toNat_inj, UInt64.toNat_ofNat_of_lt' hgreatest]
    rfl
  simp only [strength64, strength, hzero, UInt64.toNat_ofNat_of_lt' hgreatest,
    UInt64.toNat_ofNat_of_lt' htotal]

/-- The greatest of words is that of their numbers. -/
theorem foldl_max_ofNat : ∀ {totals : List ℕ} {n : ℕ}, n < UInt64.size →
    (∀ k ∈ totals, k < UInt64.size) → totals.foldl max n < UInt64.size ∧
      (totals.map UInt64.ofNat).foldl max (.ofNat n) = .ofNat (totals.foldl max n)
  | [], _, hn, _ => ⟨hn, rfl⟩
  | k :: totals, n, hn, htotals => by
    obtain ⟨hk, htotals⟩ := List.forall_mem_cons.1 htotals
    have hmax : max (UInt64.ofNat n) (.ofNat k) = .ofNat (max n k) := by
      rw [← UInt64.toNat_inj, UInt64.toNat_max, UInt64.toNat_ofNat_of_lt' hn,
        UInt64.toNat_ofNat_of_lt' hk, UInt64.toNat_ofNat_of_lt' (max_lt hn hk)]
    rw [List.map_cons, List.foldl_cons, List.foldl_cons, hmax]
    exact foldl_max_ofNat (max_lt hn hk) htotals

theorem sharedTopics64_eq (h : s.Countable traces) :
    s.sharedTopics64 traces = s.sharedTopics traces := by
  have htallies : (traces.flatMap (·.connections)).foldl
      (fun m c => m.update c.topic (TopicTally64.add c)) ∅ =
        (topicTallies traces).map (·.fixed) :=
    (StringMap.map_foldl_update (k := (·.topic)) TopicTally.fixed_add
      (traces.flatMap (·.connections)) ∅).symm
  have hcandidates : ((topicTallies traces).map (·.fixed)).entries.filter
        (fun e => 2 ≤ e.2.sources.size) =
      ((topicTallies traces).entries.filter fun e => 2 ≤ e.2.sources.size).map
        fun e => (e.1, e.2.fixed) := by
    rw [StringMap.map, List.filter_map]
    rfl
  have hfits : ∀ e ∈ (topicTallies traces).entries.filter fun e => 2 ≤ e.2.sources.size,
      e.2.total < UInt64.size := fun e he => by
    rw [(mem_topicTallies (List.mem_of_mem_filter he)).1]
    exact h.topics e.1
  obtain ⟨hgreatest, hmax⟩ := foldl_max_ofNat (n := 0) (by decide) (List.forall_mem_map.2 hfits)
  rw [List.map_map] at hmax
  simp only [sharedTopics64, htallies, hcandidates, List.map_map]
  refine congrArg (fun topics => List.take _ (List.mergeSort topics _)) ?_
  refine List.map_congr_left fun e he => ?_
  have hstrength := strength64_eq hgreatest (hfits e he)
  rw [← hmax] at hstrength
  exact congrArg (SharedTopic.mk e.1 e.2.sources.toList) hstrength

theorem tallySources32_eq :
    traces.foldl tallySources32 ∅ = (traces.foldl tallySources ∅).map (·.fixed) := by
  refine @List.foldl_hom _ _ _ (StringMap.map SourceTally.fixed) tallySources tallySources32
    traces ∅ fun m t => ?_
  rw [tallySources, tallySources32,
    StringMap.map_foldl_update fun _ => SourceTally.fixed_add t.profileScore]

theorem sourcePriorities32_eq (h : traces.length < UInt32.size) :
    sourcePriorities32 traces = sourcePriorities traces := by
  refine StringMap.ext_get? fun source => ?_
  rw [sourcePriorities32, sourcePriorities, tallySources32_eq, StringMap.get?_map,
    StringMap.get?_map, StringMap.get?_map, get?_tallySources, Option.map_map]
  split_ifs
  · rfl
  · have hlength : (exploring traces source).length < UInt32.size :=
      lt_of_le_of_lt (List.length_filter_le _ _) h
    simp only [Option.map_some, Function.comp, SourceTally.fixed,
      UInt32.toNat_ofNat_of_lt' hlength]

/-- As long as no counter runs over, words count as numbers do. -/
theorem evolveFixed_eq (h : s.Countable traces) (version : UInt32) :
    s.evolveFixed traces version = s.evolve traces version := by
  have hlength : traces.length < UInt64.size := lt_trans h.length (by decide)
  unfold evolveFixed
  rw [productiveSearches32_eq h, deadEnds64_eq hlength, sourcePriorities32_eq h.length,
    sharedTopics64_eq h, evolve]
  split_ifs <;> rfl

/-- Reflected traces have each query once, so that their number bounds the counters of queries. -/
theorem Reflected.countable (h : Reflected traces) (hlength : traces.length < UInt32.size)
    (htopics : ∀ topic, matchTotal traces topic < UInt64.size) : s.Countable traces where
  length := hlength
  queries q := by
    rw [hits_add_misses h]
    exact lt_of_le_of_lt List.countP_le_length hlength
  topics := htopics

/-- Two connections of one topic with `2 ^ 63` matches each run over. -/
example :
    let c : Connection := ⟨"rust", ∅, 0x8000000000000000⟩
    (TopicTally64.add c (some (TopicTally64.add c none))).total = 0 ∧
      (TopicTally.add c (some (TopicTally.add c none))).total = 2 ^ 64 := by
  decide

end EvolutionSettings

end Exploration
