import Mathlib
import Exploration.Evolution
import Exploration.Proofs.DoubleShare
import Exploration.Proofs.Labels
import Exploration.Proofs.Loading

/-!
# What the tallies of a history count

The hits and misses of a query, and the traces in which it came back empty, are tallied over all
traces. Reflection labels each query of a trace once (`mem_usefulSearches`, `mem_wastedSearches`),
so over reflected traces each of the three is a number of traces.
-/

namespace Exploration

namespace EvolutionSettings

/-! ## Tallies -/

theorem measure_foldl {α β : Type} {step : StringMap α → Trace → StringMap α} {f : Option α → β}
    {g : β → Trace → β} {q : String} (h : ∀ m t, f ((step m t).get? q) = g (f (m.get? q)) t)
    (traces : List Trace) (m : StringMap α) :
    f ((traces.foldl step m).get? q) = traces.foldl g (f (m.get? q)) :=
  (List.foldl_hom (fun m => f (m.get? q)) fun m t => (h m t).symm).symm

variable (settings : EvolutionSettings) (traces : List Trace) (q : String)

/-- How often a query was useful, as the evolution tallies it. -/
def hits : Nat := ((traces.foldl settings.tallyQueries ∅).get? q).elim 0 (·.hits)

/-- How often a query was wasted, as the evolution tallies it. -/
def misses : Nat := ((traces.foldl settings.tallyQueries ∅).get? q).elim 0 (·.misses)

/-- In how many traces a query came back empty, as the evolution tallies it. -/
def empties : Nat := ((traces.foldl tallyEmpty ∅).get? q).getD 0

variable {settings traces q}

/-- A part of a tally on which each hit acts as `a` and each miss as `b`. -/
theorem measure_tallyQueries {β : Type} {f : Option QueryTally → β} {a : Float → β → β}
    {b : β → β} (hhit : ∀ w o, f (some (QueryTally.hit w o)) = a w (f o))
    (hmiss : ∀ o, f (some (QueryTally.miss o)) = b (f o)) :
    f ((traces.foldl settings.tallyQueries ∅).get? q) = traces.foldl (fun x t =>
      b^[t.wastedSearches.count q] ((a (settings.weight t))^[t.usefulSearches.count q] x))
        (f none) := by
  refine measure_foldl (fun m t => ?_) traces ∅
  rw [tallyQueries, StringMap.foldl_update_const hmiss, StringMap.foldl_update_const (hhit _)]

theorem foldl_add_eq_sum (count : Trace → Nat) (traces : List Trace) :
    traces.foldl (fun n t => n + count t) 0 = (traces.map count).sum := by
  rw [List.sum_eq_foldl, List.foldl_map]

theorem hits_eq : settings.hits traces q = (traces.map (·.usefulSearches.count q)).sum := by
  rw [hits, measure_tallyQueries (f := (·.elim 0 (·.hits))) (a := fun _ => Nat.succ)
    (b := id) (by rintro w (_ | o) <;> rfl) (by rintro (_ | o) <;> rfl)]
  simp only [Function.iterate_id, Nat.succ_iterate]
  exact foldl_add_eq_sum _ traces

theorem misses_eq : settings.misses traces q = (traces.map (·.wastedSearches.count q)).sum := by
  rw [misses, measure_tallyQueries (f := (·.elim 0 (·.misses))) (a := fun _ => id)
    (b := Nat.succ) (by rintro w (_ | o) <;> rfl) (by rintro (_ | o) <;> rfl)]
  simp only [Function.iterate_id, Nat.succ_iterate]
  exact foldl_add_eq_sum _ traces

theorem empties_eq : empties traces q = (traces.map fun t => (emptyQueries t).count q).sum := by
  have hstep : ∀ m t, ((tallyEmpty m t).get? q).getD 0 =
      (m.get? q).getD 0 + (emptyQueries t).count q := by
    intro m t
    rw [tallyEmpty, StringMap.foldl_update_const (f := (·.getD 0)) (g := Nat.succ) fun _ => rfl,
      Nat.succ_iterate]
  have hfold := measure_foldl (f := (·.getD 0)) (g := fun n t => n + (emptyQueries t).count q)
    hstep traces ∅
  exact hfold.trans (foldl_add_eq_sum _ traces)

/-- A query has a tally if it was ever labelled. -/
theorem isSome_tallyQueries :
    ((traces.foldl settings.tallyQueries ∅).get? q).isSome = true ↔
      ∃ t ∈ traces, q ∈ t.usefulSearches ∨ q ∈ t.wastedSearches := by
  have hfold := StringMap.foldl_iff_exists (f := settings.tallyQueries)
    (P := fun m => (m.get? q).isSome = true)
    (Q := fun t => q ∈ t.usefulSearches ∨ q ∈ t.wastedSearches) (fun m t => ?_) traces ∅
  · simpa [StringMap.get?_empty] using hfold
  · have hhits := StringMap.isSome_foldl_update (k := id)
      (u := fun _ => QueryTally.hit (settings.weight t)) q t.usefulSearches m
    have hmisses := StringMap.isSome_foldl_update (k := id) (u := fun _ => QueryTally.miss) q
      t.wastedSearches
      (t.usefulSearches.foldl (fun m q => m.update q (QueryTally.hit (settings.weight t))) m)
    simp only [id, exists_eq_right] at hhits hmisses
    rw [tallyQueries, hmisses, hhits, or_assoc]

/-- A source has a tally if a trace explored it. -/
theorem isSome_tallySources (source : String) :
    ((traces.foldl tallySources ∅).get? source).isSome = true ↔
      ∃ t ∈ traces, source ∈ t.exploredSources.toList := by
  have hfold := StringMap.foldl_iff_exists (f := tallySources)
    (P := fun m => (m.get? source).isSome = true)
    (Q := fun t => source ∈ t.exploredSources.toList) (fun m t => ?_) traces ∅
  · simpa [StringMap.get?_empty] using hfold
  · have hsources := StringMap.isSome_foldl_update (k := id)
      (u := fun _ => SourceTally.add t.profileScore) source t.exploredSources.toList m
    simp only [id, exists_eq_right] at hsources
    rw [tallySources, hsources]

/-! ## Sums -/

/-- The scores of the runs in which a query was useful, each as often as it was and none below the
floor. -/
def weights (settings : EvolutionSettings) (traces : List Trace) (q : String) : List Float :=
  traces.flatMap fun t => List.replicate (t.usefulSearches.count q)
    (Double.larger t.profileScore settings.relevanceFloor)

/-- The scores of the runs that explored a source. -/
def scores (traces : List Trace) (source : String) : List Float :=
  (traces.filter fun t => source ∈ t.exploredSources.toList).map (·.profileScore)

/-- The matches of a topic in all connections. -/
def matchTotal (traces : List Trace) (topic : String) : Nat :=
  (((traces.flatMap (·.connections)).filter (·.topic = topic)).map (·.totalMatches.toNat)).sum

theorem foldl_replicate_add (w : Float) : ∀ (n : Nat) (x : Float),
    (List.replicate n w).foldl (· + ·) x = (· + w)^[n] x
  | 0, _ => rfl
  | n + 1, x => by
    rw [List.replicate_succ, List.foldl_cons, foldl_replicate_add w n, Function.iterate_succ_apply]

theorem weight_eq : ((traces.foldl settings.tallyQueries ∅).get? q).elim 0 (·.weight) =
    (settings.weights traces q).foldl (· + ·) 0 := by
  rw [measure_tallyQueries (f := (·.elim 0 (·.weight))) (a := fun w x => x + w) (b := id)
    (by rintro w (_ | o) <;> rfl) (by rintro (_ | o) <;> rfl), weights, List.foldl_flatMap]
  simp only [Function.iterate_id, foldl_replicate_add, weight]
  rfl

/-- A part of the tally of a source on which each score acts as `g`. A trace acts once, as its
sources are a set. -/
theorem measure_tallySources {β : Type} {f : Option SourceTally → β} {g : Float → β → β}
    (h : ∀ x o, f (some (SourceTally.add x o)) = g x (f o)) (source : String) :
    f ((traces.foldl tallySources ∅).get? source) =
      (scores traces source).foldl (fun b x => g x b) (f none) := by
  have hstep : ∀ m t, f ((tallySources m t).get? source) =
      if source ∈ t.exploredSources.toList then g t.profileScore (f (m.get? source))
      else f (m.get? source) := by
    intro m t
    rw [tallySources, StringMap.foldl_update_const (h t.profileScore),
      (StringSet.nodup_toList t.exploredSources).count]
    split_ifs <;> rfl
  have hfold := measure_foldl (f := f) (g := fun b t =>
    if source ∈ t.exploredSources.toList then g t.profileScore b else b) hstep traces ∅
  rw [hfold, scores, List.foldl_map, List.foldl_filter]
  simp only [decide_eq_true_eq]
  rfl

theorem scores_eq (source : String) :
    ((traces.foldl tallySources ∅).get? source).elim 0 (·.scores) =
      (scores traces source).foldl (· + ·) 0 :=
  measure_tallySources (f := fun o => o.elim 0 SourceTally.scores) (g := fun x sum => sum + x)
    (by rintro x (_ | o) <;> rfl) source

theorem total_eq (topic : String) :
    (((traces.flatMap (·.connections)).foldl (fun m c => m.update c.topic (TopicTally.add c))
      (∅ : StringMap TopicTally)).get? topic).elim 0 (·.total) = matchTotal traces topic := by
  rw [StringMap.foldl_update (f := fun o => o.elim 0 TopicTally.total)
    (g := fun n c => n + c.totalMatches.toNat) (by rintro (_ | o) c <;> simp [TopicTally.add]),
    matchTotal, List.sum_eq_foldl, List.foldl_map]
  rfl

/-! ## Over reflected traces -/

theorem sum_count_eq_countP {f : Trace → List String} (h : ∀ t ∈ traces, (f t).Nodup) :
    (traces.map fun t => (f t).count q).sum = traces.countP fun t => q ∈ f t := by
  induction traces with
  | nil => rfl
  | cons t traces ih =>
    obtain ⟨ht, hrest⟩ := List.forall_mem_cons.1 h
    rw [List.map_cons, List.sum_cons, List.countP_cons, ih hrest, ht.count, Nat.add_comm]
    simp

/-- The empty queries of a trace are a set, reflected or not. -/
theorem empties_eq_countP : empties traces q = traces.countP fun t => q ∈ emptyQueries t := by
  rw [empties_eq]
  exact sum_count_eq_countP fun t _ => nodup_eraseDups _

/-- Each trace comes from reflection on some text. -/
def Reflected (traces : List Trace) : Prop :=
  ∀ t ∈ traces, ∃ (run : Trace) (output : String), t = run.reflect output

theorem hits_reflected (h : Reflected traces) :
    settings.hits traces q = traces.countP fun t => q ∈ t.usefulSearches := by
  rw [hits_eq]
  refine sum_count_eq_countP fun t ht => ?_
  obtain ⟨run, output, rfl⟩ := h t ht
  exact Trace.nodup_usefulSearches

theorem misses_reflected (h : Reflected traces) :
    settings.misses traces q = traces.countP fun t => q ∈ t.wastedSearches := by
  rw [misses_eq]
  refine sum_count_eq_countP fun t ht => ?_
  obtain ⟨run, output, rfl⟩ := h t ht
  exact Trace.nodup_wastedSearches

theorem hits_add_misses (h : Reflected traces) :
    settings.hits traces q + settings.misses traces q =
      traces.countP fun t => ∃ s ∈ t.searches, s.query = q := by
  have hcount : ∀ t ∈ traces, t.usefulSearches.count q + t.wastedSearches.count q =
      t.queries.count q := by
    intro t ht
    obtain ⟨run, output, rfl⟩ := h t ht
    exact Trace.count_labels
  rw [hits_eq, misses_eq, ← List.sum_map_add, List.map_congr_left hcount,
    sum_count_eq_countP fun t _ => t.nodup_queries]
  simp only [Trace.mem_queries]

/-- A query that came back empty was wasted. -/
theorem empties_le_misses (h : Reflected traces) :
    empties traces q ≤ settings.misses traces q := by
  rw [empties_eq_countP, misses_reflected h]
  refine List.countP_mono_left fun t ht hq => ?_
  obtain ⟨run, output, rfl⟩ := h t ht
  rw [decide_eq_true_eq] at hq ⊢
  obtain ⟨s, hs, rfl⟩ := List.mem_map.1 (List.mem_eraseDups.1 hq)
  obtain ⟨hs, hempty⟩ := List.mem_filter.1 hs
  exact Trace.mem_wastedSearches_of_wasEmpty hs hempty

/-! ## What is listed -/

/-- Without any traces the lists are empty by themselves. -/
theorem evolve_lists (s : EvolutionSettings) (traces : List Trace) (version : UInt32) :
    (s.evolve traces version).productiveSearches = s.productiveSearches traces ∧
      (s.evolve traces version).deadEnds = s.deadEnds traces ∧
      (s.evolve traces version).sharedTopics = s.sharedTopics traces := by
  rcases traces with _ | ⟨t, traces⟩
  · have hnone : ∀ {α : Type} (le : α → α → Bool) (k : ℕ), (List.mergeSort [] le).take k = [] :=
      fun le k => by rw [List.mergeSort_nil, List.take_nil]
    exact ⟨(hnone _ _).symm, (congrArg (List.map Prod.fst) (hnone _ _)).symm, (hnone _ _).symm⟩
  · exact ⟨rfl, rfl, rfl⟩

/-- A query is productive if it has a tally whose hit rate is high enough, and is listed with what
the tally gives. -/
theorem productiveSearch?_eq_some {p : ProductiveSearch} :
    (∃ e ∈ (traces.foldl settings.tallyQueries ∅).entries,
      settings.productiveSearch? traces.length e = some p) ↔
      ((traces.foldl settings.tallyQueries ∅).get? p.query).isSome = true ∧
      p.hitRate = Float.ofNat (settings.hits traces p.query) /
        Float.ofNat (settings.hits traces p.query + settings.misses traces p.query) ∧
      settings.minHitRate < p.hitRate ∧
      p.relevance = Double.smaller ((settings.weights traces p.query).foldl (· + ·) 0 /
        Float.ofNat traces.length) 1 := by
  have hweight := @weight_eq settings traces p.query
  unfold hits misses
  rw [← hweight]
  constructor
  · rintro ⟨⟨query, tally⟩, hentry, hp⟩
    simp only [productiveSearch?, Option.ite_none_right_eq_some, Option.some.injEq] at hp
    obtain ⟨hrate, rfl⟩ := hp
    rw [StringMap.mem_entries.1 hentry]
    exact ⟨rfl, rfl, hrate, rfl⟩
  · rintro ⟨hsome, hhitRate, hrate, hrelevance⟩
    obtain ⟨tally, htally⟩ := Option.isSome_iff_exists.1 hsome
    rw [htally] at hhitRate hrelevance
    obtain ⟨query, hitRate, relevance⟩ := p
    obtain rfl : hitRate = tally.hitRate := hhitRate
    refine ⟨(query, tally), StringMap.mem_entries.2 htally, ?_⟩
    rw [productiveSearch?, if_pos hrate]
    exact congrArg (fun x => some (ProductiveSearch.mk query tally.hitRate x)) hrelevance.symm

theorem mem_productiveSearches {p : ProductiveSearch}
    (h : p ∈ settings.productiveSearches traces) :
    p.hitRate = Float.ofNat (settings.hits traces p.query) /
        Float.ofNat (settings.hits traces p.query + settings.misses traces p.query) ∧
      settings.minHitRate < p.hitRate ∧
      p.relevance = Double.smaller ((settings.weights traces p.query).foldl (· + ·) 0 /
        Float.ofNat traces.length) 1 :=
  (productiveSearch?_eq_some.1
    (List.mem_filterMap.1 (List.mem_mergeSort.1 (List.mem_of_mem_take h)))).2

theorem mem_deadEnds (h : q ∈ settings.deadEnds traces) :
    settings.deadEndMinTraces.toNat ≤ empties traces q := by
  obtain ⟨⟨query, n⟩, hmem, rfl⟩ := List.mem_map.1 h
  have hmem := List.mem_mergeSort.1 (List.mem_of_mem_take hmem)
  obtain ⟨hentry, hle⟩ := List.mem_filter.1 hmem
  rw [StringMap.mem_entries] at hentry
  simpa [empties, hentry] using hle

/-- With at least half as a bound, the ratio of two counts is above it only if more than half of
the runs were hits. -/
theorem lt_of_half_le_of_lt_ratio {bound : Float} (hhalf : 0.5 ≤ bound) {hits runs : Nat}
    (h : bound < Float.ofNat hits / Float.ofNat runs) : runs < 2 * hits :=
  Double.lt_two_mul_of_half_lt (Double.lt_of_le_of_lt hhalf h)

/-- A query that is productive and a dead end was useful in more traces than the dead ends ask for,
so in more than half of all traces that are enough for it. -/
theorem reflected_tallies (settings : EvolutionSettings) {traces : List Trace}
    (h : Reflected traces) :
    (∀ q, settings.hits traces q = traces.countP (fun t => q ∈ t.usefulSearches) ∧
      settings.misses traces q = traces.countP (fun t => q ∈ t.wastedSearches) ∧
      settings.hits traces q + settings.misses traces q =
        traces.countP fun t => ∃ s ∈ t.searches, s.query = q) ∧
    (∀ p ∈ settings.productiveSearches traces, p.hitRate =
      Float.ofNat (traces.countP fun t => p.query ∈ t.usefulSearches) /
        Float.ofNat (traces.countP fun t => ∃ s ∈ t.searches, s.query = p.query)) ∧
    (∀ t ∈ traces, ∀ s ∈ t.searches, s.wasEmpty →
      s.query ∈ t.wastedSearches ∧ s.query ∉ t.usefulSearches) ∧
    (0.5 ≤ settings.minHitRate →
      (∀ p ∈ settings.productiveSearches traces, p.query ∈ settings.deadEnds traces →
        settings.deadEndMinTraces.toNat < traces.countP (fun t => p.query ∈ t.usefulSearches) ∧
        traces.countP (fun t => p.query ∈ t.wastedSearches) <
          traces.countP fun t => p.query ∈ t.usefulSearches) ∧
      (traces.length ≤ 2 * settings.deadEndMinTraces.toNat →
        ∀ p ∈ settings.productiveSearches traces, p.query ∉ settings.deadEnds traces)) := by
  have hboth : 0.5 ≤ settings.minHitRate → ∀ p ∈ settings.productiveSearches traces,
      p.query ∈ settings.deadEnds traces →
      settings.deadEndMinTraces.toNat ≤ settings.misses traces p.query ∧
        settings.misses traces p.query < settings.hits traces p.query := by
    intro hhalf p hp hdead
    obtain ⟨hrate, hlt, -⟩ := mem_productiveSearches hp
    rw [hrate] at hlt
    have hmost := lt_of_half_le_of_lt_ratio hhalf hlt
    exact ⟨(mem_deadEnds hdead).trans (empties_le_misses h), by omega⟩
  refine ⟨fun q => ⟨hits_reflected h, misses_reflected h, hits_add_misses h⟩, fun p hp => ?_,
    fun t ht s hs hempty => ?_, fun hhalf => ⟨fun p hp hdead => ?_, fun hfew p hp hdead => ?_⟩⟩
  · rw [(mem_productiveSearches hp).1, hits_add_misses h, hits_reflected h]
  · obtain ⟨run, output, rfl⟩ := h t ht
    have hwasted : s.query ∈ (run.reflect output).wastedSearches :=
      Trace.mem_wastedSearches_of_wasEmpty hs hempty
    refine ⟨hwasted, fun huseful => ?_⟩
    have hfalse := (Trace.mem_wastedSearches.1 hwasted).2
    rw [(Trace.mem_usefulSearches.1 huseful).2] at hfalse
    cases hfalse
  · obtain ⟨hmin, hmost⟩ := hboth hhalf p hp hdead
    rw [← hits_reflected h, ← misses_reflected h]
    exact ⟨by omega, hmost⟩
  · obtain ⟨hmin, hmost⟩ := hboth hhalf p hp hdead
    have hall : settings.hits traces p.query + settings.misses traces p.query ≤ traces.length := by
      rw [hits_add_misses h]
      exact List.countP_le_length
    omega

/-- Five runs that search for one query. It comes back empty in the first and the fourth. -/
def gardenTraces : List Trace :=
  [true, false, false, true, false].map fun wasEmpty =>
    { Trace.fresh "dawn" Time.epoch 0 with
      searches := [⟨"garden", .search, wasEmpty, 1⟩] }.reflect "A garden designer."

theorem reflected_gardenTraces : Reflected gardenTraces := by
  intro t ht
  obtain ⟨wasEmpty, -, rfl⟩ := List.mem_map.1 ht
  exact ⟨_, _, rfl⟩

/-- The query is productive and a dead end in five runs; in the first four it cannot be both. -/
theorem reflected_tallies_gardenTraces :
    let settings : EvolutionSettings := {}
    (∃ p ∈ settings.productiveSearches gardenTraces, p.query ∈ settings.deadEnds gardenTraces ∧
      p.hitRate = Float.ofNat 3 / Float.ofNat 5 ∧
      2 < gardenTraces.countP fun t => p.query ∈ t.usefulSearches) ∧
    settings.deadEnds (gardenTraces.take 4) = ["garden"] ∧
      ∀ p ∈ settings.productiveSearches (gardenTraces.take 4), p.query ≠ "garden" := by
  intro settings
  have hhalf : 0.5 ≤ settings.minHitRate := by decide
  obtain ⟨-, hrates, -, hboth⟩ := reflected_tallies settings reflected_gardenTraces
  have hfirst : Reflected (gardenTraces.take 4) := fun t ht =>
    reflected_gardenTraces t (List.mem_of_mem_take ht)
  obtain ⟨-, -, -, hfew⟩ := reflected_tallies settings hfirst
  have hproductive : (settings.productiveSearches gardenTraces).map (·.query) = ["garden"] := by
    decide +kernel
  have hdead : settings.deadEnds gardenTraces = ["garden"] := by decide +kernel
  have hdead' : settings.deadEnds (gardenTraces.take 4) = ["garden"] := by decide +kernel
  obtain ⟨p, hp, hquery⟩ := List.mem_map.1 (hproductive ▸ List.mem_singleton_self "garden")
  have hpdead : p.query ∈ settings.deadEnds gardenTraces := by
    rw [hdead, hquery]
    exact List.mem_singleton_self _
  have huseful : gardenTraces.countP (fun t => "garden" ∈ t.usefulSearches) = 3 := by decide +kernel
  have hsearched : gardenTraces.countP (fun t => ∃ s ∈ t.searches, s.query = "garden") = 5 := by
    decide +kernel
  refine ⟨⟨p, hp, hpdead, ?_, ((hboth hhalf).1 p hp hpdead).1⟩, hdead', fun q hq hgarden => ?_⟩
  · rw [hrates p hp, hquery, huseful, hsearched]
  · refine (hfew hhalf).2 (by decide) q hq ?_
    rw [hdead', hgarden]
    exact List.mem_singleton_self _

end EvolutionSettings

end Exploration
