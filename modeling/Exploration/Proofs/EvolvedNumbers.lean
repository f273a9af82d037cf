import Mathlib
import Exploration.Proofs.DecodedNumbers
import Exploration.Proofs.DoubleText
import Exploration.Proofs.SharedArchive
import Exploration.Proofs.Tallies
import Exploration.Proofs.Versions

/-!
# The numbers of an evolved strategy

Hit rates and strengths are shares, and so finite (`isFinite_hitRate`, `isFinite_sharedTopic`). The
total cost, the mean scores and the relevances rest on sums that nothing keeps in the range of the
doubles (`isFinite_evolve`). A strategy with a sum out of range is saved, but never loaded again
(`reopened_evolve`).
-/

namespace Exploration

namespace EvolutionSettings

variable {settings : EvolutionSettings} {traces : List Trace}

theorem tallySources_pos {source : String} {tally : SourceTally}
    (h : (traces.foldl tallySources ∅).get? source = some tally) : 0 < tally.traces := by
  have hpos := @measure_tallySources traces Bool (fun o => o.all (0 < SourceTally.traces ·))
    (fun _ _ => true) (by rintro x (_ | o) <;> simp [SourceTally.add]) source
  rw [h, List.foldl_fixed' fun _ => rfl] at hpos
  exact of_decide_eq_true hpos

theorem matchTotal_lt (h : (traces.flatMap (·.connections)).length < 2 ^ 64) (topic : String) :
    matchTotal traces topic < 2 ^ 128 := by
  have hle := List.sum_le_card_nsmul
    (((traces.flatMap (·.connections)).filter (·.topic = topic)).map (·.totalMatches.toNat))
    (2 ^ 64 - 1) (by
      simp only [List.mem_map]
      rintro n ⟨c, -, rfl⟩
      have := c.totalMatches.toNat_lt
      omega)
  have hlength : ((traces.flatMap (·.connections)).filter (·.topic = topic)).length < 2 ^ 64 :=
    (List.length_filter_le _ _).trans_lt h
  rw [List.length_map, smul_eq_mul] at hle
  exact hle.trans_lt ((Nat.mul_le_mul_right _ hlength.le).trans_lt (by norm_num))

/-! ## What is finite -/

theorem isFinite_hitRate {p : ProductiveSearch} (h : p ∈ settings.productiveSearches traces) :
    Double.isFinite p.hitRate = true := by
  obtain ⟨hrate, hlt, -⟩ := mem_productiveSearches h
  rw [hrate] at hlt ⊢
  exact Double.isFinite_share (Nat.le_add_right _ _) ((Double.lt_iff _ _).1 hlt).2.1

theorem isFinite_strength {n greatest : Nat} (h : n < 2 ^ 128) :
    Double.isFinite (strength greatest n) = true := by
  unfold strength
  split_ifs with hzero
  · rfl
  · rw [Double.isFinite_div_ofNat _ (Nat.pos_of_ne_zero hzero)]
    exact Double.isFinite_ofNat h

theorem isFinite_sharedTopic (h : (traces.flatMap (·.connections)).length < 2 ^ 64)
    {t : SharedTopic} (ht : t ∈ settings.sharedTopics traces) :
    Double.isFinite t.strength = true := by
  have hmem := List.mem_mergeSort.1 (List.mem_of_mem_take ht)
  obtain ⟨⟨topic, tally⟩, hentry, rfl⟩ := List.mem_map.1 hmem
  have hentry := StringMap.mem_entries.1 (List.mem_filter.1 hentry).1
  have htotal := @total_eq traces topic
  rw [hentry] at htotal
  refine isFinite_strength ?_
  rw [show tally.total = matchTotal traces topic from htotal]
  exact matchTotal_lt h topic

theorem isFinite_relevance {p : ProductiveSearch} (h : p ∈ settings.productiveSearches traces) :
    Double.isFinite p.relevance = true ↔
      Double.parts ((settings.weights traces p.query).foldl (· + ·) 0 /
        Float.ofNat traces.length) ≠ .infinite true := by
  rw [(mem_productiveSearches h).2.2]
  exact Double.isFinite_smaller_one _

theorem isFinite_sourcePriorities :
    (∀ e ∈ (sourcePriorities traces).entries, Double.isFinite e.2 = true) ↔
      ∀ source, Double.isFinite ((scores traces source).foldl (· + ·) 0) = true := by
  have hentries : (sourcePriorities traces).entries = (traces.foldl tallySources ∅).entries.map
      fun e => (e.1, e.2.scores / Float.ofNat e.2.traces) := rfl
  rw [hentries, List.forall_mem_map]
  refine ⟨fun h source => ?_, fun h ⟨source, tally⟩ hentry => ?_⟩
  · rw [← scores_eq]
    cases htally : (traces.foldl tallySources ∅).get? source with
    | none => rfl
    | some tally =>
      have hmean := h (source, tally) (StringMap.mem_entries.2 htally)
      rwa [Double.isFinite_div_ofNat _ (tallySources_pos htally)] at hmean
  · have htally := StringMap.mem_entries.1 hentry
    have hsum := h source
    rw [← scores_eq, htally] at hsum
    rw [Double.isFinite_div_ofNat _ (tallySources_pos htally)]
    exact hsum

/-- No sum over the history leaves the finite doubles where nothing catches it. Of the weights only
the infinity below zero is one too many, as the relevance is capped at one. -/
structure InRange (settings : EvolutionSettings) (traces : List Trace) : Prop where
  cost : Double.isFinite (Double.sum (traces.map (·.cost))) = true
  scores : ∀ source, Double.isFinite ((scores traces source).foldl (· + ·) 0) = true
  weights : ∀ p ∈ settings.productiveSearches traces,
    Double.parts ((settings.weights traces p.query).foldl (· + ·) 0 / Float.ofNat traces.length) ≠
      .infinite true

theorem isFinite_evolve (h : (traces.flatMap (·.connections)).length < 2 ^ 64)
    (version : UInt32) :
    (∀ x ∈ (settings.evolve traces version).doubles, Double.isFinite x = true) ↔
      settings.InRange traces := by
  rcases traces with _ | ⟨t, traces⟩
  · have hdoubles : (settings.evolve [] version).doubles = [0] := rfl
    have hzero : Double.isFinite 0 = true := rfl
    have hnone : settings.productiveSearches [] = [] := by
      show (List.mergeSort [] _).take _ = []
      rw [List.mergeSort_nil, List.take_nil]
    rw [hdoubles]
    refine iff_of_true (by simpa using hzero) ⟨rfl, fun _ => hzero, fun p hp => ?_⟩
    rw [hnone] at hp
    cases hp
  · have hevolve : settings.evolve (t :: traces) version =
      { version := version
        productiveSearches := settings.productiveSearches (t :: traces)
        deadEnds := settings.deadEnds (t :: traces)
        sourcePriorities := sourcePriorities (t :: traces)
        sharedTopics := settings.sharedTopics (t :: traces)
        toolSequence := (best? (t :: traces)).elim [] (·.toolSequence)
        derivedFromRuns := .ofNat (t :: traces).length
        totalCost := Double.sum ((t :: traces).map (·.cost)) } := rfl
    rw [hevolve]
    simp only [Strategy.doubles, List.forall_mem_cons, List.forall_mem_append,
      List.forall_mem_flatMap, List.forall_mem_map]
    constructor
    · rintro ⟨hcost, ⟨hproductive, hpriorities⟩, -⟩
      refine ⟨hcost, isFinite_sourcePriorities.1 hpriorities, fun p hp => ?_⟩
      exact (isFinite_relevance hp).1 (hproductive p hp).2.1
    · rintro ⟨hcost, hscores, hweights⟩
      refine ⟨hcost, ⟨fun p hp => ?_, isFinite_sourcePriorities.2 hscores⟩, fun t ht => ?_⟩
      · exact ⟨isFinite_hitRate hp, (isFinite_relevance hp).2 (hweights p hp), by simp⟩
      · exact isFinite_sharedTopic h ht

end EvolutionSettings

namespace Archive

variable {sampling : SamplingSettings} {root : Path} {subject : String} {t : FileTree}

/-- Each strategy that is loaded has been decoded from a text. -/
theorem decode_of_mem_loaded {s : Strategy} (h : s ∈ (loaded sampling root subject t).strategies) :
    ∃ text, Strategy.decode text = some s := by
  obtain ⟨file, -, hs⟩ := List.mem_filterMap.1 (List.mem_mergeSort.1 h)
  obtain ⟨text, -, -, hdecode⟩ := storedStrategy?_eq_some.1 hs
  exact ⟨text, hdecode⟩

theorem mem_loaded_of_file {s : Strategy} (h : s.Storable)
    (hfile : s.file ∈ t.children (strategyDirectory (subject :: root))) :
    s ∈ (loaded sampling root subject t).strategies := by
  have hlisted : (strategyFile s.version, some s.encode) ∈
      listing t (strategyDirectory (subject :: root)) := List.mem_map.2 ⟨_, hfile, rfl⟩
  exact List.mem_mergeSort.2 (List.mem_filterMap.2 ⟨_, hlisted, storedStrategy?_file h⟩)

theorem version_le_latestVersion_loaded {s : Strategy}
    (hfile : s.file ∈ t.children (strategyDirectory (subject :: root))) :
    s.version ≤ (loaded sampling root subject t).latestVersion :=
  le_latestVersion_loaded hfile (versionOfFile?_strategyFile s.version)

/-- An evolved strategy that has been saved reserves its version for good, but it is loaded again
just if the sums it holds are in range. -/
theorem reopened_evolve {a a' : Archive} (settings : EvolutionSettings) {t t' : FileTree}
    (hdirectory : a.directory = subject :: root)
    (hconnections : (a.traces.flatMap (·.connections)).length < 2 ^ 64)
    (hsave : a.saveStrategy FileTree.publish (a.evolve settings) t = (.ok a', t')) :
    ((∀ x ∈ (a.evolve settings).doubles, Double.isFinite x = true) ↔ settings.InRange a.traces) ∧
    ∀ (later : FileTree), t'.Keeps later → ∀ (sampling : SamplingSettings) (again : Archive),
      (openAt sampling root subject later).1 = .ok again →
        (a.evolve settings).version ≤ again.latestVersion ∧
        (a.evolve settings ∈ again.strategies ↔ settings.InRange a.traces) := by
  have hfinite : (∀ x ∈ (a.evolve settings).doubles, Double.isFinite x = true) ↔
      settings.InRange a.traces := EvolutionSettings.isFinite_evolve hconnections _
  refine ⟨hfinite, fun later hkeeps sampling again hopen => ?_⟩
  obtain rfl := (((openAt_opening sampling root subject later).ok_iff again).1 hopen).2
  have hfile : (a.evolve settings).file ∈
      later.children (strategyDirectory (subject :: root)) := by
    rw [Strategy.file, FileTree.mem_children, ← hdirectory]
    refine hkeeps _ _ ?_
    rcases saveStrategy_tree a (a.evolve settings) t with ⟨-, -, h⟩ | ⟨h, -⟩ | h <;>
      rw [hsave] at h <;> cases h
    exact (FileTree.find?_insert _ _ _ _).trans (if_pos rfl)
  refine ⟨version_le_latestVersion_loaded hfile, fun hmem => ?_, fun hrange => ?_⟩
  · obtain ⟨text, htext⟩ := decode_of_mem_loaded hmem
    exact hfinite.1 (Strategy.isFinite_of_decode htext)
  · have hstorable : (a.evolve settings).Storable := fun x hx =>
      Json.readsBack_iff.2 (hfinite.2 hrange x hx)
    exact mem_loaded_of_file hstorable hfile

/-- A tree in which the strategy of an archive for the subject `s` has been saved. -/
def evolvedTree (a : Archive) : FileTree :=
  (a.saveStrategy FileTree.publish (a.evolve {}) vacantTree).2

/-- An archive with one run. -/
def thriftyArchive : Archive := { vacantArchive with traces := [Shared.nightTrace] }

/-- An archive with two runs of which each costs more than half of the greatest double. -/
def costlyArchive : Archive :=
  { vacantArchive with traces := ["dawn", "noon"].map fun runId =>
      { Trace.fresh runId Time.epoch 0 with cost := 1e308 } }

/-- The strategy of one run is there again; that of the two costly runs is not. -/
theorem reopened_evolve_costlyArchive :
    (∃ again, (openAt {} [] "s" (evolvedTree thriftyArchive)).1 = .ok again ∧
      thriftyArchive.evolve {} ∈ again.strategies) ∧
    ∃ again, (openAt {} [] "s" (evolvedTree costlyArchive)).1 = .ok again ∧
      costlyArchive.evolve {} ∉ again.strategies ∧ 1 ≤ again.latestVersion := by
  have hthrifty : thriftyArchive.saveStrategy FileTree.publish (thriftyArchive.evolve {})
      vacantTree = (.ok (thriftyArchive.withStrategy (thriftyArchive.evolve {})),
        evolvedTree thriftyArchive) := rfl
  have hcostly : costlyArchive.saveStrategy FileTree.publish (costlyArchive.evolve {})
      vacantTree = (.ok (costlyArchive.withStrategy (costlyArchive.evolve {})),
        evolvedTree costlyArchive) := rfl
  obtain ⟨hfinite, hreopened⟩ := @reopened_evolve [] "s" _ _ {} _ _ rfl (by decide) hthrifty
  obtain ⟨hfinite', hreopened'⟩ := @reopened_evolve [] "s" _ _ {} _ _ rfl (by decide) hcostly
  have hinRange := hfinite.1 (by decide +kernel)
  have houtOfRange := mt hfinite'.2 (by decide +kernel)
  obtain ⟨-, hkept⟩ := hreopened _ (.refl _) {} _ rfl
  obtain ⟨hreserved, hlost⟩ := hreopened' _ (.refl _) {} _ rfl
  exact ⟨⟨_, rfl, hkept.2 hinRange⟩, _, rfl, mt hlost.1 houtOfRange, hreserved⟩

/-- What is decoded from a text, evolved and saved may leave nothing in the end but its version. -/
theorem lost_costlyArchive :
    (∀ t ∈ costlyArchive.traces, Trace.decode t.encode = some t) ∧
    Double.isFinite (costlyArchive.evolve {}).totalCost = false ∧
    costlyArchive.saveStrategy FileTree.publish (costlyArchive.evolve {}) vacantTree =
      (.ok (costlyArchive.withStrategy (costlyArchive.evolve {})), evolvedTree costlyArchive) ∧
    ∀ sampling, ∃ again, (openAt sampling [] "s" (evolvedTree costlyArchive)).1 = .ok again ∧
      again.strategies = [] ∧ again.latestVersion = 1 := by
  have hloaded : (loaded {} [] "s" (evolvedTree costlyArchive)).strategies.length = 0 := by
    decide +kernel
  have hversion : (loaded {} [] "s" (evolvedTree costlyArchive)).latestVersion = 1 := by
    decide +kernel
  have hfinite : ∀ t ∈ costlyArchive.traces,
      (∀ x ∈ t.doubles, Double.isFinite x = true) ∧ t.toolCalls = [] := by
    decide +kernel
  refine ⟨fun t ht => Trace.decode_encode ⟨fun x hx => ?_, fun c hc => ?_⟩, by decide +kernel, rfl,
    fun sampling => ?_⟩
  · exact Json.readsBack_iff.2 ((hfinite t ht).1 x hx)
  · rw [(hfinite t ht).2] at hc
    cases hc
  · exact ⟨_, rfl, List.eq_nil_of_length_eq_zero hloaded, hversion⟩

end Archive

end Exploration
