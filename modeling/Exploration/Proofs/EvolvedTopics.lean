import Mathlib
import Exploration.Proofs.RankedLists
import Exploration.Proofs.Tallies

/-!
# The topics of an evolved strategy

The connections of a topic are merged over all traces. What they merge to can be read off the tally
of the topic (`mem_topicTallies`), and the shared topics are the first of those with two sources
(`foremost_sharedTopics`). All that is listed depends on the connections of these topics alone
(`SameSpanning`).
-/

namespace Exploration

namespace EvolutionSettings

variable {s : EvolutionSettings} {traces traces' : List Trace}

/-! ## What the connections of a topic span -/

def topicTallies (traces : List Trace) : StringMap TopicTally :=
  (traces.flatMap (·.connections)).foldl (fun m c => m.update c.topic (TopicTally.add c)) ∅

def connectionsOf (traces : List Trace) (topic : String) : List Connection :=
  (traces.flatMap (·.connections)).filter (·.topic = topic)

/-- The sources of all connections of a topic. -/
def spanned (traces : List Trace) (topic : String) : Finset String :=
  ((connectionsOf traces topic).flatMap (·.sources.toList)).toFinset

/-- The connections of a topic have two sources between them. -/
def Spans (traces : List Trace) (topic : String) : Prop := 2 ≤ (spanned traces topic).card

/-- The greatest number of matches of a topic with two sources, or zero if there is none. -/
def GreatestTotal (traces : List Trace) (greatest : ℕ) : Prop :=
  IsGreatest {n | n = 0 ∨ ∃ topic, Spans traces topic ∧ matchTotal traces topic = n} greatest

/-- A topic with two sources, with all of its sources and its share of the greatest number of
matches. -/
structure IsShared (traces : List Trace) (greatest : ℕ) (e : SharedTopic) : Prop where
  spans : Spans traces e.topic
  sources : e.sources.toFinset = spanned traces e.topic
  ascending : e.sources.Pairwise (· < ·)
  strength : e.strength = if greatest = 0 then 0 else
    Float.ofNat (matchTotal traces e.topic) / Float.ofNat greatest

theorem mem_sources_topicTallies {topic x : String} :
    x ∈ (((topicTallies traces).get? topic).getD {}).sources.toList ↔ x ∈ spanned traces topic := by
  have hfold := StringMap.foldl_iff_exists
    (f := fun (m : StringMap TopicTally) c => m.update c.topic (TopicTally.add c))
    (P := fun m => x ∈ ((m.get? topic).getD {}).sources.toList)
    (Q := fun c : Connection => c.topic = topic ∧ x ∈ c.sources.toList) (fun m c => ?_)
    (traces.flatMap (·.connections)) ∅
  · refine hfold.trans ?_
    have hnone : x ∉ ((StringMap.get? (∅ : StringMap TopicTally) topic).getD {}).sources.toList :=
      List.not_mem_nil
    simp [spanned, connectionsOf, hnone, and_assoc]
  · rw [StringMap.get?_update]
    by_cases htopic : topic = c.topic
    · subst htopic
      rw [if_pos rfl, Option.getD_some, TopicTally.add, StringSet.mem_insertAll]
      simp
    · simp [htopic, Ne.symm htopic]

theorem card_spanned (topic : String) :
    (spanned traces topic).card = (((topicTallies traces).get? topic).getD {}).sources.size := by
  rw [← StringSet.card_toFinset]
  refine congrArg Finset.card (Finset.ext fun x => ?_)
  rw [List.mem_toFinset, mem_sources_topicTallies]

/-- The topics with two sources are those whose tallies have them. -/
theorem mem_topicTallies {topic : String} {tally : TopicTally}
    (h : (topic, tally) ∈ (topicTallies traces).entries) :
    tally.total = matchTotal traces topic ∧
      tally.sources.toList.toFinset = spanned traces topic ∧
      (2 ≤ tally.sources.size ↔ Spans traces topic) := by
  have htally := StringMap.mem_entries.1 h
  have htotal := @total_eq traces topic
  rw [← topicTallies, htally] at htotal
  have hcard := @card_spanned traces topic
  rw [htally] at hcard
  refine ⟨htotal, Finset.ext fun x => ?_, ?_⟩
  · rw [List.mem_toFinset, ← mem_sources_topicTallies, htally]
    rfl
  · rw [Spans, hcard]
    rfl

theorem exists_tally_of_spans {topic : String} (h : Spans traces topic) :
    ∃ tally, (topic, tally) ∈ (topicTallies traces).entries := by
  simp only [StringMap.mem_entries]
  refine Option.ne_none_iff_exists'.1 fun hnone => ?_
  rw [Spans, card_spanned, hnone] at h
  exact absurd h (by decide)

theorem isGreatest_foldl_max (ns : List ℕ) : IsGreatest {n | n = 0 ∨ n ∈ ns} (ns.foldl max 0) := by
  rw [List.foldl_max, Nat.zero_max]
  cases hmax : ns.max? with
  | none =>
    rw [List.max?_eq_none_iff] at hmax
    simp [hmax, IsGreatest, upperBounds]
  | some n =>
    obtain ⟨hmem, hle⟩ := List.max?_eq_some_iff.1 hmax
    refine ⟨.inr hmem, ?_⟩
    rintro m (rfl | hm)
    · exact Nat.zero_le _
    · exact hle m hm

/-- The tallies of the topics with two sources. -/
def spanningTallies (traces : List Trace) : List (String × TopicTally) :=
  (topicTallies traces).entries.filter fun e => 2 ≤ e.2.sources.size

theorem mem_spanningTallies {topic : String} {tally : TopicTally} :
    (topic, tally) ∈ spanningTallies traces ↔
      (topic, tally) ∈ (topicTallies traces).entries ∧ Spans traces topic := by
  rw [spanningTallies, List.mem_filter, decide_eq_true_eq]
  exact and_congr_right fun h => (mem_topicTallies h).2.2

theorem greatestTotal (traces : List Trace) :
    GreatestTotal traces (((spanningTallies traces).map (·.2.total)).foldl max 0) := by
  have htotals : ∀ n, (∃ topic, Spans traces topic ∧ matchTotal traces topic = n) ↔
      n ∈ (spanningTallies traces).map (·.2.total) := by
    intro n
    rw [List.mem_map]
    constructor
    · rintro ⟨topic, hspans, rfl⟩
      obtain ⟨tally, he⟩ := exists_tally_of_spans hspans
      exact ⟨(topic, tally), mem_spanningTallies.2 ⟨he, hspans⟩, (mem_topicTallies he).1⟩
    · rintro ⟨⟨topic, tally⟩, he, rfl⟩
      obtain ⟨he, hspans⟩ := mem_spanningTallies.1 he
      exact ⟨topic, hspans, (mem_topicTallies he).1.symm⟩
  simp only [GreatestTotal, htotals]
  exact isGreatest_foldl_max _

/-- What is listed for the tally of a topic. -/
def sharedTopic (greatest : ℕ) (e : String × TopicTally) : SharedTopic :=
  ⟨e.1, e.2.sources.toList, strength greatest e.2.total⟩

theorem isShared_iff {greatest : ℕ} {e : SharedTopic} : IsShared traces greatest e ↔
    e ∈ (spanningTallies traces).map (sharedTopic greatest) := by
  rw [List.mem_map]
  constructor
  · obtain ⟨topic, sources, share⟩ := e
    rintro ⟨hspans, hsources, hascending, hstrength⟩
    obtain ⟨tally, he⟩ := exists_tally_of_spans hspans
    obtain ⟨htotal, hspanned, -⟩ := mem_topicTallies he
    have hsame : sources = tally.sources.toList := by
      refine hascending.eq_of_mem_iff (List.pairwise_map.2 tally.sources.ascending) fun x => ?_
      rw [← List.mem_toFinset, ← List.mem_toFinset, hsources, hspanned]
    refine ⟨(topic, tally), mem_spanningTallies.2 ⟨he, hspans⟩, ?_⟩
    rw [sharedTopic, SharedTopic.mk.injEq, htotal]
    exact ⟨rfl, hsame.symm, hstrength.symm⟩
  · rintro ⟨⟨topic, tally⟩, he, rfl⟩
    obtain ⟨he, hspans⟩ := mem_spanningTallies.1 he
    obtain ⟨htotal, hspanned, -⟩ := mem_topicTallies he
    refine ⟨hspans, hspanned, List.pairwise_map.2 tally.sources.ascending, ?_⟩
    show strength greatest tally.total = _
    rw [htotal]
    rfl

theorem ascending_sharedTopic (greatest : ℕ) :
    ((spanningTallies traces).map (sharedTopic greatest)).Pairwise (·.topic < ·.topic) :=
  List.pairwise_map.2 ((topicTallies traces).ascending.filter _)

theorem foremost_sharedTopics {greatest : ℕ} (h : GreatestTotal traces greatest) :
    Foremost (Outranks (fun e : SharedTopic => Double.rank e.strength) (·.topic))
      (IsShared traces greatest) s.maxSharedTopics.toNat (s.sharedTopics traces) := by
  obtain rfl := h.unique (greatestTotal traces)
  exact (foremost_mergeSort (fun e : SharedTopic => Double.rank e.strength)
    (ascending_sharedTopic _) s.maxSharedTopics.toNat).congr fun e => isShared_iff.symm

/-! ## Topics with less than two sources -/

/-- Two histories have the same connections of each topic that has two sources in one of them. -/
def SameSpanning (traces traces' : List Trace) : Prop :=
  ∀ topic, Spans traces topic ∨ Spans traces' topic →
    connectionsOf traces topic = connectionsOf traces' topic

namespace SameSpanning

variable {topic : String} {greatest : ℕ}

theorem symm (h : SameSpanning traces traces') : SameSpanning traces' traces :=
  fun topic hspans => (h topic hspans.symm).symm

theorem spanned_eq (h : SameSpanning traces traces') (hspans : Spans traces topic) :
    spanned traces topic = spanned traces' topic :=
  congrArg (fun cs => (cs.flatMap (·.sources.toList)).toFinset) (h topic (.inl hspans))

theorem matchTotal_eq (h : SameSpanning traces traces') (hspans : Spans traces topic) :
    matchTotal traces topic = matchTotal traces' topic :=
  congrArg (fun cs => (cs.map (·.totalMatches.toNat)).sum) (h topic (.inl hspans))

theorem spans (h : SameSpanning traces traces') (hspans : Spans traces topic) :
    Spans traces' topic := by
  rwa [Spans, ← h.spanned_eq hspans]

theorem has_total (h : SameSpanning traces traces') {n : ℕ}
    (htotal : ∃ topic, Spans traces topic ∧ matchTotal traces topic = n) :
    ∃ topic, Spans traces' topic ∧ matchTotal traces' topic = n := by
  obtain ⟨topic, hspans, rfl⟩ := htotal
  exact ⟨topic, h.spans hspans, (h.matchTotal_eq hspans).symm⟩

theorem greatestTotal_of (h : SameSpanning traces traces')
    (hgreatest : GreatestTotal traces greatest) : GreatestTotal traces' greatest :=
  ⟨hgreatest.1.imp_right h.has_total, fun _ hn => hgreatest.2 (hn.imp_right h.symm.has_total)⟩

theorem isShared (h : SameSpanning traces traces') {e : SharedTopic}
    (he : IsShared traces greatest e) : IsShared traces' greatest e where
  spans := h.spans he.spans
  sources := he.sources.trans (h.spanned_eq he.spans)
  ascending := he.ascending
  strength := h.matchTotal_eq he.spans ▸ he.strength

theorem sharedTopics_eq (h : SameSpanning traces traces') :
    s.sharedTopics traces' = s.sharedTopics traces := by
  have hgreatest := greatestTotal traces
  have hforemost := @foremost_sharedTopics s _ _ (h.greatestTotal_of hgreatest)
  refine Foremost.unique (fun _ _ => Outranks.asymm) hforemost ?_
  exact (foremost_sharedTopics hgreatest).congr fun e => ⟨h.isShared, h.symm.isShared⟩

end SameSpanning

/-- The shared topics are the first of all topics with two sources. The other topics have no part in
them, nor in the greatest total. -/
theorem evolve_sharedTopics (s : EvolutionSettings) (traces : List Trace) (version : UInt32) :
    let topics := (s.evolve traces version).sharedTopics
    (∃ greatest, GreatestTotal traces greatest ∧
      Foremost (Outranks (fun e : SharedTopic => Double.rank e.strength) (·.topic))
        (IsShared traces greatest) s.maxSharedTopics.toNat topics) ∧
      (topics.map (·.topic)).Nodup ∧
      ∀ traces', SameSpanning traces traces' →
        (∀ greatest, GreatestTotal traces greatest ↔ GreatestTotal traces' greatest) ∧
          (s.evolve traces' version).sharedTopics = topics := by
  intro topics
  have hgreatest := greatestTotal traces
  rw [show topics = _ from (evolve_lists s traces version).2.2]
  refine ⟨⟨_, hgreatest, foremost_sharedTopics hgreatest⟩,
    nodup_map_take_mergeSort (ascending_sharedTopic _) _ _, fun traces' h => ⟨fun _ => ?_, ?_⟩⟩
  · exact ⟨h.greatestTotal_of, h.symm.greatestTotal_of⟩
  · exact (evolve_lists s traces' version).2.2.trans h.sharedTopics_eq

/-- The topic of the first two runs has two sources only in both together. The one of the third run
has more matches, but from one source. -/
example :
    let run (topic source : String) (total : UInt64) : Trace :=
      { Trace.fresh "dawn" Time.epoch 0 with
        connections := [⟨topic, StringSet.ofList [source], total⟩] }
    ((({} : EvolutionSettings).evolve [run "running" "strava" 2, run "running" "spotify" 3,
      run "rust" "github" 8] 1).sharedTopics.map fun e => (e.topic, e.sources, e.strength)) =
        [("running", ["spotify", "strava"], 1)] := by
  decide +kernel

end EvolutionSettings

end Exploration
