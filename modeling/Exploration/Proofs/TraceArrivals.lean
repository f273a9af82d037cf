import Mathlib
import Exploration.Proofs.Refusals

/-!
# The order in which traces arrive

The traces of an archive ascend when it is opened. What is accepted after that is put at the end
(`keepAll_traces`), whatever its time. So the archive has its traces in order just as long as none
arrives that is older than one that is there (`pairwise_keepAll`), and nothing in the archive asks
for that.
-/

namespace Exploration

namespace Keeper

open Archive
open Shared (nightTrace morrowTrace)

/-- Any additions, one after the other, each with the storage as it is then. -/
def keepAll (x : Keeper) (requests : List (Addition × Publish FileTree)) : Keeper :=
  requests.foldl (fun x request => x.keep request.2 request.1) x

/-- The archive takes the trace. -/
def Accepts (x : Keeper) (publish : Publish FileTree) (t : Trace) : Prop :=
  ∃ a tree, x.archive.addTrace publish t x.tree = (.ok a, tree)

/-- Only a trace that is accepted changes the traces, and it stands behind all others. -/
theorem keep_cases (x : Keeper) (publish : Publish FileTree) (addition : Addition) :
    ((x.keep publish addition).archive.traces = x.archive.traces ∧
        (x.keep publish addition).added = x.added)
      ∨ ∃ t, addition = .trace t ∧ x.Accepts publish t ∧
        (x.keep publish addition).archive.traces = x.archive.traces ++ [t] ∧
        (x.keep publish addition).added = x.added ++ [t] := by
  cases addition with
  | trace t =>
    rcases addTrace_cases publish x.archive t x.tree with
      ⟨hadd, -⟩ | ⟨w, ⟨-, hadd⟩ | ⟨-, hadd⟩ | ⟨-, hadd⟩⟩ <;> simp only [keep, hadd]
    · exact Or.inl ⟨trivial, trivial⟩
    · exact Or.inr ⟨t, rfl, ⟨_, _, hadd⟩, rfl, rfl⟩
    · exact Or.inl ⟨trivial, trivial⟩
    · exact Or.inl ⟨trivial, trivial⟩
  | strategy s =>
    left
    rcases saveStrategy_cases publish x.archive s x.tree with
      ⟨hsave, -⟩ | ⟨-, w, ⟨-, hsave⟩ | ⟨-, hsave⟩ | ⟨-, hsave⟩⟩ <;> simp only [keep, hsave]
    · exact ⟨trivial, trivial⟩
    · exact ⟨rfl, trivial⟩
    · exact ⟨trivial, trivial⟩
    · exact ⟨trivial, trivial⟩

theorem keep_accepts {x : Keeper} {publish : Publish FileTree} {t : Trace}
    (h : x.Accepts publish t) :
    (x.keep publish (.trace t)).archive.traces = x.archive.traces ++ [t] := by
  obtain ⟨a, tree, hadd⟩ := h
  rcases addTrace_cases publish x.archive t x.tree with
    ⟨hadd', -⟩ | ⟨w, ⟨-, hadd'⟩ | ⟨-, hadd'⟩ | ⟨-, hadd'⟩⟩ <;> rw [hadd] at hadd' <;> cases hadd'
  simp only [keep, hadd]
  rfl

/-! ## All additions -/

theorem keepAll_append (x : Keeper) (before after : List (Addition × Publish FileTree)) :
    x.keepAll (before ++ after) = (x.keepAll before).keepAll after := List.foldl_append

theorem keepAll_traces : ∀ (requests : List (Addition × Publish FileTree)) (x : Keeper),
    ∃ arrived, (x.keepAll requests).archive.traces = x.archive.traces ++ arrived ∧
      (x.keepAll requests).added = x.added ++ arrived
  | [], x => ⟨[], (List.append_nil _).symm, (List.append_nil _).symm⟩
  | (addition, publish) :: requests, x => by
    obtain ⟨arrived, htraces, hadded⟩ := keepAll_traces requests (x.keep publish addition)
    rcases keep_cases x publish addition with ⟨htraces', hadded'⟩ | ⟨t, -, -, htraces', hadded'⟩ <;>
      rw [htraces'] at htraces <;> rw [hadded'] at hadded
    · exact ⟨arrived, htraces, hadded⟩
    · exact ⟨t :: arrived, by simpa [keepAll] using htraces, by simpa [keepAll] using hadded⟩

/-- No trace is older when it is accepted than one that is there. -/
def InTime (x : Keeper) (requests : List (Addition × Publish FileTree)) : Prop :=
  ∀ before t publish after, requests = before ++ (.trace t, publish) :: after →
    (x.keepAll before).Accepts publish t →
      ∀ u ∈ (x.keepAll before).archive.traces, u.moment ≤ t.moment

theorem InTime.before {x : Keeper} {requests more : List (Addition × Publish FileTree)}
    (h : x.InTime (requests ++ more)) : x.InTime requests := by
  rintro before t publish after rfl
  exact h before t publish (after ++ more) (List.append_assoc _ _ _)

/-- The last trace that was accepted stands last, so it has to be the newest. -/
theorem pairwise_keepAll {x : Keeper} (hstart : x.archive.traces.Pairwise (·.moment ≤ ·.moment))
    (requests : List (Addition × Publish FileTree)) :
    (x.keepAll requests).archive.traces.Pairwise (·.moment ≤ ·.moment) ↔ x.InTime requests := by
  constructor
  · rintro hsorted before t publish after rfl haccepts u hu
    obtain ⟨arrived, htraces, -⟩ :=
      keepAll_traces after ((x.keepAll before).keep publish (.trace t))
    have hall : (x.keepAll (before ++ (.trace t, publish) :: after)).archive.traces =
        (x.keepAll before).archive.traces ++ [t] ++ arrived := by
      rw [keepAll_append, ← keep_accepts haccepts]
      exact htraces
    rw [hall, List.pairwise_append, List.pairwise_append] at hsorted
    exact hsorted.1.2.2 u hu t List.mem_cons_self
  · intro h
    induction requests using List.reverseRecOn with
    | nil => exact hstart
    | append_singleton requests request ih =>
      obtain ⟨addition, publish⟩ := request
      have hbefore := ih h.before
      have hlast : x.keepAll (requests ++ [(addition, publish)]) =
          (x.keepAll requests).keep publish addition := keepAll_append x _ _
      rw [hlast]
      rcases keep_cases (x.keepAll requests) publish addition with
        ⟨htraces, -⟩ | ⟨t, rfl, haccepts, htraces, -⟩ <;> rw [htraces]
      · exact hbefore
      · refine List.pairwise_append.2 ⟨hbefore, List.pairwise_singleton _ _, fun u hu v hv => ?_⟩
        rw [List.mem_singleton.1 hv]
        exact h requests t publish [] rfl haccepts u hu

/-- An archive has its traces in the order of their files when it is opened, and after that in the
order in which they arrive. That is the order of their times just if none of them comes late. -/
theorem keepAll_arrivals {sampling : SamplingSettings} {root : Path} {subject : String}
    {tree opened : FileTree} {first : Archive}
    (hopen : openAt sampling root subject tree = (.ok first, opened))
    (requests : List (Addition × Publish FileTree)) :
    let start : Keeper := { archive := first, tree := opened }
    let final := start.keepAll requests
    first.traces.Pairwise (·.moment < ·.moment) ∧
      final.archive.traces = first.traces ++ final.added ∧
      (final.archive.traces.Pairwise (·.moment ≤ ·.moment) ↔ start.InTime requests) := by
  intro start final
  have hascending : first.traces.Pairwise (·.moment < ·.moment) :=
    eq_loaded_of_openAt hopen ▸ ascending_traces
  obtain ⟨arrived, htraces, hadded⟩ := keepAll_traces requests start
  refine ⟨hascending, ?_, pairwise_keepAll (hascending.imp le_of_lt) requests⟩
  rw [htraces, hadded]
  rfl

/-- The trace of the first day arrives last and stands last. -/
theorem keepAll_arrivals_morrowTrace :
    let start : Keeper := { archive := vacantArchive, tree := vacantTree }
    let late := [(.trace morrowTrace, FileTree.publish), (.strategy (.empty 1), FileTree.publish),
      (.trace nightTrace, FileTree.publish)]
    let early := [(.trace nightTrace, FileTree.publish), (.trace morrowTrace, FileTree.publish)]
    (start.keepAll late).archive.traces = [morrowTrace, nightTrace] ∧ ¬ start.InTime late ∧
      (start.keepAll early).archive.traces = [nightTrace, morrowTrace] ∧ start.InTime early := by
  intro start late early
  obtain ⟨-, hlate, hlate'⟩ := keepAll_arrivals openAt_vacantTree late
  obtain ⟨-, hearly, hearly'⟩ := keepAll_arrivals openAt_vacantTree early
  have hlate : (start.keepAll late).archive.traces = [morrowTrace, nightTrace] := hlate
  have hearly : (start.keepAll early).archive.traces = [nightTrace, morrowTrace] := hearly
  refine ⟨hlate, fun h => ?_, hearly, hearly'.1 ?_⟩
  · have hsorted := hlate'.2 h
    rw [hlate] at hsorted
    exact moment_morrowTrace.not_ge (List.rel_of_pairwise_cons hsorted List.mem_cons_self)
  · rw [hearly]
    exact List.pairwise_pair.2 moment_morrowTrace.le

/-- Two traces are accepted by an archive with none, and the older one stands last, though its run
id comes last as well. -/
theorem unordered_morrowTrace :
    openAt {} [] "s" vacantTree = (.ok vacantArchive, vacantTree) ∧
      ¬ (keepAll { archive := vacantArchive, tree := vacantTree }
        [(.trace morrowTrace, FileTree.publish), (.trace nightTrace, FileTree.publish)]
        ).archive.traces.Pairwise (·.moment ≤ ·.moment) := by
  refine ⟨openAt_vacantTree, fun h => ?_⟩
  have htraces : (keepAll { archive := vacantArchive, tree := vacantTree }
      [(.trace morrowTrace, FileTree.publish), (.trace nightTrace, FileTree.publish)]
      ).archive.traces = [morrowTrace, nightTrace] := rfl
  rw [htraces] at h
  exact moment_morrowTrace.not_ge (List.rel_of_pairwise_cons h List.mem_cons_self)

end Keeper

end Exploration
