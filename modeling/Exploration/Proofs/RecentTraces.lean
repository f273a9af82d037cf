import Mathlib
import Exploration.Proofs.LoadedFiles
import Exploration.Proofs.OpenArchives
import Exploration.Proofs.RankedLists
import Exploration.Proofs.RecordTexts
import Exploration.Proofs.TraceArrivals

/-!
# Recent traces

An archive remembers no run id twice, whatever else comes to the tree (`Reached.filed`). So its
traces stand in one order by their moments, and the recent ones are the last in it, in whatever
order they are remembered (`foremost_recentTraces`).
-/

namespace Exploration

open FileTree (MayFail)

/-! ## Archives among others -/

namespace Shared

/-- All that archives of a subject can come to on any tree. Others may do to the tree what they like
at any time, except that no file is lost. -/
inductive Reached (root : Path) (subject : String) : Shared → Prop
  | start (tree : FileTree) : Reached root subject { tree := tree, archives := [] }
  | served {x : Shared} {r : Request × Publish FileTree} (hx : Reached root subject x)
      (hstorage : MayFail r.2) : Reached root subject (x.serve root subject r)
  | changed {x : Shared} {tree : FileTree} (hx : Reached root subject x)
      (hfiles : x.tree.KeepsFiles tree) : Reached root subject { x with tree := tree }

theorem Reached.filed {root : Path} {subject : String} {x : Shared} (h : Reached root subject x) :
    ∀ a ∈ x.archives, a.Filed (subject :: root) x.tree := by
  induction h with
  | start tree => exact fun _ ha => nomatch ha
  | served _ hstorage ih => exact filed_serves ih (serve_serves hstorage)
  | changed _ hfiles ih => exact fun a ha => (ih a ha).mono hfiles

theorem reached_serveAll {root : Path} {subject : String} :
    ∀ (requests : List (Request × Publish FileTree)) {x : Shared}, (∀ r ∈ requests, MayFail r.2) →
      Reached root subject x → Reached root subject (x.serveAll root subject requests)
  | [], _, _, h => h
  | r :: requests, _, hstorage, h =>
    reached_serveAll requests (fun q hq => hstorage q (List.mem_cons_of_mem r hq))
      (h.served (hstorage r List.mem_cons_self))

end Shared

/-! ## The newest first -/

/-- `t` is newer than `u`. -/
def Trace.Newer (t u : Trace) : Prop := u.moment < t.moment

namespace Archive

variable {a b : Archive}

/-- All traces, the newest first. -/
def newestFirst (a : Archive) : List Trace :=
  a.traces.mergeSort fun t u => Trace.chronological u t

theorem newestFirst_perm : a.newestFirst.Perm a.traces := List.mergeSort_perm _ _

theorem pairwise_newer (hids : (a.traces.map (·.runId)).Nodup) :
    a.newestFirst.Pairwise Trace.Newer := by
  have hsorted : a.newestFirst.Pairwise fun t u => u.moment ≤ t.moment := by
    refine (List.pairwise_mergeSort (fun t u v htu huv => ?_) (fun t u => ?_) a.traces).imp
      fun h => (Trace.chronological_iff _ _).1 h
    · exact Trace.chronological_trans v u t huv htu
    · exact Trace.chronological_total u t
  have hne : a.newestFirst.Pairwise (·.runId ≠ ·.runId) :=
    List.pairwise_map.1 ((newestFirst_perm.map _).nodup_iff.2 hids)
  exact (hsorted.and hne).imp fun ⟨hle, hne⟩ => Trace.moment_lt_of_le hle hne.symm

theorem foremost_recentTraces (hids : (a.traces.map (·.runId)).Nodup) (limit : ℕ) :
    Foremost Trace.Newer (· ∈ a.traces) limit (a.recentTraces limit) :=
  ⟨_, pairwise_newer hids, fun _ => newestFirst_perm.mem_iff, rfl⟩

theorem recentTraces_congr (hids : (a.traces.map (·.runId)).Nodup)
    (hids' : (b.traces.map (·.runId)).Nodup) (h : ∀ t, t ∈ a.traces ↔ t ∈ b.traces) (limit : ℕ) :
    a.recentTraces limit = b.recentTraces limit :=
  (foremost_recentTraces hids limit).unique (fun _ _ => lt_asymm)
    ((foremost_recentTraces hids' limit).congr fun t => (h t).symm)

theorem mem_of_mem_recentTraces {limit : ℕ} {t : Trace} (h : t ∈ a.recentTraces limit) :
    t ∈ a.traces :=
  newestFirst_perm.mem_iff.1 (List.mem_of_mem_take h)

theorem length_recentTraces (limit : ℕ) :
    (a.recentTraces limit).length = min limit a.runCount := by
  rw [recentTraces, List.length_take, List.length_mergeSort, runCount]

theorem mem_recentTraces_runCount {t : Trace} :
    t ∈ a.recentTraces a.runCount ↔ t ∈ a.traces := by
  have hall : a.recentTraces a.runCount = a.newestFirst :=
    List.take_of_length_le newestFirst_perm.length_eq.le
  rw [hall, newestFirst_perm.mem_iff]

theorem recentTraces_prefix {limit limit' : ℕ} (h : limit ≤ limit') :
    a.recentTraces limit <+: a.recentTraces limit' :=
  List.take_prefix_take_left h

/-- The `limit` newest traces of an archive, the newest first. -/
structure IsRecent (a : Archive) (limit : ℕ) (recent : List Trace) : Prop where
  length : recent.length = min limit a.runCount
  runIds : (recent.map (·.runId)).Nodup
  mem : ∀ t ∈ recent, t ∈ a.traces
  descending : recent.Pairwise Trace.Newer
  leftOut : ∀ t ∈ recent, ∀ u ∈ a.traces, u ∉ recent → t.Newer u

theorem isRecent_recentTraces (hids : (a.traces.map (·.runId)).Nodup) (limit : ℕ) :
    a.IsRecent limit (a.recentTraces limit) where
  length := length_recentTraces limit
  runIds := ((newestFirst_perm.map _).nodup_iff.2 hids).sublist ((List.take_sublist _ _).map _)
  mem _ := mem_of_mem_recentTraces
  descending := (pairwise_newer hids).sublist (List.take_sublist _ _)
  leftOut _ ht _ hu hout := (foremost_recentTraces hids limit).before_of_notMem ht hu hout

/-! ## Opening it again -/

section Reopened

variable {sampling : SamplingSettings} {root : Path} {subject : String} {tree : FileTree}

theorem storable_of_mem_loaded {t : Trace}
    (h : t ∈ (loaded sampling root subject tree).traces) : t.Storable := by
  obtain ⟨_, _, _, _, _, hdecode, _⟩ := eachOnce_traces.mem_iff.1 h
  exact Trace.storable_of_decode hdecode

/-- What an archive has accepted that worked alone is read again just if it can be stored. -/
theorem recentTraces_loaded_iff {first : Archive} {x : Keeper}
    (h : x.Abreast root subject tree first) (hfirst : first = loaded sampling root subject tree)
    (sampling' : SamplingSettings) :
    (∀ limit, (loaded sampling' root subject x.tree).recentTraces limit =
      x.archive.recentTraces limit) ↔ ∀ t ∈ x.added, t.Storable := by
  constructor
  · intro hsame t ht
    have hmem : t ∈ x.archive.traces := by
      rw [h.traces]
      exact List.mem_append_right _ ht
    rw [← mem_recentTraces_runCount, ← hsame] at hmem
    exact storable_of_mem_loaded (mem_of_mem_recentTraces hmem)
  · intro hadded
    have hperm : (loaded sampling' root subject x.tree).traces.Perm x.archive.traces := by
      rw [h.traces, hfirst]
      exact h.grown.loaded_traces sampling' hadded
    have hids := (@filed_loaded x.tree sampling' root subject).runIds
    exact recentTraces_congr hids ((hperm.map _).nodup_iff.1 hids) fun _ => hperm.mem_iff

theorem recentTraces_again {first : Archive} {opened : FileTree}
    (hopen : openAt sampling root subject tree = (.ok first, opened))
    (additions : List (Addition × Bool)) (sampling' : SamplingSettings) :
    let final := Keeper.run { archive := first, tree := opened } additions
    (openAt sampling' root subject final.tree).1 =
        .ok (loaded sampling' root subject final.tree) ∧
      ((∀ limit, (loaded sampling' root subject final.tree).recentTraces limit =
        final.archive.recentTraces limit) ↔ ∀ t ∈ final.added, t.Storable) := by
  intro final
  have hfinal := Keeper.abreast_run additions (Keeper.abreast_start hopen)
  have hopenable : Openable root subject tree :=
    (((openAt_opening _ root subject tree).ok_iff _).1 (by rw [hopen])).1
  exact ⟨((openAt_opening sampling' root subject final.tree).ok_iff _).2
    ⟨hfinal.grown.openable_iff.2 hopenable, rfl⟩,
    recentTraces_loaded_iff hfinal (eq_loaded_of_openAt hopen) sampling'⟩

end Reopened

/-- The recent traces do not depend on the order in which an archive remembers its traces. Where one
archive alone has added to what it was opened on, they are the same once it is opened again, if the
numbers of all that it added are finite and no arguments are nested too deep, and only then. -/
theorem recentTraces_newest :
    (∀ {root subject x}, Shared.Reached root subject x → ∀ a ∈ x.archives,
      (∀ limit, a.IsRecent limit (a.recentTraces limit)) ∧
      (∀ limit limit', limit ≤ limit' → a.recentTraces limit <+: a.recentTraces limit') ∧
      ∀ {root' subject' y}, Shared.Reached root' subject' y → ∀ b ∈ y.archives,
        (∀ t, t ∈ a.traces ↔ t ∈ b.traces) →
          ∀ limit, a.recentTraces limit = b.recentTraces limit) ∧
    ∀ {sampling root subject tree first opened},
      openAt sampling root subject tree = (.ok first, opened) → ∀ additions,
        let final := Keeper.run { archive := first, tree := opened } additions
        ∀ sampling', ∃ again, (openAt sampling' root subject final.tree).1 = .ok again ∧
          ((∀ limit, again.recentTraces limit = final.archive.recentTraces limit) ↔
            ∀ t ∈ final.added, (Double.isFinite t.profileScore = true ∧
              Double.isFinite t.cost = true ∧ Double.isFinite t.duration = true) ∧
              ∀ c ∈ t.toolCalls, c.args.1.depth ≤ 124) := by
  refine ⟨fun hx a ha => ?_, fun {_ root subject tree _ _} hopen additions => ?_⟩
  · have hids := (hx.filed a ha).runIds
    exact ⟨isRecent_recentTraces hids, fun _ _ => recentTraces_prefix,
      fun hy b hb => recentTraces_congr hids (hy.filed b hb).runIds⟩
  · intro final sampling'
    obtain ⟨hagain, hsame⟩ := recentTraces_again hopen additions sampling'
    exact ⟨_, hagain, hsame.trans (forall₂_congr fun _ _ => Trace.storable_iff)⟩

open Shared (nightTrace morrowTrace storable_nightTrace storable_fresh)

theorem reached_vacantArchive :
    Shared.Reached [] "s" { tree := vacantTree, archives := [vacantArchive] } := by
  have hopened : ({ tree := vacantTree, archives := [] } : Shared).serve [] "s"
      (.opening {}, FileTree.publish) = { tree := vacantTree, archives := [vacantArchive] } := by
    simp [Shared.serve, Shared.opening, openAt_vacantTree]
  rw [← hopened]
  exact (Shared.Reached.start vacantTree).served FileTree.mayFail_publish

/-- The newest trace is the one with the lesser run id, whether it comes first, last or out of the
files. -/
theorem recentTraces_newest_vacantTree :
    let start : Shared := { tree := vacantTree, archives := [vacantArchive] }
    let x := start.serveAll [] "s"
      [(.adding 0 morrowTrace, FileTree.publish), (.adding 0 nightTrace, FileTree.publish)]
    let y := start.serveAll [] "s"
      [(.adding 0 nightTrace, FileTree.publish), (.adding 0 morrowTrace, FileTree.publish)]
    let final := Keeper.run { archive := vacantArchive, tree := vacantTree }
      [(.trace morrowTrace, true), (.trace nightTrace, true)]
    ∃ a b again, x.archives = [a] ∧ y.archives = [b] ∧
      (openAt {} [] "s" final.tree).1 = .ok again ∧
      a.traces = [morrowTrace, nightTrace] ∧ b.traces = [nightTrace, morrowTrace] ∧
      morrowTrace.runId < nightTrace.runId ∧
      ∀ c ∈ [a, b, again], c.recentTraces 1 = [morrowTrace] := by
  intro start x y final
  obtain ⟨hreached, hreopened⟩ := recentTraces_newest
  have hstorage : ∀ first second, ∀ r ∈ [(Request.adding 0 first, FileTree.publish),
      (Request.adding 0 second, FileTree.publish)], MayFail r.2 := by
    simp [FileTree.mayFail_publish]
  have hx := Shared.reached_serveAll _ (hstorage morrowTrace nightTrace) reached_vacantArchive
  have hy := Shared.reached_serveAll _ (hstorage nightTrace morrowTrace) reached_vacantArchive
  let a : Archive := { vacantArchive with traces := [morrowTrace, nightTrace] }
  let b : Archive := { vacantArchive with traces := [nightTrace, morrowTrace] }
  have ha : a.recentTraces 1 = [morrowTrace] := by
    rw [recentTraces, List.mergeSort_of_pairwise (List.pairwise_pair.2 ?_)]
    · rfl
    · exact (Trace.chronological_iff _ _).2 Keeper.moment_morrowTrace.le
  have hsame := (hreached hx a List.mem_cons_self).2.2 hy b List.mem_cons_self
    (fun t => (List.Perm.swap nightTrace morrowTrace []).mem_iff) 1
  have hstored : ∀ t ∈ final.added, t.Storable := by
    rw [show final.added = [morrowTrace, nightTrace] from rfl]
    simpa using ⟨storable_fresh _ _ _, storable_nightTrace⟩
  obtain ⟨again, hopen, hagain⟩ := hreopened openAt_vacantTree
    [(.trace morrowTrace, true), (.trace nightTrace, true)] {}
  have hrecent : again.recentTraces 1 = a.recentTraces 1 :=
    hagain.2 (fun t ht => Trace.storable_iff.1 (hstored t ht)) 1
  refine ⟨a, b, again, rfl, rfl, hopen, rfl, rfl, by decide, ?_⟩
  simp [ha, hrecent, ← hsame]

/-- All numbers of the trace are finite, but its arguments are nested one level too deep. It is
kept, and an archive that is opened on its file does not have it. -/
theorem lost_nestedTrace :
    let t := nestedTrace 124
    let final := Keeper.run { archive := vacantArchive, tree := vacantTree } [(.trace t, true)]
    (∀ x ∈ t.doubles, Double.isFinite x = true) ∧
      openAt {} [] "s" vacantTree = (.ok vacantArchive, vacantTree) ∧
      final.archive.traces = [t] ∧
      ∃ again, (openAt {} [] "s" final.tree).1 = .ok again ∧
        ¬ ∀ limit, again.recentTraces limit = final.archive.recentTraces limit := by
  intro t final
  obtain ⟨htraces, hadded⟩ : final.archive.traces = [t] ∧ final.added = [t] := by
    have hone : final.added.length = 1 := by decide +kernel
    rcases Keeper.keep_cases ⟨vacantArchive, vacantTree, [], []⟩ FileTree.publish (.trace t) with
      ⟨-, hadded⟩ | ⟨u, hu, -, htraces, hadded⟩
    · rw [show final.added = [] from hadded] at hone
      cases hone
    · cases hu
      exact ⟨htraces, hadded⟩
  obtain ⟨hagain, hsame⟩ := recentTraces_again openAt_vacantTree [(.trace t, true)] {}
  refine ⟨?_, openAt_vacantTree, htraces, _, hagain, fun hall => ?_⟩
  · simp only [t, Trace.doubles, List.forall_mem_cons, List.forall_mem_flatMap]
    exact ⟨rfl, rfl, rfl, fun c _ => Value.allFinite_of_isCanonical c.args.2⟩
  · have hstorable := hsame.1 hall t (by rw [hadded]; exact List.mem_singleton_self t)
    have hdepth := hstorable.depth _ List.mem_cons_self
    rw [depth_nested] at hdepth
    exact absurd hdepth (by decide)

end Archive

end Exploration
