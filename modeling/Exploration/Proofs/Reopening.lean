import Mathlib
import Exploration.Proofs.Chronology
import Exploration.Proofs.SharedArchive
import Exploration.Proofs.Versions

/-!
# Opening an archive again

Where one archive alone adds to its directories, an archive opened after that has what it has: its
traces in order, its strategies and its latest version. While it is at work its strategies ascend,
and its latest version is the highest that a file name stands for (`Current`).
-/

namespace Exploration

namespace Archive

variable {sampling : SamplingSettings} {root : Path} {subject : String} {tree : FileTree}

/-! ## What has been loaded -/

theorem nodup_runIds_stored (t : FileTree) (directory : Path) :
    (((listing t (traceDirectory directory)).filterMap storedTrace?).map (·.runId)).Nodup := by
  have hnames := nodup_listing t (traceDirectory directory)
  rw [List.Nodup, List.pairwise_map] at hnames ⊢
  refine hnames.filterMap _ fun x y hne t ht u hu hid => hne ?_
  rw [eq_traceFile (runIdOfFile?_of_stored ht), eq_traceFile (runIdOfFile?_of_stored hu), hid]

/-- No two file names of the strategies stand for the same version. -/
def DistinctVersions (directory : Path) (t : FileTree) : Prop :=
  ∀ e ∈ t.children (strategyDirectory directory), ∀ e' ∈ t.children (strategyDirectory directory),
    ∀ v, versionOfFile? e.1 = some v → versionOfFile? e'.1 = some v → e.1 = e'.1

theorem pairwise_mergeSort_version (strategies : List Strategy) :
    (strategies.mergeSort fun a b => a.version ≤ b.version).Pairwise (·.version ≤ ·.version) := by
  refine (List.pairwise_mergeSort ?_ ?_ strategies).imp fun h => of_decide_eq_true h
  · intro a b c hab hbc
    simp only [decide_eq_true_eq, UInt32.le_iff_toNat_le] at hab hbc ⊢
    omega
  · intro a b
    simp only [Bool.or_eq_true, decide_eq_true_eq, UInt32.le_iff_toNat_le]
    omega

theorem ascending_loaded (h : DistinctVersions (subject :: root) tree) :
    (loaded sampling root subject tree).strategies.Pairwise (·.version < ·.version) := by
  have hnames := nodup_listing tree (strategyDirectory (subject :: root))
  rw [List.Nodup, List.pairwise_map] at hnames
  have hentry : ∀ f ∈ listing tree (strategyDirectory (subject :: root)),
      ∃ e ∈ tree.children (strategyDirectory (subject :: root)), e.1 = f.1 := fun f hf =>
    List.mem_map.1 (map_fst_listing tree _ ▸ List.mem_map_of_mem hf)
  have hdistinct : ((listing tree (strategyDirectory (subject :: root))).filterMap
      storedStrategy?).Pairwise (·.version ≠ ·.version) := by
    rw [List.pairwise_filterMap]
    refine hnames.imp_of_mem fun {f f'} hf hf' hne s hs s' hs' heq => hne ?_
    obtain ⟨e, he, hfst⟩ := hentry f hf
    obtain ⟨e', he', hfst'⟩ := hentry f' hf'
    rw [← hfst, ← hfst']
    refine h e he e' he' s.version ?_ ?_
    · rw [hfst, versionOfFile?_of_stored hs]
    · rw [hfst', versionOfFile?_of_stored hs', heq]
  have hne : (loaded sampling root subject tree).strategies.Pairwise (·.version ≠ ·.version) :=
    ((List.mergeSort_perm _ _).pairwise_iff fun h => h.symm).2 hdistinct
  refine ((pairwise_mergeSort_version _).and hne).imp fun ⟨hle, hne⟩ => ?_
  rw [UInt32.le_iff_toNat_le] at hle
  rw [ne_eq, ← UInt32.toNat_inj] at hne
  rw [UInt32.lt_iff_toNat_lt]
  omega

/-- There is one way to sort strategies with distinct versions. -/
theorem eq_of_ascending {strategies ascending : List Strategy} (h : strategies.Perm ascending)
    (hsorted : strategies.Pairwise (·.version ≤ ·.version))
    (hascending : ascending.Pairwise (·.version < ·.version)) : strategies = ascending := by
  have hnodup : (ascending.map (·.version)).Nodup := by
    rw [List.Nodup, List.pairwise_map]
    exact hascending.imp UInt32.ne_of_lt
  refine List.Perm.eq_of_pairwise (fun s t hs ht hst hts => ?_) hsorted
    (hascending.imp UInt32.le_of_lt) h
  exact List.inj_on_of_nodup_map hnodup (h.mem_iff.1 hs) ht (UInt32.le_antisymm hst hts)

theorem HighestVersion.congr {t t' : FileTree} {directory : Path} {highest : Nat}
    (h : HighestVersion directory t highest)
    (hchildren : t'.children (strategyDirectory directory) =
      t.children (strategyDirectory directory)) : HighestVersion directory t' highest := by
  unfold HighestVersion
  rw [hchildren]
  exact h

theorem highestVersion_insert {directory : Path} {highest : Nat} {s : Strategy} {e : Entry}
    (h : HighestVersion directory tree highest)
    (hnone : tree.find? (strategyPath directory s) = none) (hle : highest ≤ s.version.toNat) :
    HighestVersion directory (tree.insert (strategyPath directory s) e) s.version.toNat := by
  unfold HighestVersion
  rw [strategyPath, FileTree.children_insert_self _ hnone]
  refine ⟨Or.inr ⟨_, List.mem_cons_self, _, versionOfFile?_strategyFile _, rfl⟩, ?_⟩
  rintro n (rfl | ⟨f, hf, v, hv, rfl⟩)
  · exact Nat.zero_le _
  · rcases List.mem_cons.1 hf with rfl | hf
    · rw [versionOfFile?_strategyFile, Option.some.injEq] at hv
      rw [hv]
    · exact (h.2 (Or.inr ⟨f, hf, v, hv, rfl⟩)).trans hle

end Archive

/-! ## An archive at work -/

/-- What an archive is asked to keep. -/
inductive Addition where
  | trace (t : Trace)
  | strategy (s : Strategy)

/-- Storage that is out of order. -/
def FileTree.publishNothing : Publish FileTree := fun _ _ t => (.failed, t)

/-- An archive, the tree that it alone adds to, and what it has accepted. -/
structure Keeper where
  archive : Archive
  tree : FileTree
  added : List Trace := []
  saved : List Strategy := []

namespace Keeper

open Archive

def keep (publish : Publish FileTree) (x : Keeper) : Addition → Keeper
  | .trace t =>
    match x.archive.addTrace publish t x.tree with
    | (.error _, tree) => { x with tree := tree }
    | (.ok a, tree) => { x with archive := a, tree := tree, added := x.added ++ [t] }
  | .strategy s =>
    match x.archive.saveStrategy publish s x.tree with
    | (.error _, tree) => { x with tree := tree }
    | (.ok a, tree) => { x with archive := a, tree := tree, saved := x.saved ++ [s] }

/-- One addition, with the storage in order or not. -/
def step (x : Keeper) (addition : Addition × Bool) : Keeper :=
  x.keep (if addition.2 then FileTree.publish else FileTree.publishNothing) addition.1

def run (x : Keeper) (additions : List (Addition × Bool)) : Keeper := additions.foldl step x

/-- The same, as an archive that may share its directories with others. -/
def shared (x : Keeper) : Shared := ⟨x.tree, [x.archive], x.added, x.saved⟩

theorem keep_publishNothing (x : Keeper) (addition : Addition) :
    x.keep FileTree.publishNothing addition = x := by
  cases addition with
  | trace t =>
    rcases addTrace_cases FileTree.publishNothing x.archive t x.tree with
      ⟨hadd, -⟩ | ⟨w, ⟨hp, -⟩ | ⟨hp, -⟩ | ⟨hp, hadd⟩⟩
    · simp only [keep, hadd]
    · cases hp
    · cases hp
    · cases hp
      simp only [keep, hadd]
  | strategy s =>
    rcases saveStrategy_cases FileTree.publishNothing x.archive s x.tree with
      ⟨hsave, -⟩ | ⟨-, w, ⟨hp, -⟩ | ⟨hp, -⟩ | ⟨hp, hsave⟩⟩
    · simp only [keep, hsave]
    · cases hp
    · cases hp
    · cases hp
      simp only [keep, hsave]

theorem shared_keep_trace (x : Keeper) (t : Trace) :
    (x.keep FileTree.publish (.trace t)).shared = x.shared.adding 0 t := by
  simp only [keep, Shared.adding, shared, List.getElem?_cons_zero]
  rcases x.archive.addTrace FileTree.publish t x.tree with ⟨_ | _, _⟩ <;> rfl

theorem shared_keep_strategy (x : Keeper) (s : Strategy) :
    (x.keep FileTree.publish (.strategy s)).shared = x.shared.saving 0 s := by
  simp only [keep, Shared.saving, shared, List.getElem?_cons_zero]
  rcases x.archive.saveStrategy FileTree.publish s x.tree with ⟨_ | _, _⟩ <;> rfl

variable {root : Path} {subject : String} {tree : FileTree} {first : Archive} {x : Keeper}

/-- The archive, opened as `first`, has the traces that were accepted, and its latest version is the
highest of the tree. -/
structure Abreast (root : Path) (subject : String) (tree : FileTree) (first : Archive)
    (x : Keeper) : Prop where
  grown : x.shared.Grown root subject tree
  traces : x.archive.traces = first.traces ++ x.added
  highest : HighestVersion (subject :: root) x.tree x.archive.latestVersion.toNat

theorem Abreast.owned (h : x.Abreast root subject tree first) :
    x.archive.directory = subject :: root := h.grown.owned _ List.mem_cons_self

theorem abreast_trace (h : x.Abreast root subject tree first) (t : Trace) :
    (x.keep FileTree.publish (.trace t)).Abreast root subject tree first := by
  have hgrown := (Shared.grown_adding h.grown 0 t).1
  rw [← shared_keep_trace] at hgrown
  have hadd := addTrace_tree x.archive t x.tree
  rw [h.owned] at hadd
  rcases hadd with ⟨hnone, hadd⟩ | ⟨e, hadd⟩ <;> simp only [keep, hadd] at hgrown ⊢
  · refine ⟨hgrown, ?_, h.highest.congr ?_⟩
    · simp [withTrace, h.traces]
    · exact (Shared.insert_file (some t.encode) hnone).2.1 "strategies" (by decide)
  · exact h

theorem abreast_strategy (h : x.Abreast root subject tree first) (s : Strategy) :
    (x.keep FileTree.publish (.strategy s)).Abreast root subject tree first := by
  have hgrown := (Shared.grown_saving h.grown 0 s).1
  rw [← shared_keep_strategy] at hgrown
  have hsave := saveStrategy_tree x.archive s x.tree
  rw [h.owned] at hsave
  rcases hsave with ⟨hnew, hnone, hsave⟩ | ⟨hsave, -⟩ | hsave <;>
    simp only [keep, hsave] at hgrown ⊢
  · have hlt : x.archive.latestVersion < s.version := UInt32.not_le.1 hnew
    refine ⟨hgrown, h.traces, ?_⟩
    rw [latestVersion_withStrategy hnew]
    exact highestVersion_insert h.highest hnone (UInt32.le_iff_toNat_le.1 (UInt32.le_of_lt hlt))
  · exact h
  · exact h

theorem abreast_step (h : x.Abreast root subject tree first) :
    ∀ addition : Addition × Bool, (x.step addition).Abreast root subject tree first
  | (addition, false) => by
    show (x.keep FileTree.publishNothing addition).Abreast root subject tree first
    rw [keep_publishNothing]
    exact h
  | (.trace t, true) => abreast_trace h t
  | (.strategy s, true) => abreast_strategy h s

theorem abreast_run : ∀ (additions : List (Addition × Bool)) {x : Keeper},
    x.Abreast root subject tree first → (x.run additions).Abreast root subject tree first
  | [], _, h => h
  | addition :: additions, _, h => abreast_run additions (abreast_step h addition)

theorem abreast_start {sampling : SamplingSettings} {opened : FileTree}
    (hopen : openAt sampling root subject tree = (.ok first, opened)) :
    Abreast root subject tree first { archive := first, tree := opened } := by
  have ho := openAt_opening sampling root subject tree
  rw [hopen] at ho
  obtain ⟨-, rfl⟩ := (ho.ok_iff first).1 rfl
  have hhighest := highestVersion_reservedVersion tree (subject :: root)
  refine ⟨⟨fun a ha => ?_, ho.keeps, ?_, ?_, fun part => ho.makeable _⟩, by simp, ?_⟩
  · rw [List.mem_singleton.1 ha]
    rfl
  · simp [shared, ho.traces]
  · simp [shared, ho.strategies]
  · rw [latestVersion_loaded hhighest]
    exact hhighest.congr ho.strategies

/-- The archive, opened as `first`, has what was accepted, and knows of every version with a
file. -/
structure Current (root : Path) (subject : String) (tree : FileTree) (first : Archive)
    (x : Keeper) : Prop where
  grown : x.shared.Grown root subject tree
  traces : x.archive.traces = first.traces ++ x.added
  strategies : x.archive.strategies = first.strategies ++ x.saved
  ascending : x.archive.strategies.Pairwise (·.version < ·.version)
  known : ∀ s ∈ x.archive.strategies, s.version ≤ x.archive.latestVersion
  highest : HighestVersion (subject :: root) x.tree x.archive.latestVersion.toNat

theorem Current.abreast (h : x.Current root subject tree first) :
    x.Abreast root subject tree first :=
  ⟨h.grown, h.traces, h.highest⟩

theorem current_trace (h : x.Current root subject tree first) (t : Trace) :
    (x.keep FileTree.publish (.trace t)).Current root subject tree first := by
  obtain ⟨hgrown, htraces, hhighest⟩ := abreast_trace h.abreast t
  rcases addTrace_tree x.archive t x.tree with ⟨-, hadd⟩ | ⟨e, hadd⟩ <;>
    simp only [keep, hadd] at hgrown htraces hhighest ⊢
  · exact ⟨hgrown, htraces, h.strategies, h.ascending, h.known, hhighest⟩
  · exact h

theorem current_strategy (h : x.Current root subject tree first) (s : Strategy) :
    (x.keep FileTree.publish (.strategy s)).Current root subject tree first := by
  obtain ⟨hgrown, htraces, hhighest⟩ := abreast_strategy h.abreast s
  rcases saveStrategy_tree x.archive s x.tree with ⟨hnew, -, hsave⟩ | ⟨hsave, -⟩ | hsave <;>
    simp only [keep, hsave] at hgrown htraces hhighest ⊢
  · have hlt : x.archive.latestVersion < s.version := UInt32.not_le.1 hnew
    refine ⟨hgrown, htraces, ?_, ?_, fun u hu => le_latestVersion hu, hhighest⟩
    · simp [withStrategy, h.strategies]
    · refine List.pairwise_append.2 ⟨h.ascending, List.pairwise_singleton _ _, ?_⟩
      intro u hu t ht
      rw [List.mem_singleton.1 ht]
      exact UInt32.lt_of_le_of_lt (h.known u hu) hlt
  · exact h
  · exact h

theorem current_step (h : x.Current root subject tree first) :
    ∀ addition : Addition × Bool, (x.step addition).Current root subject tree first
  | (addition, false) => by
    show (x.keep FileTree.publishNothing addition).Current root subject tree first
    rw [keep_publishNothing]
    exact h
  | (.trace t, true) => current_trace h t
  | (.strategy s, true) => current_strategy h s

theorem current_run : ∀ (additions : List (Addition × Bool)) {x : Keeper},
    x.Current root subject tree first → (x.run additions).Current root subject tree first
  | [], _, h => h
  | addition :: additions, _, h => current_run additions (current_step h addition)

theorem current_start {sampling : SamplingSettings} {opened : FileTree}
    (hopen : openAt sampling root subject tree = (.ok first, opened))
    (hnames : DistinctVersions (subject :: root) tree) :
    Current root subject tree first { archive := first, tree := opened } := by
  obtain ⟨hgrown, htraces, hhighest⟩ := abreast_start hopen
  have ho := openAt_opening sampling root subject tree
  rw [hopen] at ho
  obtain ⟨-, rfl⟩ := (ho.ok_iff first).1 rfl
  exact ⟨hgrown, htraces, by simp, ascending_loaded hnames, fun s hs => le_latestVersion hs,
    hhighest⟩

/-! ## Opening it again -/

/-- `first` is the archive as it was opened before the additions, some of which may be refused or
find the storage out of order. -/
theorem reopened_run {sampling : SamplingSettings} {opened : FileTree}
    (hopen : openAt sampling root subject tree = (.ok first, opened))
    (hnames : DistinctVersions (subject :: root) tree) (additions : List (Addition × Bool)) :
    let final := Keeper.run { archive := first, tree := opened } additions
    final.archive.traces = first.traces ++ final.added ∧
    final.archive.strategies = first.strategies ++ final.saved ∧
    ((∀ t ∈ final.added, t.Storable) → (∀ s ∈ final.saved, s.Storable) →
      ∀ sampling, ∃ again, (openAt sampling root subject final.tree).1 = .ok again ∧
        again.traces = final.archive.traces.mergeSort Trace.chronological ∧
        again.traces.Pairwise (·.moment ≤ ·.moment) ∧
        again.strategies = final.archive.strategies ∧
        again.latestVersion = final.archive.latestVersion ∧
        again.latestStrategy? = final.archive.latestStrategy?) := by
  intro final
  have hfinal : final.Current root subject tree first :=
    current_run additions (current_start hopen hnames)
  have hopenable : Openable root subject tree :=
    (((openAt_opening sampling root subject tree).ok_iff first).1 (by rw [hopen])).1
  have hfirst : first = loaded sampling root subject tree :=
    (((openAt_opening sampling root subject tree).ok_iff first).1 (by rw [hopen])).2
  refine ⟨hfinal.traces, hfinal.strategies, fun hadded hsaved sampling' => ?_⟩
  have hagain := (openAt_opening sampling' root subject final.tree).ok_iff
  have htraces : (loaded sampling' root subject final.tree).traces.Perm final.archive.traces := by
    rw [hfinal.traces, hfirst]
    exact hfinal.grown.loaded_traces sampling' hadded
  have hstrategies : (loaded sampling' root subject final.tree).strategies =
      final.archive.strategies := by
    refine eq_of_ascending ?_ (pairwise_mergeSort_version _) hfinal.ascending
    rw [hfinal.strategies, hfirst]
    exact hfinal.grown.loaded_strategies sampling' hsaved
  refine ⟨_, (hagain _).2 ⟨hfinal.grown.openable_iff.2 hopenable, rfl⟩, ?_, ?_, hstrategies, ?_, ?_⟩
  · exact mergeSort_chronological_congr ((List.mergeSort_perm _ _).symm.trans htraces)
      (nodup_runIds_stored final.tree _)
  · exact pairwise_mergeSort_chronological _
  · exact UInt32.toNat_inj.1 (latestVersion_loaded hfinal.highest)
  · rw [latestStrategy?, hstrategies]
    rfl

open Session (tornTree tornArchive openAt_tornTree)
open Shared (nightTrace morrowTrace storable_nightTrace storable_fresh storable_empty)

theorem distinctVersions_tornTree : DistinctVersions ["s"] tornTree := by
  have hnames : ∀ e ∈ tornTree.children (strategyDirectory ["s"]),
      ∀ e' ∈ tornTree.children (strategyDirectory ["s"]),
        (versionOfFile? e.1).isSome → versionOfFile? e.1 = versionOfFile? e'.1 → e.1 = e'.1 := by
    decide
  intro e he e' he' v hv hv'
  exact hnames e he e' he' (Option.isSome_of_eq_some hv) (hv.trans hv'.symm)

theorem moment_morrowTrace : nightTrace.moment < morrowTrace.moment := by
  rw [← not_le, ← Trace.chronological_iff]
  decide +kernel

/-- The first strategy finds the storage out of order, and the second trace is there already. Of the
two others the later one is added first and has the run id that comes first, and it stands last in
the end. -/
theorem reopened_run_tornTree :
    let final := Keeper.run { archive := tornArchive, tree := tornTree }
      [(.trace morrowTrace, true), (.strategy (.empty 8), false), (.trace morrowTrace, true),
        (.strategy (.empty 8), true), (.trace nightTrace, true)]
    ∃ again, (openAt {} [] "s" final.tree).1 = .ok again ∧
      final.archive.traces = [morrowTrace, nightTrace] ∧
      again.traces = [nightTrace, morrowTrace] ∧ again.strategies = [.empty 8] ∧
      again.latestVersion = final.archive.latestVersion := by
  intro final
  have hadded : final.added = [morrowTrace, nightTrace] := rfl
  have hsaved : final.saved = [.empty 8] := rfl
  obtain ⟨htraces, hstrategies, hagain⟩ :=
    reopened_run openAt_tornTree distinctVersions_tornTree
      [(.trace morrowTrace, true), (.strategy (.empty 8), false), (.trace morrowTrace, true),
        (.strategy (.empty 8), true), (.trace nightTrace, true)]
  obtain ⟨again, hopen, hsorted, -, hsame, hversion, -⟩ :=
    hagain (by rw [hadded]; simpa using ⟨storable_fresh _ _ _, storable_nightTrace⟩)
      (by rw [hsaved]; simpa using storable_empty 8) {}
  rw [hadded] at htraces
  rw [hsaved] at hstrategies
  refine ⟨again, hopen, htraces, ?_, hsame.trans hstrategies, hversion⟩
  have hordered : [nightTrace, morrowTrace].Pairwise fun t u => t.chronological u = true :=
    List.pairwise_pair.2 ((Trace.chronological_iff _ _).2 moment_morrowTrace.le)
  rw [hsorted, htraces]
  exact (mergeSort_chronological_congr (.swap _ _ _) (by decide)).trans
    (List.mergeSort_of_pairwise hordered)

end Keeper

end Exploration
