import Mathlib
import Exploration.Proofs.Refusals

/-!
# Records with a file

Each record that an archive remembers has a file, and this stays so as long as no file is lost
(`Filed`). Archives that share a tree add only strategies with the usual name for their version. So
a version that an archive does not know of has this name (`Founded`), and a strategy that it accepts
gets a version that no other name stands for (`distinctVersions_addTo`).
-/

namespace Exploration

open FileTree (OneMore)

/-! ## Records and their files -/

section OnFile

open Archive

variable {directory : Path} {tree tree' : FileTree}

/-- The file of the trace has its text, or one that reads as the trace. -/
def Trace.OnFile (directory : Path) (tree : FileTree) (t : Trace) : Prop :=
  ∃ text, tree.find? (tracePath directory t) = some (.file (some text)) ∧
    (text = t.encode ∨ Trace.decode text = some t)

/-- A file whose name stands for its version has the text of the strategy, or one that reads as
it. -/
def Strategy.OnFile (directory : Path) (tree : FileTree) (s : Strategy) : Prop :=
  ∃ name text, versionOfFile? name = some s.version ∧
    tree.find? (name :: strategyDirectory directory) = some (.file (some text)) ∧
    (text = s.encode ∨ Strategy.decode text = some s)

theorem Trace.OnFile.mono {t : Trace} (h : t.OnFile directory tree)
    (hkeeps : tree.KeepsFiles tree') : t.OnFile directory tree' := by
  obtain ⟨text, hfile, htext⟩ := h
  exact ⟨text, hkeeps _ _ hfile, htext⟩

theorem Strategy.OnFile.mono {s : Strategy} (h : s.OnFile directory tree)
    (hkeeps : tree.KeepsFiles tree') : s.OnFile directory tree' := by
  obtain ⟨name, text, hname, hfile, htext⟩ := h
  exact ⟨name, text, hname, hkeeps _ _ hfile, htext⟩

theorem Trace.onFile_of_holds {name : String} {t : Trace} (h : HoldsTrace tree directory name t) :
    t.OnFile directory tree := by
  obtain ⟨runId, text, hname, hfile, hdecode, hid⟩ := h
  refine ⟨text, ?_, Or.inr hdecode⟩
  have htrace : traceFile t.runId = name := by
    rw [hid]
    exact (eq_traceFile (runIdOfFile?_eq_some.2 hname)).symm
  rw [tracePath, htrace]
  exact hfile

theorem Strategy.onFile_of_holds {name : String} {s : Strategy}
    (h : HoldsStrategy tree directory name s) : s.OnFile directory tree := by
  obtain ⟨stem, text, hname, hfile, hdecode, hread⟩ := h
  exact ⟨name, text, versionOfFile?_eq_some.2 ⟨stem, hname, hread⟩, hfile, Or.inr hdecode⟩

end OnFile

namespace FileTree

variable {path : Path} {text : String} {t t' : FileTree}

theorem OneMore.keeps (h : OneMore path text t t') : t.Keeps t' := by
  intro q e hq
  rwa [h.others q]
  rintro rfl
  rw [h.new] at hq
  cases hq

theorem OneMore.mem_children (h : OneMore path text t t') {directory : Path} {e : String × Entry}
    (he : e ∈ t'.children directory) : e ∈ t.children directory ∨ e.1 :: directory = path := by
  by_cases hpath : e.1 :: directory = path
  · exact Or.inr hpath
  · left
    rw [FileTree.mem_children, ← h.others _ hpath]
    exact t'.mem_children.1 he

end FileTree

/-! ## The versions an archive knows of -/

namespace Archive

variable {directory : Path} {tree tree' : FileTree} {a : Archive}

/-- What is kept under a name among the strategies is a strategy with that name. -/
theorem eq_strategy_of_path {addition : Addition} {name : String}
    (h : name :: strategyDirectory directory = addition.path directory) :
    ∃ s, addition = .strategy s ∧ name = strategyFile s.version := by
  cases addition with
  | trace t => simp [Addition.path, tracePath, traceDirectory, strategyDirectory] at h
  | strategy s => exact ⟨s, rfl, (List.cons.inj h).1⟩

/-- All is there that was there, and a strategy that has come has the usual name for its version. -/
structure Continues (directory : Path) (tree tree' : FileTree) : Prop where
  keeps : tree.Keeps tree'
  names : ∀ e ∈ tree'.children (strategyDirectory directory),
    e ∈ tree.children (strategyDirectory directory) ∨ ∃ v, e.1 = strategyFile v

theorem continues_oneMore {addition : Addition}
    (h : OneMore (addition.path directory) addition.text tree tree') :
    Continues directory tree tree' := by
  refine ⟨h.keeps, fun e he => (h.mem_children he).imp_right fun hpath => ?_⟩
  obtain ⟨s, -, hname⟩ := eq_strategy_of_path hpath
  exact ⟨s.version, hname⟩

/-- Each trace has a file, and no run id is there twice. -/
structure Filed (directory : Path) (tree : FileTree) (a : Archive) : Prop where
  owned : a.directory = directory
  runIds : (a.traces.map (·.runId)).Nodup
  traces : ∀ t ∈ a.traces, t.OnFile directory tree

theorem Filed.mono (h : a.Filed directory tree) (hkeeps : tree.KeepsFiles tree') :
    a.Filed directory tree' :=
  ⟨h.owned, h.runIds, fun t ht => (h.traces t ht).mono hkeeps⟩

theorem filed_loaded {sampling : SamplingSettings} {root : Path} {subject : String} :
    (loaded sampling root subject tree).Filed (subject :: root) tree where
  owned := rfl
  runIds := ((List.mergeSort_perm _ _).map _).nodup_iff.2 (nodup_runIds_stored tree _)
  traces t ht := by
    obtain ⟨name, hname⟩ := eachOnce_traces.mem_iff.1 ht
    exact Trace.onFile_of_holds hname

/-- The files of the traces that the archive remembers have all other names. -/
theorem filed_withTrace (h : a.Filed directory tree) {t : Trace}
    (hfile : OneMore (tracePath directory t) t.encode tree tree') :
    (a.withTrace t).Filed directory tree' := by
  refine ⟨h.owned, ?_, fun u hu => ?_⟩
  · rw [withTrace, List.map_append, List.nodup_append]
    refine ⟨h.runIds, List.nodup_singleton _, ?_⟩
    rintro _ hold _ ht rfl
    obtain ⟨u, hu, hid⟩ := List.mem_map.1 hold
    obtain ⟨text, hold, -⟩ := h.traces u hu
    rw [tracePath, hid, List.mem_singleton.1 ht, ← tracePath, hfile.new] at hold
    cases hold
  · rcases List.mem_append.1 hu with hu | hu
    · exact (h.traces u hu).mono hfile.keeps.files
    · rw [List.mem_singleton.1 hu]
      exact ⟨_, hfile.file, Or.inl rfl⟩

theorem filed_addTo (h : a.Filed directory tree) {addition : Addition}
    (hfile : OneMore (addition.path directory) addition.text tree tree') :
    (addition.addTo a).Filed directory tree' := by
  cases addition with
  | trace t => exact filed_withTrace h hfile
  | strategy s => exact ⟨h.owned, h.runIds, (h.mono hfile.keeps.files).traces⟩

/-- Each record has a file. A strategy with a version that the archive does not know of has been
saved since, by another archive and so under the usual name. -/
structure Founded (directory : Path) (tree : FileTree) (a : Archive) : Prop where
  owned : a.directory = directory
  runIds : (a.traces.map (·.runId)).Nodup
  traces : ∀ t ∈ a.traces, t.OnFile directory tree
  ascending : a.strategies.Pairwise (·.version < ·.version)
  strategies : ∀ s ∈ a.strategies, s.OnFile directory tree
  aware : ∀ e ∈ tree.children (strategyDirectory directory), ∀ v, versionOfFile? e.1 = some v →
    e.1 = strategyFile v ∨ v ≤ a.latestVersion

theorem Founded.filed (h : a.Founded directory tree) : a.Filed directory tree :=
  ⟨h.owned, h.runIds, h.traces⟩

theorem Founded.mono (h : a.Founded directory tree) (hc : Continues directory tree tree') :
    a.Founded directory tree' where
  owned := h.owned
  runIds := h.runIds
  traces := (h.filed.mono hc.keeps.files).traces
  ascending := h.ascending
  strategies s hs := (h.strategies s hs).mono hc.keeps.files
  aware e he v hv := by
    rcases hc.names e he with hold | ⟨u, hu⟩
    · exact h.aware e hold v hv
    · rw [hu, versionOfFile?_strategyFile, Option.some.injEq] at hv
      exact Or.inl (hv ▸ hu)

theorem founded_loaded {sampling : SamplingSettings} {root : Path} {subject : String}
    (h : DistinctVersions (subject :: root) tree) :
    (loaded sampling root subject tree).Founded (subject :: root) tree where
  owned := rfl
  runIds := filed_loaded.runIds
  traces := filed_loaded.traces
  ascending := ascending_loaded h
  strategies s hs := by
    obtain ⟨name, hname⟩ := eachOnce_strategies.mem_iff.1 hs
    exact Strategy.onFile_of_holds hname
  aware _ he _ hv := Or.inr (le_latestVersion_loaded he hv)

/-! ## What accepting a record makes of an archive -/

section Accepted

variable (h : a.Founded directory tree)
include h

theorem founded_withTrace {t : Trace}
    (hfile : OneMore (tracePath directory t) t.encode tree tree') :
    (a.withTrace t).Founded directory tree' := by
  have hkept := h.mono (@continues_oneMore directory tree tree' (.trace t) hfile)
  obtain ⟨howned, hids, htraces⟩ := filed_withTrace h.filed hfile
  exact ⟨howned, hids, htraces, h.ascending, hkept.strategies, hkept.aware⟩

theorem founded_withStrategy {s : Strategy} (hnew : ¬ s.version ≤ a.latestVersion)
    (hfile : OneMore (strategyPath directory s) s.encode tree tree') :
    (a.withStrategy s).Founded directory tree' := by
  have hkept := h.mono (@continues_oneMore directory tree tree' (.strategy s) hfile)
  have hlt : a.latestVersion < s.version := UInt32.not_le.1 hnew
  refine ⟨h.owned, h.runIds, hkept.traces, ?_, fun u hu => ?_, fun e he v hv => ?_⟩
  · refine List.pairwise_append.2 ⟨h.ascending, List.pairwise_singleton _ _, fun u hu l hl => ?_⟩
    rw [List.mem_singleton.1 hl]
    exact UInt32.lt_of_le_of_lt (le_latestVersion hu) hlt
  · rcases List.mem_append.1 hu with hu | hu
    · exact hkept.strategies u hu
    · rw [List.mem_singleton.1 hu]
      exact ⟨_, _, versionOfFile?_strategyFile _, hfile.file, Or.inl rfl⟩
  · refine (hkept.aware e he v hv).imp_right fun hle => ?_
    rw [latestVersion_withStrategy hnew]
    exact UInt32.le_trans hle (UInt32.le_of_lt hlt)

theorem founded_addTo {addition : Addition} (hown : addition.unasked? a = none)
    (hfile : OneMore (addition.path directory) addition.text tree tree') :
    (addition.addTo a).Founded directory tree' := by
  cases addition with
  | trace t => exact founded_withTrace h hfile
  | strategy s => exact founded_withStrategy h (Addition.not_le_of_unasked hown) hfile

/-- No file that is there stands for the version of a strategy that is accepted. -/
theorem distinctVersions_addTo {addition : Addition} (hown : addition.unasked? a = none)
    (hfile : OneMore (addition.path directory) addition.text tree tree')
    (hnames : DistinctVersions directory tree) : DistinctVersions directory tree' := by
  have hnew : ∀ e ∈ tree.children (strategyDirectory directory), ∀ v,
      versionOfFile? e.1 = some v →
      ∀ e' : String × Entry, e'.1 :: strategyDirectory directory = addition.path directory →
        versionOfFile? e'.1 = some v → e.1 = e'.1 := by
    intro e he v hv e' hpath hv'
    obtain ⟨s, rfl, hname⟩ := eq_strategy_of_path hpath
    rw [hname, versionOfFile?_strategyFile, Option.some.injEq] at hv'
    subst hv'
    rcases h.aware e he _ hv with husual | hle
    · exact husual.trans hname.symm
    · exact absurd hle (Addition.not_le_of_unasked hown)
  intro e he e' he' v hv hv'
  rcases hfile.mem_children he with hold | hpath <;>
    rcases hfile.mem_children he' with hold' | hpath'
  · exact hnames e hold e' hold' v hv hv'
  · exact hnew e hold v hv e' hpath' hv'
  · exact (hnew e' hold' v hv' e hpath hv).symm
  · exact (List.cons.inj (hpath.trans hpath'.symm)).1

end Accepted

end Archive

end Exploration
