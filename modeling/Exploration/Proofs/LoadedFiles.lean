import Mathlib
import Exploration.Proofs.Reopening

/-!
# The files that are loaded

Opening an archive makes directories and touches no file. What is loaded is read off the files by
their names: each file that holds the record that its name promises gives this one record, and no
other file gives any (`EachOnce`). So it makes no difference in which order a directory is listed.
-/

namespace Exploration

namespace Archive

variable {sampling : SamplingSettings} {root directory : Path} {subject name : String}
  {t t' : FileTree}

/-! ## Files -/

theorem file_of_openAt {path : Path} {text : Option String}
    (h : (openAt sampling root subject t).2.find? path = some (.file text)) :
    t.find? path = some (.file text) := by
  unfold openAt at h
  split at h
  · exact h
  · dsimp only at h
    split at h
    · rename_i h₁
      exact FileTree.file_of_ensureDirectory h₁ h
    · rename_i h₁
      split at h
      all_goals
        rename_i h₂
        exact FileTree.file_of_ensureDirectory h₁ (FileTree.file_of_ensureDirectory h₂ h)

/-! ## Records and files -/

/-- Each record comes from a file of its own, and each file that holds a record gives one. -/
def EachOnce {α : Type} (holds : String → α → Prop) (records : List α) : Prop :=
  ∃ files : List (String × α), (files.map (·.1)).Nodup ∧
    (∀ name x, (name, x) ∈ files ↔ holds name x) ∧ records.Perm (files.map (·.2))

theorem EachOnce.mem_iff {α : Type} {holds : String → α → Prop} {records : List α} {x : α}
    (h : EachOnce holds records) : x ∈ records ↔ ∃ name, holds name x := by
  obtain ⟨files, -, hfiles, hperm⟩ := h
  rw [hperm.mem_iff, List.mem_map]
  constructor
  · rintro ⟨⟨name, _⟩, hmem, rfl⟩
    exact ⟨name, (hfiles _ _).1 hmem⟩
  · rintro ⟨name, hx⟩
    exact ⟨_, (hfiles _ _).2 hx, rfl⟩

/-- The file of this name among the traces is a text of the trace that its name promises. -/
def HoldsTrace (t : FileTree) (directory : Path) (name : String) (trace : Trace) : Prop :=
  ∃ runId text, name = "trace_" ++ runId ++ ".json" ∧
    t.find? (name :: traceDirectory directory) = some (.file (some text)) ∧
    Trace.decode text = some trace ∧ trace.runId = runId

/-- The file of this name among the strategies is a text of one with the version in its name. -/
def HoldsStrategy (t : FileTree) (directory : Path) (name : String) (s : Strategy) : Prop :=
  ∃ stem text, name = "strategy_v" ++ stem ++ ".json" ∧
    t.find? (name :: strategyDirectory directory) = some (.file (some text)) ∧
    Strategy.decode text = some s ∧ readVersion stem.toList = some s.version

theorem mem_listing {text : String} :
    (name, some text) ∈ listing t directory ↔
      t.find? (name :: directory) = some (.file (some text)) := by
  rw [← FileTree.mem_children]
  simp only [listing, List.mem_map]
  constructor
  · rintro ⟨⟨n, _ | text'⟩, he, h⟩
    · simp at h
    · simp only [Prod.mk.injEq] at h
      obtain ⟨rfl, rfl⟩ := h
      exact he
  · intro h
    exact ⟨_, h, rfl⟩

theorem between?_eq_some {start ending cs stem : List Char} :
    between? start ending cs = some stem ↔ cs = start ++ stem ++ ending :=
  ⟨eq_of_between?, fun h => h ▸ between?_append start ending stem⟩

theorem between?_name {start ending : String} {stem : List Char} :
    between? start.toList ending.toList name.toList = some stem ↔
      name = start ++ String.ofList stem ++ ending := by
  rw [between?_eq_some, ← String.toList_inj]
  simp

theorem runIdOfFile?_eq_some {runId : String} :
    runIdOfFile? name = some runId ↔ name = "trace_" ++ runId ++ ".json" := by
  rw [runIdOfFile?, Option.map_eq_some_iff]
  constructor
  · rintro ⟨stem, h, rfl⟩
    exact between?_name.1 h
  · intro h
    refine ⟨runId.toList, between?_name.2 ?_, String.ofList_toList⟩
    rwa [String.ofList_toList]

theorem versionOfFile?_eq_some {v : UInt32} : versionOfFile? name = some v ↔
    ∃ stem : String, name = "strategy_v" ++ stem ++ ".json" ∧ readVersion stem.toList = some v := by
  rw [versionOfFile?, Option.bind_eq_some_iff]
  constructor
  · rintro ⟨stem, h, hread⟩
    exact ⟨String.ofList stem, between?_name.1 h, by rwa [String.toList_ofList]⟩
  · rintro ⟨stem, h, hread⟩
    refine ⟨stem.toList, between?_name.2 ?_, hread⟩
    rwa [String.ofList_toList]

theorem eachOnce_stored {α : Type} {holds : String → α → Prop} {records : List α}
    {stored? : String × Option String → Option α}
    (hholds : ∀ name x, holds name x ↔ ∃ text, t.find? (name :: directory) =
      some (.file (some text)) ∧ stored? (name, some text) = some x)
    (hnone : ∀ name, stored? (name, none) = none)
    (h : records.Perm ((listing t directory).filterMap stored?)) : EachOnce holds records := by
  refine ⟨(listing t directory).filterMap fun f => (stored? f).map (f.1, ·), ?_, fun name x => ?_,
    ?_⟩
  · have hnames := nodup_listing t directory
    rw [List.Nodup, List.pairwise_map] at hnames ⊢
    refine hnames.filterMap _ fun f g hne e he e' he' => ?_
    obtain ⟨x, -, rfl⟩ := Option.map_eq_some_iff.1 he
    obtain ⟨x', -, rfl⟩ := Option.map_eq_some_iff.1 he'
    exact hne
  · simp only [List.mem_filterMap, Option.map_eq_some_iff, Prod.mk.injEq, hholds]
    constructor
    · rintro ⟨⟨n, _ | text⟩, hfile, x, hx, rfl, rfl⟩
      · simp [hnone] at hx
      · exact ⟨text, mem_listing.1 hfile, hx⟩
    · rintro ⟨text, hfile, hx⟩
      exact ⟨_, mem_listing.2 hfile, x, hx, rfl, rfl⟩
  · rw [List.map_filterMap]
    simpa using h

/-! ## What is loaded -/

theorem eachOnce_traces : EachOnce (HoldsTrace t (subject :: root))
    (loaded sampling root subject t).traces := by
  refine eachOnce_stored (fun name trace => ?_) (fun name => ?_) (List.mergeSort_perm _ _)
  · simp only [storedTrace?_eq_some, runIdOfFile?_eq_some, HoldsTrace]
    constructor
    · rintro ⟨_, text, hname, hfile, hdecode, rfl⟩
      exact ⟨text, hfile, text, rfl, hname, hdecode⟩
    · rintro ⟨text, hfile, _, ⟨⟩, hname, hdecode⟩
      exact ⟨_, text, hname, hfile, hdecode, rfl⟩
  · refine Option.eq_none_iff_forall_ne_some.2 fun trace h => ?_
    obtain ⟨text, htext, -⟩ := storedTrace?_eq_some.1 h
    cases htext

theorem eachOnce_strategies : EachOnce (HoldsStrategy t (subject :: root))
    (loaded sampling root subject t).strategies := by
  refine eachOnce_stored (fun name s => ?_) (fun name => ?_) (List.mergeSort_perm _ _)
  · simp only [storedStrategy?_eq_some, versionOfFile?_eq_some, HoldsStrategy]
    constructor
    · rintro ⟨stem, text, hname, hfile, hdecode, hread⟩
      exact ⟨text, hfile, text, rfl, ⟨stem, hname, hread⟩, hdecode⟩
    · rintro ⟨text, hfile, _, ⟨⟩, ⟨stem, hname, hread⟩, hdecode⟩
      exact ⟨stem, text, hname, hfile, hdecode, hread⟩
  · refine Option.eq_none_iff_forall_ne_some.2 fun s h => ?_
    obtain ⟨text, htext, -⟩ := storedStrategy?_eq_some.1 h
    cases htext

/-- No two files of traces promise the same run id, so no two traces have the same moment. -/
theorem ascending_traces :
    (loaded sampling root subject t).traces.Pairwise (·.moment < ·.moment) := by
  have hids : ((loaded sampling root subject t).traces.map (·.runId)).Nodup :=
    ((List.mergeSort_perm _ _).map _).nodup_iff.2 (nodup_runIds_stored t (subject :: root))
  rw [List.Nodup, List.pairwise_map] at hids
  exact ((pairwise_mergeSort_chronological _).and hids).imp fun ⟨hle, hne⟩ =>
    Trace.moment_lt_of_le hle hne

section Same

open FileTree (Same)

theorem listing_same (h : t.Same t') (directory : Path) :
    (listing t' directory).Perm (listing t directory) :=
  (h.children directory).map _

theorem highestVersion_same (h : t.Same t') {highest : Nat} :
    HighestVersion directory t' highest ↔ HighestVersion directory t highest := by
  simp only [HighestVersion, (h.children _).mem_iff]

theorem loaded_traces_same (h : t.Same t') :
    (loaded sampling root subject t').traces = (loaded sampling root subject t).traces :=
  mergeSort_chronological_congr ((listing_same h _).filterMap _) (nodup_runIds_stored t' _)

theorem loaded_reserved_same (h : t.Same t') :
    (loaded sampling root subject t').reserved = (loaded sampling root subject t).reserved := by
  have hthere := highestVersion_reservedVersion t' (subject :: root)
  rw [highestVersion_same h] at hthere
  exact UInt32.toNat_inj.1 (hthere.unique (highestVersion_reservedVersion t (subject :: root)))

theorem loaded_same (h : t.Same t') (hdistinct : DistinctVersions (subject :: root) t) :
    loaded sampling root subject t' = loaded sampling root subject t := by
  have hstrategies : (loaded sampling root subject t').strategies =
      (loaded sampling root subject t).strategies := by
    refine eq_of_ascending ?_ (pairwise_mergeSort_version _) (ascending_loaded hdistinct)
    exact (List.mergeSort_perm _ _).trans
      (((listing_same h _).filterMap _).trans (List.mergeSort_perm _ _).symm)
  simp only [loaded, load, Archive.mk.injEq, true_and, and_true]
  exact ⟨@loaded_traces_same sampling root subject t t' h, hstrategies,
    @loaded_reserved_same sampling root subject t t' h⟩

end Same

/-- All that an archive has that was opened on a tree, and all that it depends on. Where two names
stand for one version, only the order of the strategies with that version is open. -/
structure LoadedFrom (sampling : SamplingSettings) (root : Path) (subject : String) (t : FileTree)
    (a : Archive) : Prop where
  traces : EachOnce (HoldsTrace t (subject :: root)) a.traces
  byMoment : a.traces.Pairwise (·.moment < ·.moment)
  strategies : EachOnce (HoldsStrategy t (subject :: root)) a.strategies
  byVersion : a.strategies.Pairwise (·.version ≤ ·.version)
  ascending : DistinctVersions (subject :: root) t → a.strategies.Pairwise (·.version < ·.version)
  latestVersion : HighestVersion (subject :: root) t a.latestVersion.toNat
  /-- However the entries are listed. -/
  same : ∀ t', t.Same t' → ∃ b, (openAt sampling root subject t').1 = .ok b ∧
    b.traces = a.traces ∧ b.latestVersion = a.latestVersion ∧
    (DistinctVersions (subject :: root) t → b = a)

theorem loadedFrom_loaded (hopenable : Openable root subject t) :
    LoadedFrom sampling root subject t (loaded sampling root subject t) := by
  have hhighest : HighestVersion (subject :: root) t
      (loaded sampling root subject t).latestVersion.toNat := by
    have hreserved := highestVersion_reservedVersion t (subject :: root)
    rwa [latestVersion_loaded hreserved]
  refine ⟨eachOnce_traces, ascending_traces, eachOnce_strategies, pairwise_mergeSort_version _,
    ascending_loaded, hhighest, fun t' h => ?_⟩
  have hopen := ((openAt_opening sampling root subject t').ok_iff _).2
    ⟨(openable_congr fun _ => h.makeable _).2 hopenable, rfl⟩
  refine ⟨_, hopen, loaded_traces_same h, ?_, loaded_same h⟩
  exact UInt32.toNat_inj.1 (latestVersion_loaded ((highestVersion_same h).2 hhighest))

/-- What an opening loads is read off the files alone, and no file is touched by it. -/
theorem openAt_loads (sampling : SamplingSettings) (root : Path) (subject : String)
    (t : FileTree) :
    let x := openAt sampling root subject t
    t.Keeps x.2 ∧
    (∀ path text, x.2.find? path = some (.file text) → t.find? path = some (.file text)) ∧
    ((∃ a, x.1 = .ok a) ↔ Openable root subject t) ∧
    ∀ a, x.1 = .ok a → LoadedFrom sampling root subject t a := by
  intro x
  have ho := openAt_opening sampling root subject t
  refine ⟨ho.keeps, fun path text => file_of_openAt, ?_, fun a ha => ?_⟩
  · simp [x, ho.ok_iff]
  · obtain ⟨hopenable, rfl⟩ := (ho.ok_iff a).1 ha
    exact loadedFrom_loaded hopenable

open Shared (nightTrace morrowTrace storable_nightTrace storable_fresh storable_empty)

/-- A tree with one file for each way in which a file can be no record, and with two traces. -/
def strewnTree : FileTree where
  entries := [(["trace_dawn.json", "traces", "s"], .file (some nightTrace.encode)),
    (["trace_morrow.json", "traces", "s"], .file (some morrowTrace.encode)),
    (["trace_night.json", "traces", "s"], .file (some nightTrace.encode)),
    (["trace_noon.json", "traces", "s"], .file (some "\x7b")),
    (["strategy_v9.json", "strategies", "s"], .file none),
    (["strategy_v3.json", "strategies", "s"], .file (some (Strategy.empty 2).encode)),
    (["strategy_v02.json", "strategies", "s"], .file (some (Strategy.empty 2).encode)),
    (["strategies", "s"], .directory), (["traces", "s"], .directory), (["s"], .directory),
    ([], .directory)]
  distinct := by decide

/-- Of the two copies of the night's trace and of the strategy, those under another name are passed
over. The two traces are in the order of their times, which is not that of their run ids. The
unreadable file reserves the version in its name. -/
theorem openAt_loads_strewnTree : ∃ a, (openAt {} [] "s" strewnTree).1 = .ok a ∧
    a.traces = [nightTrace, morrowTrace] ∧ .empty 2 ∈ a.strategies ∧
    9 ≤ a.latestVersion.toNat := by
  obtain ⟨-, -, -, hall⟩ := openAt_loads {} [] "s" strewnTree
  have hloads := hall (loaded {} [] "s" strewnTree) rfl
  have hnight := Trace.decode_encode storable_nightTrace
  have hmorrow := Trace.decode_encode (storable_fresh "morrow" ⟨86400, 0, by decide⟩ 0)
  have hsecond := Strategy.decode_encode (storable_empty 2)
  have hchildren : strewnTree.children (traceDirectory ["s"]) =
      [("trace_dawn.json", .file (some nightTrace.encode)),
        ("trace_morrow.json", .file (some morrowTrace.encode)),
        ("trace_night.json", .file (some nightTrace.encode)),
        ("trace_noon.json", .file (some "\x7b"))] := rfl
  have htrace : ∀ t, t ∈ (loaded {} [] "s" strewnTree).traces ↔
      t ∈ [nightTrace, morrowTrace] := by
    intro t
    rw [hloads.traces.mem_iff, List.mem_cons, List.mem_singleton]
    constructor
    · rintro ⟨name, runId, text, -, hfile, hdecode, -⟩
      rw [← FileTree.mem_children, hchildren] at hfile
      simp only [List.mem_cons, Prod.mk.injEq, Entry.file.injEq, Option.some.injEq,
        List.not_mem_nil, or_false] at hfile
      rcases hfile with ⟨-, rfl⟩ | ⟨-, rfl⟩ | ⟨-, rfl⟩ | ⟨-, rfl⟩
      · exact Or.inl (Option.some.inj (hdecode.symm.trans hnight))
      · exact Or.inr (Option.some.inj (hdecode.symm.trans hmorrow))
      · exact Or.inl (Option.some.inj (hdecode.symm.trans hnight))
      · cases hdecode
    · rintro (rfl | rfl)
      · exact ⟨"trace_night.json", "night", _, rfl, rfl, hnight, rfl⟩
      · exact ⟨"trace_morrow.json", "morrow", _, rfl, rfl, hmorrow, rfl⟩
  have hpair : [nightTrace, morrowTrace].Pairwise (·.moment < ·.moment) :=
    List.pairwise_pair.2 Keeper.moment_morrowTrace
  refine ⟨loaded {} [] "s" strewnTree, rfl, ?_,
    hloads.strategies.mem_iff.2 ⟨"strategy_v02.json", "02", _, rfl, rfl, hsecond, by decide⟩,
    hloads.latestVersion.2 (Or.inr ⟨("strategy_v9.json", .file none), by decide, 9, by decide,
      rfl⟩)⟩
  have hasymm : Std.Asymm fun t u : Trace => t.moment < u.moment := ⟨fun _ _ => lt_asymm⟩
  exact hloads.byMoment.eq_of_mem_iff hpair htrace

end Archive

end Exploration
