import Mathlib
import Exploration.Proofs.Additions
import Exploration.Proofs.LatestVersion

/-!
# The versions of one archive

An archive that alone adds to its directories saves each strategy that it evolves, under the
versions that follow the highest one with a file, whatever is in the files. What carries this is
that no file name stands for a version above the latest one the archive knows of (`Abreast`).
-/

namespace Exploration

/-! ## What depends on the version -/

theorem EvolutionSettings.evolve_version (settings : EvolutionSettings) (traces : List Trace)
    (v : UInt32) : (settings.evolve traces v).version = v := by
  unfold EvolutionSettings.evolve
  split_ifs <;> rfl

/-- All but the version is taught by the traces. -/
theorem EvolutionSettings.evolve_eq (settings : EvolutionSettings) (traces : List Trace)
    (u v : UInt32) :
    settings.evolve traces v = { settings.evolve traces u with version := v } := by
  unfold EvolutionSettings.evolve
  split_ifs <;> rfl

theorem Double.beq_self {x : Float} (h : x.isNaN = false) : (x == x) = true := by
  show x.toModel.unpack.beq x.toModel.unpack = true
  have hnan : x.toModel.unpack.isNaN = false := h
  cases hx : x.toModel.unpack with
  | infinity sign => cases sign <;> rfl
  | notANumber =>
    rw [hx] at hnan
    cases hnan
  | zero sign => rfl
  | finite sign mantissa exponent pos =>
    cases sign <;>
      simp [Float.Model.UnpackedFloat.beq, Float.Model.UnpackedFloat.compare]

theorem list_beq_self {α : Type} [BEq α] {xs : List α} (h : ∀ x ∈ xs, (x == x) = true) :
    (xs == xs) = true := by
  induction xs with
  | nil => rfl
  | cons x xs ih =>
    rw [List.cons_beq_cons, h x List.mem_cons_self, ih fun y hy => h y (List.mem_cons_of_mem _ hy)]
    rfl

/-- A strategy without NaN agrees with itself under any version. -/
theorem Strategy.sameContent_withVersion {s : Strategy} (h : ∀ x ∈ s.doubles, x.isNaN = false)
    (v : UInt32) : s.sameContent { s with version := v } = true := by
  simp only [doubles, List.forall_mem_cons, List.forall_mem_append, List.forall_mem_flatMap,
    List.forall_mem_map] at h
  obtain ⟨hcost, ⟨hsearches, hpriorities⟩, htopics⟩ := h
  have hs : (s.productiveSearches == s.productiveSearches) = true := list_beq_self fun p hp => by
    obtain ⟨hrate, hrelevance, -⟩ := hsearches p hp
    show (p.query == p.query && (p.hitRate == p.hitRate && p.relevance == p.relevance)) = true
    rw [Double.beq_self hrate, Double.beq_self hrelevance]
    simp
  have hp : (s.sourcePriorities.entries == s.sourcePriorities.entries) = true :=
    list_beq_self fun e he => by
      show (e.1 == e.1 && e.2 == e.2) = true
      rw [Double.beq_self (hpriorities e he)]
      simp
  have ht : (s.sharedTopics == s.sharedTopics) = true := list_beq_self fun t h => by
    show (t.topic == t.topic && (t.sources == t.sources && t.strength == t.strength)) = true
    rw [Double.beq_self (htopics t h)]
    simp
  simp [sameContent, hs, hp, ht, Double.beq_self hcost]

/-! ## Sessions -/

/-- What an archive is asked: to keep a trace, or to evolve a strategy and save it. -/
inductive Task where
  | adding (t : Trace)
  | evolving (settings : EvolutionSettings)

def Task.evolves : Task → Bool
  | .adding _ => false
  | .evolving _ => true

/-- What came of a task. -/
inductive Reply where
  | added (answer : Except Failure Trace)
  | saved (settings : EvolutionSettings) (answer : Except Failure Strategy)

/-- The answers of the tasks that evolve. -/
def Reply.saves (log : List Reply) : List (Except Failure Strategy) :=
  log.filterMap fun
    | .added _ => none
    | .saved _ answer => some answer

/-- The traces that were kept. -/
def Reply.kept (log : List Reply) : List Trace :=
  log.filterMap fun
    | .added (.ok t) => some t
    | _ => none

/-- An archive at work on a tree, with what has come of its tasks so far. -/
structure Session where
  archive : Archive
  tree : FileTree
  log : List Reply := []

namespace Session

open Archive

def adding (x : Session) (t : Trace) : Session :=
  match x.archive.addTrace FileTree.publish t x.tree with
  | (.error e, tree) => ⟨x.archive, tree, x.log ++ [.added (.error e)]⟩
  | (.ok a, tree) => ⟨a, tree, x.log ++ [.added (.ok t)]⟩

def evolving (x : Session) (settings : EvolutionSettings) : Session :=
  let s := x.archive.evolve settings
  match x.archive.saveStrategy FileTree.publish s x.tree with
  | (.error e, tree) => ⟨x.archive, tree, x.log ++ [.saved settings (.error e)]⟩
  | (.ok a, tree) => ⟨a, tree, x.log ++ [.saved settings (.ok s)]⟩

def step (x : Session) : Task → Session
  | .adding t => x.adding t
  | .evolving settings => x.evolving settings

def run (x : Session) (tasks : List Task) : Session := tasks.foldl step x

/-- What has been saved: the k-th strategy has the version `highest + k`, and the last one is the
latest of the archive. -/
structure Saves (highest : Nat) (x : Session) (saved : List Strategy) : Prop where
  answers : Reply.saves x.log = saved.map .ok
  versions : saved.map (·.version.toNat) = List.range' (highest + 1) saved.length
  latest : ∀ s ∈ saved.getLast?, x.archive.latestStrategy? = some s

/-- The archive alone has added to its directories: no name in them stands for a version above the
latest it knows of, and the strategies it has saved have followed the version `highest` one by one,
each taught by the traces that it started with and those kept before. -/
structure Abreast (directory : Path) (first : List Trace) (highest : Nat) (x : Session) : Prop where
  owned : x.archive.directory = directory
  traces : x.archive.traces = first ++ Reply.kept x.log
  named : ∀ e ∈ x.tree.children (strategyDirectory directory), ∀ v,
    versionOfFile? e.1 = some v → v.toNat ≤ x.archive.latestVersion.toNat
  saved : ∃ saved, x.archive.latestVersion.toNat = highest + saved.length ∧ x.Saves highest saved
  taught : ∀ before settings s after, x.log = before ++ .saved settings (.ok s) :: after →
    s = settings.evolve (first ++ Reply.kept before) s.version

variable {directory : Path} {first : List Trace} {highest : Nat} {x : Session}

theorem Saves.congr {y : Session} {saved : List Strategy} (h : x.Saves highest saved)
    (hlog : Reply.saves y.log = Reply.saves x.log)
    (hlatest : y.archive.latestStrategy? = x.archive.latestStrategy?) : y.Saves highest saved :=
  ⟨hlog.trans h.answers, h.versions, hlatest ▸ h.latest⟩

/-- An entry at the end of a log either is the one looked for or stands behind it. -/
theorem split_append_singleton {log before after : List Reply} {reply r : Reply}
    (h : log ++ [reply] = before ++ r :: after) :
    (before = log ∧ r = reply) ∨ ∃ rest, log = before ++ r :: rest := by
  rcases List.eq_nil_or_concat after with rfl | ⟨rest, last, rfl⟩
  · obtain ⟨hlog, hreply⟩ := List.append_inj' h rfl
    exact Or.inl ⟨hlog.symm, (List.singleton_inj.1 hreply).symm⟩
  · rw [List.concat_eq_append, ← List.cons_append, ← List.append_assoc] at h
    exact Or.inr ⟨rest, (List.append_inj' h rfl).1⟩

theorem abreast_adding (h : x.Abreast directory first highest) (t : Trace) :
    (x.adding t).Abreast directory first highest := by
  obtain ⟨hdirectory, htraces, hnamed, ⟨saved, hlatest, hsaved⟩, htaught⟩ := h
  have hother : ∀ {answer : Except Failure Trace} {before settings s after},
      x.log ++ [.added answer] = before ++ .saved settings (.ok s) :: after →
      s = settings.evolve (first ++ Reply.kept before) s.version := by
    intro answer before settings s after hlog
    rcases split_append_singleton hlog with ⟨-, hr⟩ | ⟨rest, hlog⟩
    · cases hr
    · exact htaught _ _ _ _ hlog
  have hsaves : ∀ answer : Except Failure Trace,
      Reply.saves (x.log ++ [.added answer]) = Reply.saves x.log := fun answer => by
    simp [Reply.saves]
  have hrefused : ∀ e, Session.Abreast directory first highest
      ⟨x.archive, x.tree, x.log ++ [.added (.error e)]⟩ := fun e =>
    ⟨hdirectory, by simpa [Reply.kept] using htraces, hnamed,
      ⟨saved, hlatest, hsaved.congr (hsaves _) rfl⟩, fun _ _ _ _ => hother⟩
  unfold adding
  have hadd := addTrace_tree x.archive t x.tree
  rw [hdirectory] at hadd
  rcases hadd with ⟨hnone, hadd⟩ | ⟨e, hadd⟩ <;> rw [hadd]
  · refine ⟨hdirectory, ?_, ?_, ⟨saved, hlatest, hsaved.congr (hsaves _) rfl⟩,
      fun _ _ _ _ => hother⟩
    · simp [withTrace, htraces, Reply.kept]
    · rw [FileTree.children_insert_of_ne _ hnone]
      · exact hnamed
      · intro name he
        simp only [tracePath, traceDirectory, strategyDirectory, List.cons.injEq] at he
        exact absurd he.2.1 (by decide)
  · exact hrefused _

/-- While there is room for one more version, the next strategy is saved unless the storage
fails. -/
theorem abreast_evolving (h : x.Abreast directory first highest) (settings : EvolutionSettings)
    (hroom : highest + (Reply.saves x.log).length + 1 < UInt32.size)
    (hstorage : .saved settings (.error .storage) ∉ (x.evolving settings).log) :
    (x.evolving settings).Abreast directory first highest := by
  obtain ⟨howned, htraces, hnamed, ⟨saved, hlatest, hsaves, hversions, hlast⟩, htaught⟩ := h
  set s := x.archive.evolve settings with hs
  rw [hsaves, List.length_map, ← hlatest] at hroom
  have hversion : s.version.toNat = x.archive.latestVersion.toNat + 1 := by
    rw [hs, evolve, EvolutionSettings.evolve_version, UInt32.toNat_add]
    exact Nat.mod_eq_of_lt hroom
  have hself : s = settings.evolve x.archive.traces s.version := by
    rw [hs, evolve, EvolutionSettings.evolve_version]
  have hfree : x.tree.find? (strategyPath directory s) = none := by
    rcases hf : x.tree.find? (strategyPath directory s) with _ | e
    · rfl
    · have := hnamed _ (x.tree.mem_children.2 hf) _ (versionOfFile?_strategyFile s.version)
      omega
  unfold evolving at hstorage ⊢
  simp only [← hs] at hstorage ⊢
  have hsave := saveStrategy_tree x.archive s x.tree
  rw [howned] at hsave
  rcases hsave with ⟨hnew, -, hsave⟩ | ⟨-, hle | hsome⟩ | hsave
  · rw [hsave]
    have hversion' := latestVersion_withStrategy hnew
    refine ⟨howned, ?_, ?_, ⟨saved ++ [s], ?_, ?_, ?_, ?_⟩, ?_⟩
    · simpa [Reply.kept, withStrategy] using htraces
    · intro e he v hv
      rw [strategyPath, FileTree.children_insert_self _ hfree] at he
      simp only [hversion']
      rcases List.mem_cons.1 he with rfl | he
      · rw [versionOfFile?_strategyFile, Option.some.injEq] at hv
        rw [hv]
      · have := hnamed e he v hv
        omega
    · simp only [hversion', List.length_append, List.length_singleton]
      omega
    · simpa [Reply.saves] using hsaves
    · rw [List.map_append, hversions, List.length_append, List.length_singleton,
        List.range'_1_concat, List.map_singleton, hversion, hlatest]
      congr 2
      omega
    · intro t ht
      rw [List.getLast?_concat, Option.mem_some_iff] at ht
      rw [← ht]
      exact latestStrategy?_withStrategy hnew
    · intro before settings' t after hlog
      rcases split_append_singleton hlog with ⟨rfl, hr⟩ | ⟨rest, hlog⟩
      · cases hr
        rw [← htraces]
        exact hself
      · exact htaught _ _ _ _ hlog
  · rw [UInt32.le_iff_toNat_le] at hle
    omega
  · rw [hfree] at hsome
    cases hsome
  · rw [hsave] at hstorage
    exact absurd (List.mem_append_right _ List.mem_cons_self) hstorage

/-! ## Runs of tasks -/

theorem step_log (x : Session) (task : Task) : ∃ reply, (x.step task).log = x.log ++ [reply] ∧
    (Reply.saves (x.step task).log).length =
      (Reply.saves x.log).length + if task.evolves then 1 else 0 := by
  cases task with
  | adding t =>
    simp only [step, adding]
    split
    · exact ⟨_, rfl, by simp [Reply.saves, Task.evolves]⟩
    · exact ⟨_, rfl, by simp [Reply.saves, Task.evolves]⟩
  | evolving settings =>
    simp only [step, evolving]
    split
    · exact ⟨_, rfl, by simp [Reply.saves, Task.evolves]⟩
    · exact ⟨_, rfl, by simp [Reply.saves, Task.evolves]⟩

theorem log_prefix_run : ∀ (tasks : List Task) (x : Session), x.log <+: (x.run tasks).log
  | [], x => List.prefix_refl _
  | task :: tasks, x => by
    obtain ⟨reply, hlog, -⟩ := step_log x task
    have hrest := log_prefix_run tasks (x.step task)
    rw [hlog] at hrest
    exact (List.prefix_append _ _).trans hrest

theorem abreast_run : ∀ (tasks : List Task) {x : Session}, x.Abreast directory first highest →
    highest + (Reply.saves x.log).length + tasks.countP Task.evolves < UInt32.size →
    (∀ settings, .saved settings (.error .storage) ∉ (x.run tasks).log) →
    (x.run tasks).Abreast directory first highest ∧
      (Reply.saves (x.run tasks).log).length =
        (Reply.saves x.log).length + tasks.countP Task.evolves
  | [], _, h, _, _ => ⟨h, rfl⟩
  | task :: tasks, x, h, hroom, hstorage => by
    obtain ⟨reply, -, hcount⟩ := step_log x task
    rw [List.countP_cons] at hroom ⊢
    have hstep : (x.step task).Abreast directory first highest := by
      cases task with
      | adding t => exact abreast_adding h t
      | evolving settings =>
        refine abreast_evolving h settings ?_ fun hmem => ?_
        · simp only [Task.evolves, if_true] at hroom
          omega
        · exact hstorage settings ((log_prefix_run tasks _).subset hmem)
    obtain ⟨hrun, hlength⟩ := abreast_run tasks hstep (by omega) hstorage
    refine ⟨hrun, ?_⟩
    show (Reply.saves ((x.step task).run tasks).log).length = _
    omega

theorem abreast_start {sampling : SamplingSettings} {root : Path} {subject : String}
    {tree opened : FileTree} {a : Archive} {highest : Nat}
    (hopen : openAt sampling root subject tree = (.ok a, opened))
    (hhighest : HighestVersion (subject :: root) tree highest) :
    Session.Abreast (subject :: root) a.traces highest ⟨a, opened, []⟩ := by
  have ho := openAt_opening sampling root subject tree
  rw [hopen] at ho
  obtain ⟨-, rfl⟩ := (ho.ok_iff a).1 rfl
  have hlatest : (loaded sampling root subject tree).latestVersion.toNat = highest :=
    latestVersion_loaded hhighest
  refine ⟨rfl, by simp [Reply.kept], fun e he v hv => ?_, ⟨[], hlatest, rfl, rfl, by simp⟩, ?_⟩
  · rw [ho.strategies] at he
    exact (hhighest.2 (Or.inr ⟨e, he, v, hv, rfl⟩)).trans_eq hlatest.symm
  · intro before settings s after hlog
    simp at hlog

/-- Two strategies that differ in the version only. -/
structure TeachSame (s₁ s₂ : Strategy) : Prop where
  eq : s₂ = { s₁ with version := s₂.version }
  sameContent : (∀ x ∈ s₁.doubles, x.isNaN = false) → s₁.sameContent s₂ = true

/-- Each strategy that is evolved is saved, and two of them between which no trace was kept teach
the same. Only the tasks that evolve have to find the storage working, and there must be a version
left for each of them. -/
theorem versions_run {sampling : SamplingSettings} {root : Path} {subject : String}
    {tree opened : FileTree} {a : Archive} {highest : Nat}
    (hopen : openAt sampling root subject tree = (.ok a, opened))
    (hhighest : HighestVersion (subject :: root) tree highest) (tasks : List Task)
    (hroom : highest + tasks.countP Task.evolves < UInt32.size)
    (hstorage : ∀ settings, .saved settings (.error .storage) ∉
      (Session.run ⟨a, opened, []⟩ tasks).log) :
    let final := Session.run ⟨a, opened, []⟩ tasks
    (∃ saved, saved.length = tasks.countP Task.evolves ∧ final.Saves highest saved) ∧
    ∀ before settings s₁ between s₂ after,
      final.log = before ++ .saved settings (.ok s₁) :: between ++
        .saved settings (.ok s₂) :: after →
      (∀ t, .added (.ok t) ∉ between) → TeachSame s₁ s₂ := by
  intro final
  obtain ⟨hfinal, hcount⟩ := abreast_run tasks (abreast_start hopen hhighest)
    (by simpa [Reply.saves] using hroom) hstorage
  refine ⟨?_, fun before settings s₁ between s₂ after hlog hnone => ?_⟩
  · obtain ⟨saved, -, hsaved⟩ := hfinal.saved
    refine ⟨saved, ?_, hsaved⟩
    rw [hsaved.answers, List.length_map] at hcount
    simpa [Reply.saves] using hcount
  · have hkept : Reply.kept (before ++ .saved settings (.ok s₁) :: between) =
        Reply.kept before := by
      have hbetween : Reply.kept between = [] := by
        refine List.filterMap_eq_nil_iff.2 fun reply hreply => ?_
        split
        · exact absurd hreply (hnone _)
        · rfl
      unfold Reply.kept at hbetween ⊢
      rw [List.filterMap_append, List.filterMap_cons_none rfl, hbetween, List.append_nil]
    have h₁ := hfinal.taught before settings s₁ (between ++ .saved settings (.ok s₂) :: after)
      (by rw [hlog, List.append_assoc, List.cons_append])
    have h₂ := hfinal.taught _ settings s₂ after hlog
    rw [hkept, EvolutionSettings.evolve_eq _ _ s₁.version, ← h₁] at h₂
    refine ⟨h₂, fun hnan => ?_⟩
    rw [h₂]
    exact Strategy.sameContent_withVersion hnan _

/-- A tree in which the strategies of the subject `s` are unreadable, misnamed or missing. -/
def tornTree : FileTree where
  entries := [(["strategy_v007.json", "strategies", "s"], .file none),
    (["strategy_v+3.json", "strategies", "s"], .file (some "\x7b")),
    (["strategy_v.json", "strategies", "s"], .directory), (["strategies", "s"], .directory),
    (["traces", "s"], .directory), (["s"], .directory), ([], .directory)]
  distinct := by decide

def tornArchive : Archive := ⟨"s", ["s"], [], [], 7, {}⟩

theorem openAt_tornTree : openAt {} [] "s" tornTree = (.ok tornArchive, tornTree) := by
  have hload : loaded {} [] "s" tornTree = tornArchive := by
    have htraces : (listing tornTree (traceDirectory ["s"])).filterMap storedTrace? = [] := rfl
    have hstrategies : (listing tornTree (strategyDirectory ["s"])).filterMap storedStrategy? =
        [] := rfl
    rw [loaded, load, htraces, hstrategies, List.mergeSort_nil, List.mergeSort_nil]
    rfl
  rw [← hload]
  rfl

theorem highestVersion_tornTree : HighestVersion ["s"] tornTree 7 := by
  refine ⟨Or.inr ⟨("strategy_v007.json", .file none), by decide, 7, by decide, rfl⟩, ?_⟩
  rintro n (rfl | ⟨e, he, v, hv, rfl⟩)
  · decide
  · have hchildren : tornTree.children (strategyDirectory ["s"]) =
        [("strategy_v007.json", .file none), ("strategy_v+3.json", .file (some "\x7b")),
          ("strategy_v.json", .directory)] := rfl
    rw [hchildren] at he
    simp only [List.mem_cons, List.not_mem_nil, or_false] at he
    rcases he with rfl | rfl | rfl
    · obtain rfl : 7 = v := Option.some.inj hv
      decide
    · obtain rfl : 3 = v := Option.some.inj hv
      decide
    · cases hv

def dawnTrace : Trace := Trace.fresh "dawn" Time.epoch 0

/-- The highest name stands for 7. No trace is kept between the second strategy and the third. -/
theorem versions_run_tornTree :
    let final := Session.run ⟨tornArchive, tornTree, []⟩
      [.evolving {}, .adding dawnTrace, .evolving {}, .evolving {}]
    ∃ s₁ s₂ s₃ : Strategy, Reply.saves final.log = [.ok s₁, .ok s₂, .ok s₃] ∧
      [s₁, s₂, s₃].map (·.version.toNat) = [8, 9, 10] ∧
      final.archive.latestStrategy? = some s₃ ∧ s₃ = { s₂ with version := s₃.version } := by
  intro final
  obtain ⟨s₁, s₂, s₃, hlog⟩ : ∃ s₁ s₂ s₃, final.log = [.saved {} (.ok s₁),
      .added (.ok dawnTrace), .saved {} (.ok s₂), .saved {} (.ok s₃)] := ⟨_, _, _, rfl⟩
  have hstorage : ∀ settings, .saved settings (.error .storage) ∉ final.log := fun settings h => by
    simp [hlog] at h
  obtain ⟨⟨saved, -, hsaves, hversions, hlast⟩, hsame⟩ :=
    versions_run openAt_tornTree highestVersion_tornTree
      [.evolving {}, .adding dawnTrace, .evolving {}, .evolving {}] (by decide) hstorage
  obtain rfl : [s₁, s₂, s₃] = saved := by
    rw [hlog] at hsaves
    exact List.map_injective_iff.2 (fun _ _ => Except.ok.inj) hsaves
  exact ⟨s₁, s₂, s₃, hsaves, hversions, hlast s₃ rfl,
    (hsame [.saved {} (.ok s₁), .added (.ok dawnTrace)] {} s₂ [] s₃ [] hlog (by simp)).eq⟩

end Session

end Exploration
