import Mathlib
import Exploration.Proofs.CycleStop
import Exploration.Proofs.FileTree

/-!
# What a cycle accounts for

The results of a cycle are an account of the traces that it has added to the archive, one each and
in order (`Accounts`), however the cycle ends. The files of these traces are the only trace files
that it has published, and in surroundings that keep files (`Durable`) they are all there in the
end. Each turn of the cycle adds to this account (`Cycle.course_adds`).
-/

namespace Exploration

open Archive

variable {ω : Type}

/-! ## Storage that keeps files -/

/-- Whatever happens, the files in the tree stay, and a file that was created is one of them. -/
structure Durable (env : Surroundings ω) (tree : ω → FileTree) : Prop where
  perceive : ∀ context number w, (tree w).Keeps (tree (env.perceive context number w).2)
  stamp : ∀ w, (tree w).Keeps (tree (env.stamp w).2)
  publish : ∀ path text w, (tree w).Keeps (tree (env.publish path text w).2)
  created : ∀ path text w w', env.publish path text w = (.created, w') →
    (tree w').find? path = some (.file (some text))

theorem Durable.recorded {env : Surroundings ω} {tree : ω → FileTree} (h : Durable env tree) :
    Durable env.recorded fun x => tree x.1 where
  perceive context number x := h.perceive context number x.1
  stamp x := h.stamp x.1
  publish path text x := h.publish path text x.1
  created path text x y hp := h.created path text x.1 y.1 (congrArg forget hp)

section Durable

variable {env : Surroundings ω} {tree : ω → FileTree} {a a' : Archive} {w w' : ω}
  {evolution : EvolutionSettings} {number every : UInt32} {t : Trace} {e : Failure}

theorem Durable.keeps_of_publish (h : Durable env tree) {path : Path} {text : String}
    {p : Publication} (hp : env.publish path text w = (p, w')) : (tree w).Keeps (tree w') := by
  have := h.publish path text w
  rwa [hp] at this

theorem Durable.keeps_of_refused (h : Durable env tree) {path : Path} {text : String}
    (hp : w' = w ∨ ∃ p ≠ .created, env.publish path text w = (p, w')) :
    (tree w).Keeps (tree w') := by
  rcases hp with rfl | ⟨p, -, hp⟩
  · exact .refl _
  · exact h.keeps_of_publish hp

theorem Durable.keeps_of_fails (h : Durable env tree) (hf : Cycle.Fails env number a w e w') :
    (tree w).Keeps (tree w') := by
  have hperceive := h.perceive a.context number w
  cases hf with
  | perceiving hr => rwa [hr] at hperceive
  | checking hr hcheck => rwa [hr] at hperceive
  | @archiving outcome stamp _ w₁ w₂ _ hr hcheck hs hadd =>
    rw [hr] at hperceive
    have hstamp := h.stamp w₁
    rw [hs] at hstamp
    exact (hperceive.trans hstamp).trans (h.keeps_of_refused (addTrace_error hadd))

theorem Durable.keeps_of_archives (h : Durable env tree)
    (ha : Cycle.Archives env number a w t w') : (tree w).Keeps (tree w') ∧
      (tree w').find? (tracePath a.directory t) = some (.file (some t.encode)) := by
  have hperceive := h.perceive a.context number w
  cases ha with
  | @mk outcome stamp w₁ w₂ _ hr hcheck hs hp =>
    rw [hr] at hperceive
    have hstamp := h.stamp w₁
    rw [hs] at hstamp
    exact ⟨(hperceive.trans hstamp).trans (h.keeps_of_publish hp), h.created _ _ _ _ hp⟩

/-- The file of a run that was archived is there as long as what comes after it keeps files. -/
theorem Durable.keeps_of_turn (h : Durable env tree) (ha : Cycle.Archives env number a w t w')
    {u : FileTree} (hafter : (tree w').Keeps u) : (tree w).Keeps u ∧
      u.find? (tracePath a.directory t) = some (.file (some t.encode)) := by
  obtain ⟨hkeeps, hfile⟩ := h.keeps_of_archives ha
  exact ⟨hkeeps.trans hafter, hafter _ _ hfile⟩

theorem Durable.keeps_of_evolves (h : Durable env tree) {evolved : Option UInt32}
    (hv : Cycle.Evolves env evolution every a w evolved a' w') : (tree w).Keeps (tree w') := by
  cases hv with
  | undue _ => exact .refl _
  | due _ hp => exact h.keeps_of_publish hp

theorem Durable.keeps_of_stalls (h : Durable env tree)
    (hs : Cycle.Stalls env evolution every a w e w') : (tree w).Keeps (tree w') :=
  h.keeps_of_refused (saveStrategy_error hs.refused)

end Durable

/-! ## Results and traces -/

/-- The results of runs from `number` on, when `spent` had been spent, tell of these traces. -/
structure Accounts (number : UInt32) (spent : Float) (results : List RunResult)
    (added : List Trace) : Prop where
  runIds : results.map (·.runId) = added.map (·.runId)
  versions : results.map (·.strategyVersion) = added.map (·.strategyVersion)
  scores : results.map (·.profileScore) = added.map (·.profileScore)
  costs : results.map (·.cost) = added.map (·.cost)
  numbers : results.map (·.runNumber) = numbersFrom number results.length
  sums : ∀ i (h : i < results.length),
    results[i].cumulativeCost = spentAfter spent results (i + 1)

theorem Accounts.nil (number : UInt32) (spent : Float) : Accounts number spent [] [] :=
  ⟨rfl, rfl, rfl, rfl, rfl, nofun⟩

theorem Accounts.cons {number : UInt32} {spent : Float} {results : List RunResult}
    {added : List Trace} {t : Trace}
    (h : Accounts (number + 1) (spent + t.cost) results added) (evolved : Option UInt32) :
    Accounts number spent ({ t.result number with
      cumulativeCost := spent + t.cost, evolvedVersion := evolved } :: results) (t :: added) where
  runIds := congrArg (t.runId :: ·) h.runIds
  versions := congrArg (t.strategyVersion :: ·) h.versions
  scores := congrArg (t.profileScore :: ·) h.scores
  costs := congrArg (t.cost :: ·) h.costs
  numbers := by
    rw [List.map_cons, h.numbers, List.length_cons, numbersFrom_succ]
    rfl
  sums := by
    rintro (_ | i) hi
    · rfl
    · rw [List.length_cons] at hi
      exact h.sums i (by omega)

/-- The files of traces, as they are published. -/
def traceFilesOf (directory : Path) (added : List Trace) : List (Path × String) :=
  added.map fun t => (tracePath directory t, t.encode)

theorem traceFiles_withFile (l : Ledger) (number : UInt32) (directory : Path) (t : Trace) :
    ((l.withRun number).withFile (tracePath directory t) t.encode .created).traceFiles directory =
      l.traceFiles directory ++ [(tracePath directory t, t.encode)] := by
  simp [Ledger.traceFiles, Ledger.withFile, Ledger.withRun, tracePath]

theorem traceFiles_of_evolves {env : Surroundings ω} {evolution : EvolutionSettings}
    {number every : UInt32} {a a' : Archive} {x y z : ω × Ledger} {t : Trace}
    {evolved : Option UInt32} (hrun : Cycle.Archives env.recorded number a x t y)
    (hevolve : Cycle.Evolves env.recorded evolution every (a.withTrace t) y evolved a' z) :
    z.2.traceFiles a.directory =
      x.2.traceFiles a.directory ++ [(tracePath a.directory t, t.encode)] := by
  have hledger := (ledger_of_evolves hevolve).2
  rw [ledger_of_archives hrun] at hledger
  exact hledger.trans (traceFiles_withFile _ _ _ _)

/-- From `x` to `y` runs have added these traces to the archive, and the results tell of them. The
files of the traces are all that was put in the directory of the traces. -/
structure Cycle.Adds (env : Surroundings ω) (number : UInt32) (spent : Float)
    (results : List RunResult) (a a' : Archive) (x y : ω × Ledger) (added : List Trace) :
    Prop where
  traces : a'.traces = a.traces ++ added
  accounts : Accounts number spent results added
  published : y.2.traceFiles a.directory =
    x.2.traceFiles a.directory ++ traceFilesOf a.directory added
  keeps : ∀ tree, Durable env tree → (tree x.1).Keeps (tree y.1)
  onDisk : ∀ tree, Durable env tree → ∀ t ∈ added,
    (tree y.1).find? (tracePath a.directory t) = some (.file (some t.encode))

theorem Cycle.course_adds {env : Surroundings ω} {evolution : EvolutionSettings}
    {settings : CycleSettings} {remaining : Nat} {number : UInt32} {spent : Float}
    {results : List RunResult} {ending : Ending} {a a' : Archive} {x y : ω × Ledger}
    (h : Course env.recorded evolution settings remaining number spent a x results ending a' y) :
    ∃ added, Adds env number spent results a a' x y added := by
  induction h with
  | limit =>
    exact ⟨[], by simp, .nil _ _, by simp [traceFilesOf], fun _ _ => .refl _, by simp⟩
  | failed hrun =>
    refine ⟨[], by simp, .nil _ _, ?_, fun tree ht => ht.recorded.keeps_of_fails hrun, by simp⟩
    rw [ledger_of_fails hrun]
    simp [traceFilesOf, Ledger.traceFiles, Ledger.withRun]
  | @stalled _ number spent a _ _ _ t _ hrun hevolve =>
    have hturn (tree) (ht : Durable env tree) :=
      ht.recorded.keeps_of_turn hrun (ht.recorded.keeps_of_stalls hevolve)
    refine ⟨[t], rfl, (Accounts.nil _ _).cons none, ?_, fun tree ht => (hturn tree ht).1,
      fun tree ht => by simpa using (hturn tree ht).2⟩
    rw [ledger_of_stalls hevolve, ledger_of_archives hrun, traceFiles_withFile]
    rfl
  | @exhausted _ number spent a a' _ _ _ t evolved hrun hevolve hbudget =>
    have hturn (tree) (ht : Durable env tree) :=
      ht.recorded.keeps_of_turn hrun (ht.recorded.keeps_of_evolves hevolve)
    exact ⟨[t], hevolve.traces.1, (Accounts.nil _ _).cons evolved,
      traceFiles_of_evolves hrun hevolve, fun tree ht => (hturn tree ht).1,
      fun tree ht => by simpa using (hturn tree ht).2⟩
  | @next _ number spent a a₁ _ _ _ _ _ t evolved _ _ hrun hevolve hbudget _ ih =>
    obtain ⟨added, hrest⟩ := ih
    have hdirectory : a₁.directory = a.directory := hevolve.traces.2
    have hpublished := hrest.published
    have honDisk := hrest.onDisk
    rw [hdirectory] at hpublished honDisk
    have hturn (tree) (ht : Durable env tree) := ht.recorded.keeps_of_turn hrun
      ((ht.recorded.keeps_of_evolves hevolve).trans (hrest.keeps tree ht))
    refine ⟨t :: added, ?_, hrest.accounts.cons evolved, ?_, fun tree ht => (hturn tree ht).1,
      fun tree ht => List.forall_mem_cons.2 ⟨(hturn tree ht).2, honDisk tree ht⟩⟩
    · rw [hrest.traces, hevolve.traces.1]
      simp [withTrace]
    · rw [hpublished, traceFiles_of_evolves hrun hevolve]
      simp [traceFilesOf]

/-- The trace of a run that failed is neither in the archive nor in the results, and a run after
which no strategy could be saved is in both. -/
theorem runCycle_accounts (env : Surroundings ω) (settings : CycleSettings) (c : Controller)
    (w : ω) : ∃ report c' w' ledger added,
      c.runCycle env settings w = (report, c', w') ∧
      c.runCycle env.recorded settings (w, {}) = (report, c', w', ledger) ∧
      Cycle.Adds env 1 0 report.results c.archive c'.archive (w, {}) (w', ledger) added ∧
      report.results.map (·.runNumber.toNat) = List.range' 1 report.results.length ∧
      (settings.evolveEvery ≠ 0 → ∃ asked,
        Cycle.Ends env c.evolution settings settings.maxRuns.toNat 1 0 report.results c'.archive
          w' report.ending asked) := by
  by_cases hinterval : settings.evolveEvery = 0
  · refine ⟨_, _, w, {}, [], Controller.runCycle_zero _ _ _ hinterval,
      Controller.runCycle_zero _ _ _ hinterval, ?_, rfl, fun h => absurd hinterval h⟩
    exact ⟨by simp, .nil _ _, by simp [traceFilesOf], fun _ _ => .refl _, by simp⟩
  · obtain ⟨results, ending, a, w', ledger, hplain, hrecorded, hcourse⟩ :=
      runCycle_recorded_course env c w hinterval
    obtain ⟨added, hadds⟩ := Cycle.course_adds hcourse
    obtain ⟨asked, hhalts, -⟩ := Cycle.course_halts hcourse
    have hlength : results.length < UInt32.size :=
      lt_of_le_of_lt hhalts.length_le settings.maxRuns.toNat_lt
    refine ⟨_, _, w', ledger, added, hplain, hrecorded, hadds, ?_,
      fun _ => ⟨asked, hhalts.ends.of_recorded⟩⟩
    rw [← toNat_numbersFrom_one hlength, ← hadds.accounts.numbers, List.map_map]
    rfl

theorem durable_steadySurroundings : Durable steadySurroundings Prod.fst where
  perceive _ _ _ := .refl _
  stamp _ := .refl _
  publish path text w := FileTree.publish_keeps path text w.1
  created path text w w' h := by
    simp only [steadySurroundings, Prod.mk.injEq] at h
    obtain ⟨hp, rfl⟩ := h
    rcases FileTree.publish_cases path text w.1 with ⟨he, -⟩ | ⟨he, -⟩ | he <;> rw [he] at hp ⊢
    · rw [FileTree.find?_insert, if_pos rfl]
    · cases hp
    · cases hp

/-- The second run has the run id of the first, so its trace is not archived. -/
theorem runCycle_accounts_duplicate :
    let x := Controller.runCycle steadySurroundings ⟨5, 10, 1⟩ ⟨vacantArchive, {}, .idle⟩
      (vacantTree, ["dawn", "dawn"])
    ∃ t, x.2.1.archive.traces = [t] ∧ x.1.results.map (·.runId) = [t.runId] ∧
      x.2.2.1.find? (tracePath ["s"] t) = some (.file (some t.encode)) ∧
      ∃ v, Cycle.Fails steadySurroundings 2 x.2.1.archive v (.duplicateTrace "dawn") x.2.2 := by
  intro x
  have hending : x.1.ending = .aborted (.duplicateTrace "dawn") := rfl
  have hversions : x.1.results.map (·.evolvedVersion) = [some 1] := rfl
  obtain ⟨report, c', w', ledger, added, hx, -, hadds, -, hends⟩ :=
    runCycle_accounts steadySurroundings ⟨5, 10, 1⟩ ⟨vacantArchive, {}, .idle⟩
      (vacantTree, ["dawn", "dawn"])
  obtain ⟨asked, hends⟩ := hends (by decide)
  have hids := hadds.accounts.runIds
  rw [show x = (report, c', w') from hx] at hending hversions ⊢
  obtain ⟨r, hr, hversion⟩ := List.map_eq_singleton_iff.1 hversions
  simp only at hr hending
  rw [hr] at hids hends ⊢
  obtain ⟨t, rfl, hid⟩ := List.map_eq_singleton_iff.1 hids.symm
  refine ⟨t, hadds.traces, by simp [hid], ?_, ?_⟩
  · exact hadds.onDisk Prod.fst durable_steadySurroundings t List.mem_cons_self
  · rw [hending] at hends
    cases hends with
    | failed hroom hbudget hrun => exact ⟨_, hrun⟩
    | @stalled _ _ last hlast hnone hevolve =>
      obtain rfl : r = last := Option.some.inj hlast
      rw [hversion] at hnone
      cases hnone

end Exploration
