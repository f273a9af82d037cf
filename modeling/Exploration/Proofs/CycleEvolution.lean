import Mathlib
import Exploration.Proofs.CycleStop
import Exploration.Proofs.SharedArchive
import Exploration.Proofs.Versions

/-!
# What a cycle evolves

After each run of a cycle a strategy is evolved or none. It is time for one just when the number of
archived runs, those from before the cycle included, is a multiple of the interval, and only a save
that fails, with which the cycle ends, leaves one out (`Timely`). The strategies take the versions
that follow the latest one without gaps, whatever else is in the storage: someone else who writes
there can make a save fail and do nothing more.
-/

namespace Exploration

open Archive

theorem EvolutionSettings.evolve_derivedFromRuns (settings : EvolutionSettings)
    {traces : List Trace} (h : traces ≠ []) (version : UInt32) :
    (settings.evolve traces version).derivedFromRuns = .ofNat traces.length := by
  unfold EvolutionSettings.evolve
  rw [if_neg (by simpa using h)]

/-- Where a strategy may be saved, the versions have not run out. -/
theorem Archive.toNat_version_evolve {a : Archive} {evolution : EvolutionSettings}
    (h : ¬ (a.evolve evolution).version ≤ a.latestVersion) :
    (a.evolve evolution).version.toNat = a.latestVersion.toNat + 1 := by
  have hlt := a.latestVersion.toNat_lt
  have hversion : (a.evolve evolution).version.toNat = (a.latestVersion.toNat + 1) % 2 ^ 32 := by
    rw [evolve, EvolutionSettings.evolve_version, UInt32.toNat_add]
    rfl
  rw [UInt32.le_iff_toNat_le, hversion] at h
  omega

/-! ## After one run -/

/-- What was evolved when the archive held `traces` is right: nothing unless it was time, and then a
strategy that all of them taught, if there is no `excuse`. -/
def Timely (evolution : EvolutionSettings) (every : UInt32) (traces : List Trace)
    (excuse : Prop) : Option Strategy → Prop
  | none => traces.length % every.toNat ≠ 0 ∨ excuse
  | some s => traces.length % every.toNat = 0 ∧ s = evolution.evolve traces s.version

theorem Timely.mono {evolution : EvolutionSettings} {every : UInt32} {traces : List Trace}
    {excuse excuse' : Prop} (h : excuse → excuse') : ∀ {s : Option Strategy},
    Timely evolution every traces excuse s → Timely evolution every traces excuse' s
  | none => Or.imp_right h
  | some _ => id

namespace Cycle

variable {ω : Type} {env : Surroundings ω} {evolution : EvolutionSettings} {every : UInt32}
  {a a' : Archive} {w w' : ω}

/-- A strategy that was evolved takes the next version and stands last in the archive. -/
theorem Evolves.timely {evolved : Option UInt32}
    (h : Evolves env evolution every a w evolved a' w') : ∃ s : Option Strategy,
      evolved = s.map (·.version) ∧ Timely evolution every a.traces False s ∧
      a'.strategies = a.strategies ++ s.toList ∧
      s.toList.map (·.version.toNat) =
        List.range' (a.latestVersion.toNat + 1) s.toList.length ∧
      a'.latestVersion.toNat = a.latestVersion.toNat + s.toList.length := by
  cases h with
  | undue h => exact ⟨none, rfl, Or.inl h, by simp, rfl, rfl⟩
  | due h hpublish hnew =>
    have hversion := toNat_version_evolve hnew
    have hself : a.evolve evolution = evolution.evolve a.traces (a.evolve evolution).version := by
      rw [Archive.evolve, EvolutionSettings.evolve_version]
    refine ⟨some (a.evolve evolution), rfl, ⟨h, hself⟩, rfl, by simpa using hversion, ?_⟩
    rw [latestVersion_withStrategy hnew, hversion]
    rfl

end Cycle

/-! ## After all runs -/

theorem reduceOption_cons {α : Type} (s : Option α) (evolved : List (Option α)) :
    (s :: evolved).reduceOption = s.toList ++ evolved.reduceOption := by
  cases s <;> rfl

/-- What was evolved after each run, one entry a run, when the archive held the traces `before` and
had the version `latest` before the runs. Only after the last run may `stalled` be an excuse. -/
structure Evolutions (evolution : EvolutionSettings) (every : UInt32) (before : List Trace)
    (latest : Nat) (stalled : Prop) (added : List Trace) (evolved : List (Option Strategy)) :
    Prop where
  timely : ∀ i s, evolved[i]? = some s →
    Timely evolution every (before ++ added.take (i + 1)) (i + 1 = evolved.length ∧ stalled) s
  numbered : evolved.reduceOption.map (·.version.toNat) =
    List.range' (latest + 1) evolved.reduceOption.length

section

variable {evolution : EvolutionSettings} {every : UInt32} {before added : List Trace}
  {latest : Nat} {stalled : Prop} {evolved : List (Option Strategy)}

theorem Evolutions.nil : Evolutions evolution every before latest stalled [] [] := ⟨by simp, rfl⟩

/-- A run before the others. -/
theorem Evolutions.cons {t : Trace} {s : Option Strategy}
    (h : Evolutions evolution every (before ++ [t]) (latest + s.toList.length) stalled added
      evolved)
    (htimely : Timely evolution every (before ++ [t]) (evolved = [] ∧ stalled) s)
    (hnumber : s.toList.map (·.version.toNat) = List.range' (latest + 1) s.toList.length) :
    Evolutions evolution every before latest stalled (t :: added) (s :: evolved) where
  timely := by
    rintro (_ | i) r hr
    · obtain rfl : s = r := by simpa using hr
      simpa [List.take_succ_cons, List.length_eq_zero_iff, eq_comm] using htimely
    · have hrest := h.timely i r (by simpa using hr)
      simpa [List.take_succ_cons] using hrest
  numbered := by
    rw [reduceOption_cons, List.map_append, hnumber, h.numbered, List.length_append,
      ← List.range'_append_1]
    congr 2
    omega

end

/-- A course whose last strategy could not be saved ends with this failure. -/
def Cycle.Stalled {ω : Type} (env : Surroundings ω) (evolution : EvolutionSettings)
    (every : UInt32) (a : Archive) (w : ω) (ending : Ending) : Prop :=
  ∃ e v, ending = .aborted e ∧ Stalls env evolution every a v e w

/-- What runs that ended so have added to the archive and evolved, one entry each a result. -/
structure Cycle.Learns {ω : Type} (env : Surroundings ω) (evolution : EvolutionSettings)
    (every : UInt32) (results : List RunResult) (ending : Ending) (a a' : Archive) (w' : ω)
    (added : List Trace) (evolved : List (Option Strategy)) : Prop where
  traces : a'.traces = a.traces ++ added
  runIds : results.map (·.runId) = added.map (·.runId)
  evolvedVersions : results.map (·.evolvedVersion) = evolved.map (·.map (·.version))
  strategies : a'.strategies = a.strategies ++ evolved.reduceOption
  evolutions : Evolutions evolution every a.traces a.latestVersion.toNat
    (Stalled env evolution every a' w' ending) added evolved

theorem Cycle.course_learns {ω : Type} {env : Surroundings ω} {evolution : EvolutionSettings}
    {settings : CycleSettings} {remaining : Nat} {number : UInt32} {spent : Float}
    {results : List RunResult} {ending : Ending} {a a' : Archive} {w w' : ω}
    (h : Course env evolution settings remaining number spent a w results ending a' w') :
    ∃ added evolved,
      Learns env evolution settings.evolveEvery results ending a a' w' added evolved := by
  induction h with
  | limit => exact ⟨[], [], by simp, rfl, rfl, by simp, by simp, rfl⟩
  | failed hrun => exact ⟨[], [], by simp, rfl, rfl, by simp, by simp, rfl⟩
  | @stalled _ _ _ _ _ _ _ t e hrun hevolve =>
    refine ⟨[t], [none], rfl, rfl, rfl, by simp [withTrace], ?_⟩
    exact Evolutions.nil.cons (Or.inr ⟨rfl, e, _, rfl, hevolve⟩) rfl
  | @exhausted _ _ _ a _ _ _ _ t _ hrun hevolve hbudget =>
    obtain ⟨s, rfl, htimely, hstrategies, hnumber, -⟩ := hevolve.timely
    refine ⟨[t], [s], hevolve.traces.1, rfl, rfl, ?_, ?_⟩
    · rw [hstrategies]
      cases s <;> rfl
    · exact Evolutions.nil.cons (htimely.mono False.elim) hnumber
  | @next _ _ _ a _ _ _ _ _ _ t _ _ _ hrun hevolve hbudget _ ih =>
    obtain ⟨s, rfl, htimely, hstrategies, hnumber, hlatest⟩ := hevolve.timely
    obtain ⟨added, evolved, hlearns⟩ := ih
    have hrest := hlearns.evolutions
    rw [hevolve.traces.1, hlatest] at hrest
    refine ⟨t :: added, s :: evolved, ?_, congrArg (t.runId :: ·) hlearns.runIds,
      congrArg (_ :: ·) hlearns.evolvedVersions, ?_, ?_⟩
    · rw [hlearns.traces, hevolve.traces.1]
      simp [withTrace]
    · rw [hlearns.strategies, hstrategies]
      cases s <;> simp [withTrace, List.reduceOption]
    · exact hrest.cons (htimely.mono False.elim) hnumber

/-! ## Cycles -/

/-- What a cycle of `m` runs evolves when the archive holds `n` traces and has the latest version
`l` at its start: after run `i`, and only where `n + i` is a multiple of the interval, a strategy
that the traces up to that run taught. The versions are `l + 1`, `l + 2` and so on. Where it was
time for one and there is none, the run was the last and the strategy could not be saved. -/
theorem runCycle_evolves {ω : Type} (env : Surroundings ω) (settings : CycleSettings)
    (c : Controller) (w : ω) : ∃ report c' w' added evolved,
      c.runCycle env settings w = (report, c', w') ∧
      Cycle.Learns env c.evolution settings.evolveEvery report.results report.ending c.archive
        c'.archive w' added evolved ∧
      (∀ i s, evolved[i]? = some (some s) →
        (c.archive.runCount + (i + 1)) % settings.evolveEvery.toNat = 0 ∧
        s.derivedFromRuns = .ofNat (c.archive.runCount + (i + 1)) ∧
        s = c.evolution.evolve (c.archive.traces ++ added.take (i + 1)) s.version) ∧
      ∀ i, evolved[i]? = some none →
        (c.archive.runCount + (i + 1)) % settings.evolveEvery.toNat ≠ 0 ∨
        (i + 1 = report.results.length ∧
          Cycle.Stalled env c.evolution settings.evolveEvery c'.archive w' report.ending) := by
  by_cases hinterval : settings.evolveEvery = 0
  · exact ⟨_, _, w, [], [], Controller.runCycle_zero _ _ _ hinterval,
      ⟨(List.append_nil _).symm, rfl, rfl, (List.append_nil _).symm, nofun, rfl⟩, nofun, nofun⟩
  obtain ⟨results, ending, a, w', hcycle, hcourse⟩ := Controller.runCycle_course env c w hinterval
  obtain ⟨added, evolved, hlearns⟩ := Cycle.course_learns hcourse
  have hlength : evolved.length = results.length := by
    simpa using (congrArg List.length hlearns.evolvedVersions).symm
  have hadded : added.length = results.length := by
    simpa using (congrArg List.length hlearns.runIds).symm
  have hcount : ∀ i (s : Option Strategy), evolved[i]? = some s →
      (c.archive.traces ++ added.take (i + 1)).length = c.archive.runCount + (i + 1) := by
    intro i s hs
    have hi := (List.getElem?_eq_some_iff.1 hs).1
    rw [List.length_append, List.length_take, Nat.min_eq_left (by omega), runCount]
  refine ⟨_, _, w', added, evolved, hcycle, hlearns, fun i s hs => ?_, fun i hi => ?_⟩
  · obtain ⟨hdue, htaught⟩ := hlearns.evolutions.timely i _ hs
    have hsome : c.archive.traces ++ added.take (i + 1) ≠ [] := by
      rw [← List.length_pos_iff, hcount i _ hs]
      omega
    rw [hcount i _ hs] at hdue
    refine ⟨hdue, ?_, htaught⟩
    rw [htaught, EvolutionSettings.evolve_derivedFromRuns _ hsome, hcount i _ hs]
  · have hnone := hlearns.evolutions.timely i _ hi
    rw [Timely, hcount i _ hi, hlength] at hnone
    exact hnone

/-- An archive with one trace in which version 7 is reserved. -/
def reservedArchive : Archive :=
  { vacantArchive with traces := [Shared.nightTrace], reserved := 7 }

/-- The first and the third run make the number of traces even. -/
theorem runCycle_evolves_second_run :
    let x := Controller.runCycle steadySurroundings ⟨3, 10, 2⟩ ⟨reservedArchive, {}, .idle⟩
      (vacantTree, ["dawn", "noon", "dusk"])
    x.1.results.map (·.evolvedVersion) = [some 8, none, some 9] ∧
      x.2.1.archive.strategies.map (·.version) = [8, 9] ∧
      x.2.1.archive.strategies.map (·.derivedFromRuns) = [2, 4] := by
  have hresults : (Controller.runCycle steadySurroundings ⟨3, 10, 2⟩ ⟨reservedArchive, {}, .idle⟩
      (vacantTree, ["dawn", "noon", "dusk"])).1.results.map (·.evolvedVersion) =
      [some 8, none, some 9] := by decide +kernel
  intro x
  obtain ⟨report, c', w', added, evolved, hx, hlearns, hsome, -⟩ :=
    runCycle_evolves steadySurroundings ⟨3, 10, 2⟩ ⟨reservedArchive, {}, .idle⟩
      (vacantTree, ["dawn", "noon", "dusk"])
  have hversions := hlearns.evolvedVersions
  rw [hx, hversions] at hresults
  rw [show x = (report, c', w') from hx]
  obtain ⟨o₁, o₂, o₃, rfl⟩ : ∃ o₁ o₂ o₃, evolved = [o₁, o₂, o₃] :=
    List.length_eq_three.1 (by simpa using congrArg List.length hresults)
  obtain ⟨⟨s, rfl, hs⟩, rfl, t, rfl, ht⟩ : (∃ s, o₁ = some s ∧ s.version = 8) ∧ o₂ = none ∧
      ∃ t, o₃ = some t ∧ t.version = 9 := by simpa using hresults
  obtain ⟨-, hsecond, -⟩ := hsome 0 s rfl
  obtain ⟨-, hfourth, -⟩ := hsome 2 t rfl
  have hsaved : c'.archive.strategies = [s, t] := hlearns.strategies
  refine ⟨?_, ?_, ?_⟩
  · rw [hversions]
    simp [hs, ht]
  · simp [hsaved, hs, ht]
  · simp only [hsaved, List.map_cons, List.map_nil, hsecond, hfourth]
    rfl

end Exploration
