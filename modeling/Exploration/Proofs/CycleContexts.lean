import Mathlib
import Exploration.Proofs.CycleEvolution

/-!
# What the runs of a cycle are given

Each run is given the strategy in force: the last one evolved after an earlier run of the cycle, or
else the latest one that was there at its start (`inForce`). What carries this is that a strategy
that is saved is the latest one from then on (`Evolves.latest`). A version whose file could not be
loaded has no strategy, so no run is given one for it.
-/

namespace Exploration

open Archive

variable {ω : Type}

/-! ## What the runs are told -/

/-- What a run is told. -/
structure Briefing where
  runNumber : UInt32
  context : String

/-- The same surroundings, with the briefings written down. -/
def Surroundings.heard (env : Surroundings ω) : Surroundings (ω × List Briefing) where
  perceive context number x :=
    let r := env.perceive context number x.1
    (r.1, r.2, x.2 ++ [⟨number, context⟩])
  stamp x :=
    let r := env.stamp x.1
    (r.1, r.2, x.2)
  publish path text x :=
    let r := env.publish path text x.1
    (r.1, r.2, x.2)

theorem heard_writes (env : Surroundings ω) : env.heard.Writes env :=
  ⟨fun _ _ _ => rfl, fun _ => rfl, fun _ _ _ => rfl⟩

theorem heard_enters (env : Surroundings ω) : env.heard.Enters
    (fun context number briefings => briefings ++ [⟨number, context⟩])
    fun _ _ briefings => briefings where
  perceive _ _ _ := rfl
  stamp _ := rfl
  publish _ _ _ := (ite_self _).symm

/-- The trace has the version that the run was given. -/
theorem Cycle.Archives.strategyVersion {env : Surroundings ω} {number : UInt32} {a : Archive}
    {w w' : ω} {t : Trace} (h : Archives env number a w t w') :
    t.strategyVersion = a.contextVersion := by
  cases h
  rfl

/-! ## The strategy in force -/

/-- The last strategy that was evolved, or the one from before. -/
def inForce (start : Option Strategy) (evolved : List (Option Strategy)) : Option Strategy :=
  evolved.reduceOption.getLast?.or start

theorem inForce_cons (start s : Option Strategy) (evolved : List (Option Strategy)) :
    inForce start (s :: evolved) = inForce (s.or start) evolved := by
  unfold inForce
  rw [reduceOption_cons, List.getLast?_append]
  cases s <;> cases evolved.reduceOption.getLast? <;> rfl

/-- A strategy that is saved is in force from then on. -/
theorem Cycle.Evolves.latest {env : Surroundings ω} {evolution : EvolutionSettings}
    {every : UInt32} {a a' : Archive} {w w' : ω} {evolved : Option UInt32}
    (h : Evolves env evolution every a w evolved a' w') : ∃ s : Option Strategy,
      evolved = s.map (·.version) ∧ a'.strategies = a.strategies ++ s.toList ∧
      a'.latestStrategy? = s.or a.latestStrategy? := by
  cases h with
  | undue h => exact ⟨none, rfl, (List.append_nil _).symm, rfl⟩
  | due h hpublish hnew =>
    exact ⟨some (a.evolve evolution), rfl, rfl, latestStrategy?_withStrategy hnew⟩

/-! ## After all runs -/

/-- What runs were given that began with the strategies `before`, of which `start` was in force. The
briefings are those for the runs, one more than there are results if the last run failed. -/
structure Guided (before : List Strategy) (start : Option Strategy) (briefings : List Briefing)
    (results : List RunResult) (added : List Trace) (evolved : List (Option Strategy)) : Prop where
  latest : ∀ i, Latest (before ++ (evolved.take i).reduceOption) (inForce start (evolved.take i))
  contexts : ∀ i b, briefings[i]? = some b → b.context =
    (inForce start (evolved.take i)).elim Strategy.firstRunContext (·.context)
  versions : ∀ i r, results[i]? = some r → r.strategyVersion =
    (inForce start (evolved.take i)).elim 0 (·.version)
  archived : List.Forall₂ (fun r t => r.runId = t.runId ∧ r.strategyVersion = t.strategyVersion)
    results added
  evolvedVersions : results.map (·.evolvedVersion) = evolved.map (·.map (·.version))

section

variable {before : List Strategy} {start s : Option Strategy} {briefings : List Briefing}
  {results : List RunResult} {added : List Trace} {evolved : List (Option Strategy)}

theorem Guided.nil (h : Latest before start) : Guided before start [] [] [] [] where
  latest i := by simpa [inForce] using h
  contexts := by simp
  versions := by simp
  archived := .nil
  evolvedVersions := rfl

theorem Guided.failed {b : Briefing} (h : Latest before start)
    (hcontext : b.context = start.elim Strategy.firstRunContext (·.context)) :
    Guided before start [b] [] [] [] :=
  { Guided.nil h with
    contexts := by
      rintro (_ | i) u hu
      · obtain rfl : b = u := by simpa using hu
        simpa [inForce] using hcontext
      · simp at hu }

theorem Guided.cons {b : Briefing} {r : RunResult} {t : Trace}
    (h : Guided (before ++ s.toList) (s.or start) briefings results added evolved)
    (hlatest : Latest before start)
    (hcontext : b.context = start.elim Strategy.firstRunContext (·.context))
    (hversion : r.strategyVersion = start.elim 0 (·.version))
    (htrace : r.runId = t.runId ∧ r.strategyVersion = t.strategyVersion)
    (hevolved : r.evolvedVersion = s.map (·.version)) :
    Guided before start (b :: briefings) (r :: results) (t :: added) (s :: evolved) where
  latest := by
    rintro (_ | i)
    · simpa [inForce] using hlatest
    · have hi := h.latest i
      rwa [List.append_assoc, ← reduceOption_cons, ← inForce_cons] at hi
  contexts := by
    rintro (_ | i) u hu
    · obtain rfl : b = u := by simpa using hu
      simpa [inForce] using hcontext
    · rw [List.take_succ_cons, inForce_cons]
      exact h.contexts i u hu
  versions := by
    rintro (_ | i) u hu
    · obtain rfl : r = u := by simpa using hu
      simpa [inForce] using hversion
    · rw [List.take_succ_cons, inForce_cons]
      exact h.versions i u hu
  archived := .cons htrace h.archived
  evolvedVersions := by rw [List.map_cons, List.map_cons, hevolved, h.evolvedVersions]

/-- The version in force, as the results tell it. -/
theorem Guided.version_inForce (h : Guided before start briefings results added evolved) (i : Nat) :
    (inForce start (evolved.take i)).map (·.version) =
      ((results.take i).filterMap (·.evolvedVersion)).getLast?.or (start.map (·.version)) := by
  have hversions : (results.take i).filterMap (·.evolvedVersion) =
      (evolved.take i).reduceOption.map (·.version) := by
    rw [← List.reduceOption_map, List.map_take, ← h.evolvedVersions, ← List.map_take,
      List.reduceOption, List.filterMap_map]
    rfl
  rw [inForce, hversions, List.getLast?_map, Option.map_or]

end

/-- What the runs from `number` on were told, and what came of them. A run that failed has a
briefing and no result. -/
structure Cycle.Told (number : UInt32) (results : List RunResult) (ending : Ending)
    (a a' : Archive) (briefings : List Briefing) (added : List Trace)
    (evolved : List (Option Strategy)) : Prop where
  numbers : briefings.map (·.runNumber) = numbersFrom number briefings.length
  answered : briefings.length = results.length ∨
    briefings.length = results.length + 1 ∧ ∃ e, ending = .aborted e
  traces : a'.traces = a.traces ++ added
  strategies : a'.strategies = a.strategies ++ evolved.reduceOption
  latest : a'.latestStrategy? = inForce a.latestStrategy? evolved
  guided : Guided a.strategies a.latestStrategy? briefings results added evolved

theorem Cycle.course_told {env : Surroundings ω} {evolution : EvolutionSettings}
    {settings : CycleSettings} {remaining : Nat} {number : UInt32} {spent : Float}
    {results : List RunResult} {ending : Ending} {a a' : Archive} {x y : ω × List Briefing}
    (h : Course env.heard evolution settings remaining number spent a x results ending a' y) :
    ∃ briefings added evolved, y.2 = x.2 ++ briefings ∧ briefings.length ≤ remaining ∧
      Told number results ending a a' briefings added evolved := by
  induction h with
  | @limit number _ a =>
    exact ⟨[], [], [], by simp, by simp, rfl, .inl rfl, by simp, by simp, rfl,
      .nil a.latest_latestStrategy?⟩
  | @failed _ number _ a _ _ e hrun =>
    exact ⟨[⟨number, a.context⟩], [], [], (heard_enters env).fails hrun, by simp,
      (numbersFrom_succ number 0).symm, .inr ⟨rfl, e, rfl⟩, by simp, by simp, rfl,
      .failed a.latest_latestStrategy? rfl⟩
  | @stalled _ number _ a _ _ _ t _ hrun hevolve =>
    have hbriefing := (heard_enters env).archives hrun
    refine ⟨[⟨number, a.context⟩], [t], [none], ?_, by simp, (numbersFrom_succ number 0).symm,
      .inl rfl, rfl, by simp [withTrace], rfl, ?_⟩
    · rw [(heard_enters env).stalls hevolve, hbriefing]
    · refine (Guided.nil ?_).cons a.latest_latestStrategy? rfl hrun.strategyVersion ⟨rfl, rfl⟩ rfl
      simpa using a.latest_latestStrategy?
  | @exhausted _ number _ a a' _ _ _ t _ hrun hevolve hbudget =>
    have hbriefing := (heard_enters env).archives hrun
    obtain ⟨s, rfl, hstrategies, hlatest⟩ := hevolve.latest
    refine ⟨[⟨number, a.context⟩], [t], [s], ?_, by simp, (numbersFrom_succ number 0).symm,
      .inl rfl, hevolve.traces.1, ?_, ?_, ?_⟩
    · rw [or_self_iff.1 ((heard_enters env).evolves hevolve), hbriefing]
    · rw [hstrategies, List.reduceOption_singleton]
      rfl
    · rw [hlatest, inForce_cons]
      rfl
    · refine (Guided.nil ?_).cons a.latest_latestStrategy? rfl hrun.strategyVersion ⟨rfl, rfl⟩ rfl
      have hafter := a'.latest_latestStrategy?
      rw [hstrategies, hlatest] at hafter
      exact hafter
  | @next _ number _ a _ _ _ _ _ _ t _ _ _ hrun hevolve hbudget _ ih =>
    have hbriefing := (heard_enters env).archives hrun
    obtain ⟨s, rfl, hstrategies, hlatest⟩ := hevolve.latest
    obtain ⟨briefings, added, evolved, hheard, hlength, htold⟩ := ih
    refine ⟨⟨number, a.context⟩ :: briefings, t :: added, s :: evolved, ?_, by simpa using hlength,
      ?_, by simpa using htold.answered, ?_, ?_, ?_, ?_⟩
    · rw [hheard, or_self_iff.1 ((heard_enters env).evolves hevolve), hbriefing, List.append_assoc]
      rfl
    · rw [List.map_cons, htold.numbers, List.length_cons, numbersFrom_succ]
    · rw [htold.traces, hevolve.traces.1]
      simp [withTrace]
    · rw [htold.strategies, hstrategies, reduceOption_cons, List.append_assoc]
      rfl
    · rw [htold.latest, hlatest, inForce_cons]
      rfl
    · have hguided := htold.guided
      rw [hstrategies, hlatest] at hguided
      exact hguided.cons a.latest_latestStrategy? rfl hrun.strategyVersion ⟨rfl, rfl⟩ rfl

/-! ## Cycles -/

theorem Controller.runCycle_told (env : Surroundings ω) (settings : CycleSettings)
    (c : Controller) (w : ω) : ∃ report c' w' briefings added evolved,
      c.runCycle env settings w = (report, c', w') ∧
      c.runCycle env.heard settings (w, []) = (report, c', w', briefings) ∧
      Cycle.Told 1 report.results report.ending c.archive c'.archive briefings added evolved ∧
      briefings.map (·.runNumber.toNat) = List.range' 1 briefings.length ∧
      report.finalVersion = c'.archive.latestStrategy?.map (·.version) := by
  by_cases hinterval : settings.evolveEvery = 0
  · exact ⟨_, _, w, [], [], [], runCycle_zero _ _ _ hinterval, runCycle_zero _ _ _ hinterval,
      ⟨rfl, .inl rfl, by simp, by simp, rfl, .nil c.archive.latest_latestStrategy?⟩, rfl, rfl⟩
  · obtain ⟨results, ending, a, ⟨w', heard⟩, hplain, hheard, hcourse⟩ :=
      (heard_writes env).course c (w, []) hinterval
    obtain ⟨_, added, evolved, rfl, hlength, htold⟩ := Cycle.course_told hcourse
    refine ⟨_, _, w', heard, added, evolved, hplain, hheard, htold, ?_, rfl⟩
    rw [← toNat_numbersFrom_one (lt_of_le_of_lt hlength settings.maxRuns.toNat_lt),
      ← htold.numbers, List.map_map]
    rfl

/-- Cycles of one controller, one after the other. -/
def Controller.runCycles (env : Surroundings ω) :
    List CycleSettings → Controller → ω → Controller × ω
  | [], c, w => (c, w)
  | settings :: later, c, w =>
    let (_, c, w) := c.runCycle env settings w
    runCycles env later c w

/-- From `a` to `b` an archive has saved these strategies, and the last of them is in force. -/
structure Archive.Saves (a b : Archive) (saved : List Strategy) : Prop where
  strategies : b.strategies = a.strategies ++ saved
  latest : b.latestStrategy? = saved.getLast?.or a.latestStrategy?

theorem Controller.runCycles_saves (env : Surroundings ω) : ∀ (earlier : List CycleSettings)
    (c : Controller) (w : ω), ∃ c' w' saved,
      Controller.runCycles env earlier c w = (c', w') ∧ c.archive.Saves c'.archive saved
  | [], c, w => ⟨c, w, [], rfl, (List.append_nil _).symm, rfl⟩
  | settings :: later, c, w => by
    obtain ⟨report, c₁, w₁, _, _, evolved, hcycle, -, htold, -⟩ := c.runCycle_told env settings w
    obtain ⟨c', w', saved, hrest, hsaves⟩ := runCycles_saves env later c₁ w₁
    refine ⟨c', w', evolved.reduceOption ++ saved, ?_, ?_, ?_⟩
    · rw [runCycles, hcycle]
      exact hrest
    · rw [hsaves.strategies, htold.strategies, List.append_assoc]
    · rw [hsaves.latest, htold.latest, inForce, List.getLast?_append, Option.or_assoc]

/-- After any cycles before it, each run of a cycle is given the strategy in force, and so are its
result and its trace the version of that strategy. -/
theorem runCycle_contexts (env : Surroundings ω) (earlier : List CycleSettings)
    (settings : CycleSettings) (first : Controller) (w₀ : ω) : ∃ c w before,
      Controller.runCycles env earlier first w₀ = (c, w) ∧
      first.archive.Saves c.archive before ∧
    ∃ report c' w' briefings added evolved,
      c.runCycle env settings w = (report, c', w') ∧
      c.runCycle env.heard settings (w, []) = (report, c', w', briefings) ∧
      briefings.map (·.runNumber.toNat) = List.range' 1 briefings.length ∧
      Cycle.Told 1 report.results report.ending c.archive c'.archive briefings added evolved ∧
      (∀ i r, report.results[i]? = some r → r.strategyVersion =
        ((report.results.take i).filterMap (·.evolvedVersion)).getLast?.getD
          c.archive.contextVersion) ∧
      report.finalVersion = (report.results.filterMap (·.evolvedVersion)).getLast?.or
        (c.archive.latestStrategy?.map (·.version)) := by
  obtain ⟨c, w, before, hearlier, hsaves⟩ := Controller.runCycles_saves env earlier first w₀
  obtain ⟨report, c', w', briefings, added, evolved, hplain, hheard, htold, hnumbers, hfinal⟩ :=
    c.runCycle_told env settings w
  have hguided := htold.guided
  refine ⟨c, w, before, hearlier, hsaves, report, c', w', briefings, added, evolved, hplain, hheard,
    hnumbers, htold, fun i r hr => ?_, ?_⟩
  · have helim : ∀ s : Option Strategy, s.elim 0 (·.version) = (s.map (·.version)).getD 0 := by
      rintro (_ | s) <;> rfl
    rw [hguided.versions i r hr, contextVersion, helim, helim, hguided.version_inForce i,
      Option.getD_or]
  · have hall := hguided.version_inForce report.results.length
    have hlength : evolved.length = report.results.length := by
      simpa using (congrArg List.length hguided.evolvedVersions).symm
    rw [List.take_of_length_le hlength.le, List.take_length] at hall
    rw [hfinal, htold.latest, hall]

/-- Version 7 is reserved, and no run is given it. -/
example : (Controller.runCycle steadySurroundings ⟨3, 10, 2⟩ ⟨reservedArchive, {}, .idle⟩
    (vacantTree, ["dawn", "noon", "dusk"])).1.results.map (·.strategyVersion) = [0, 8, 8] := by
  decide +kernel

end Exploration
