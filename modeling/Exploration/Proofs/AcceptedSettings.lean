import Mathlib
import Exploration.Logging
import Exploration.Proofs.CycleContexts
import Exploration.Proofs.CycleOutcomes
import Exploration.Proofs.DoubleValue
import Exploration.Settings.Check

/-!
# Accepted settings

Settings are accepted if they meet all their demands (`Settings.demands`), and refused for the first
one that they do not meet (`Settings.refusals_eq`). What is set up with accepted settings takes them
as they are: a log reads their words (`Logging.start_of_mem`), and a cycle asks for its first run
(`Cycle.course_first`). A cycle that is aborted for its interval all the same was told so by a run
(`Cycle.course_zeroInterval`).
-/

namespace Exploration

/-! ## Demands -/

namespace Settings

/-- What settings have to meet, and what they are refused for if they do not. -/
structure Demand where
  met : Prop
  refusal : SettingsError

open Classical in
noncomputable def Demand.refusal? (d : Demand) : Option SettingsError :=
  if d.met then none else some d.refusal

theorem Demand.refusal?_eq_none_iff {d : Demand} : d.refusal? = none ↔ d.met := by
  simp [refusal?]

theorem Demand.refusal?_eq_some_iff {d : Demand} {e : SettingsError} :
    d.refusal? = some e ↔ ¬ d.met ∧ d.refusal = e := by
  simp [refusal?]

theorem Demand.refusal?_eq {met : Prop} {refusal : SettingsError} {bad : Bool}
    (h : bad = true ↔ ¬ met) :
    (if bad then some refusal else none) = Demand.refusal? ⟨met, refusal⟩ := by
  by_cases hmet : met
  · rw [if_neg (by simpa [hmet] using h), refusal?_eq_none_iff.2 hmet]
  · rw [if_pos (h.2 hmet), refusal?_eq_some_iff.2 ⟨hmet, rfl⟩]

/-- The demands in the order in which they are looked at. -/
def demands (s : Settings) : List Demand :=
  [⟨∃ c ∈ s.archive.root.toList, Text.isBlank c = false, .emptyRoot⟩,
    ⟨0 < s.cycle.maxRuns, .runs s.cycle.maxRuns⟩,
    ⟨Double.isFinite s.cycle.maxBudget = true ∧ 0 < Double.number s.cycle.maxBudget,
      .budget s.cycle.maxBudget⟩,
    ⟨0 < s.cycle.evolveEvery, .interval s.cycle.evolveEvery⟩,
    ⟨Double.isFinite s.evolution.minHitRate = true ∧ 0 ≤ Double.number s.evolution.minHitRate ∧
      Double.number s.evolution.minHitRate < 1, .hitRate s.evolution.minHitRate⟩,
    ⟨Double.isFinite s.evolution.relevanceFloor = true ∧
      0 ≤ Double.number s.evolution.relevanceFloor ∧
      Double.number s.evolution.relevanceFloor ≤ 1, .relevanceFloor s.evolution.relevanceFloor⟩,
    ⟨0 < s.evolution.maxProductiveSearches, .zeroCount .productiveSearches⟩,
    ⟨0 < s.evolution.maxDeadEnds, .zeroCount .deadEnds⟩,
    ⟨0 < s.evolution.maxSharedTopics, .zeroCount .sharedTopics⟩,
    ⟨0 < s.evolution.deadEndMinTraces, .zeroCount .deadEndTraces⟩,
    ⟨Double.isFinite s.sampling.recencyPenalty = true ∧
      0 ≤ Double.number s.sampling.recencyPenalty, .recencyPenalty s.sampling.recencyPenalty⟩,
    ⟨s.logging.level ∈ logLevels, .logLevel s.logging.level⟩,
    ⟨s.logging.format ∈ logFormats, .logFormat s.logging.format⟩,
    ⟨s.logging.rotation ∈ logRotations, .logRotation s.logging.rotation⟩]

theorem not_isFinite_or_iff {x : Float} {bad : Prop} [Decidable bad] {good : Prop}
    (h : Double.isFinite x = true → (¬ bad ↔ good)) :
    (!Double.isFinite x || decide bad) = true ↔ ¬ (Double.isFinite x = true ∧ good) := by
  by_cases hx : Double.isFinite x = true
  · simp [hx, ← h hx]
  · simp [hx]

theorem not_and_iff {low high : Prop} [Decidable low] [Decidable high] {good : Prop}
    (h : low ∧ high ↔ good) : (!(decide low && decide high)) = true ↔ ¬ good := by
  rw [← h, Bool.not_eq_true', ← Bool.decide_and, decide_eq_false_iff_not]

/-- A setting is refused just if its demand is not met. -/
theorem refusals_eq (s : Settings) : s.refusals = s.demands.map Demand.refusal? := by
  have hroot : Text.isBlankText s.archive.root = true ↔
      ¬ ∃ c ∈ s.archive.root.toList, Text.isBlank c = false := by simp [Text.isBlankText]
  have hruns (n : UInt32) : decide (n = 0) = true ↔ ¬ 0 < n := by simp
  have hcount (n : UInt64) : decide (n = 0) = true ↔ ¬ 0 < n := by simp
  have hword (words : List String) (word : String) :
      (!words.contains word) = true ↔ word ∉ words := by simp
  simp only [refusals, demands, counts, List.map_cons, List.map_nil, List.cons_append,
    List.nil_append, List.cons.injEq, and_true]
  exact ⟨Demand.refusal?_eq hroot, Demand.refusal?_eq (hruns _),
    Demand.refusal?_eq (not_isFinite_or_iff Double.not_le_zero_iff), Demand.refusal?_eq (hruns _),
    Demand.refusal?_eq (not_and_iff Double.zero_le_and_lt_one_iff),
    Demand.refusal?_eq (not_and_iff Double.zero_le_and_le_one_iff),
    Demand.refusal?_eq (hcount _), Demand.refusal?_eq (hcount _), Demand.refusal?_eq (hcount _),
    Demand.refusal?_eq (hcount _),
    Demand.refusal?_eq (not_isFinite_or_iff Double.not_lt_zero_iff), Demand.refusal?_eq (hword _ _),
    Demand.refusal?_eq (hword _ _), Demand.refusal?_eq (hword _ _)⟩

theorem findSome?_refusals (s : Settings) :
    s.refusals.findSome? id = s.demands.findSome? Demand.refusal? := by
  rw [refusals_eq, List.findSome?_map]
  rfl

theorem check_eq_ok_iff (s : Settings) : s.check = .ok s ↔ ∀ d ∈ s.demands, d.met := by
  have hnone : s.check = .ok s ↔ s.refusals.findSome? id = none := by
    unfold check
    cases s.refusals.findSome? id <;> simp
  rw [hnone, findSome?_refusals, List.findSome?_eq_none_iff]
  simp only [Demand.refusal?_eq_none_iff]

theorem check_eq_error_iff (s : Settings) (e : SettingsError) : s.check = .error e ↔
    ∃ before d after, s.demands = before ++ d :: after ∧ (∀ b ∈ before, b.met) ∧ ¬ d.met ∧
      d.refusal = e := by
  have hsome : s.check = .error e ↔ s.refusals.findSome? id = some e := by
    unfold check
    cases s.refusals.findSome? id <;> simp
  rw [hsome, findSome?_refusals, List.findSome?_eq_some_iff]
  simp only [Demand.refusal?_eq_none_iff, Demand.refusal?_eq_some_iff]
  constructor
  · rintro ⟨before, d, after, hdemands, hd, hbefore⟩
    exact ⟨before, d, after, hdemands, hbefore, hd⟩
  · rintro ⟨before, d, after, hdemands, hbefore, hd⟩
    exact ⟨before, d, after, hdemands, hd, hbefore⟩

end Settings

/-! ## Logs -/

namespace Logging

theorem exists_of_isOk {α : Type} {r : Except Refusal α} (h : r.isOk = true) :
    ∃ x, r = .ok x := by
  cases r with
  | error e => cases h
  | ok x => exact ⟨x, rfl⟩

/-- The words that settings may have are read, each in the case in which they have it. -/
theorem start_of_mem {s : LoggingSettings} (hlevel : s.level ∈ logLevels)
    (hformat : s.format ∈ logFormats) (hrotation : s.rotation ∈ logRotations)
    (override : Option String) : ∃ log, start s override = .ok log := by
  have hlevels : ∀ w ∈ logLevels, (readLevel w).isOk = true := by decide +kernel
  have hformats : ∀ w ∈ logFormats, (checkFormat w).isOk = true := by decide +kernel
  have hrotations : ∀ w ∈ logRotations, (readRotation w).isOk = true := by decide +kernel
  obtain ⟨level, hlevel⟩ := exists_of_isOk (hlevels _ hlevel)
  obtain ⟨_, hformat⟩ := exists_of_isOk (hformats _ hformat)
  obtain ⟨rotation, hrotation⟩ := exists_of_isOk (hrotations _ hrotation)
  unfold start
  rw [hlevel, hformat, hrotation]
  cases s.directory <;> exact ⟨_, rfl⟩

end Logging

/-! ## Cycles -/

namespace Archive

variable {ω : Type} {publish : Publish ω} {a : Archive} {w w' : ω}

theorem addTrace_ne_zeroInterval {t : Trace} :
    a.addTrace publish t w ≠ (.error .zeroInterval, w') := by
  intro h
  rcases addTrace_cases publish a t w with
    ⟨hadd, -⟩ | ⟨v, ⟨-, hadd⟩ | ⟨-, hadd⟩ | ⟨-, hadd⟩⟩ <;> rw [h] at hadd <;> cases hadd

theorem saveStrategy_ne_zeroInterval {s : Strategy} :
    a.saveStrategy publish s w ≠ (.error .zeroInterval, w') := by
  intro h
  rcases saveStrategy_cases publish a s w with
    ⟨hsave, -⟩ | ⟨-, v, ⟨-, hsave⟩ | ⟨-, hsave⟩ | ⟨-, hsave⟩⟩ <;> rw [h] at hsave <;> cases hsave

end Archive

namespace Cycle

variable {ω : Type} {env : Surroundings ω} {evolution : EvolutionSettings}
  {settings : CycleSettings} {remaining : Nat} {number : UInt32} {spent : Float}
  {results : List RunResult} {a a' : Archive}

/-- If any runs are left, the next one is asked for. -/
theorem course_first {ending : Ending} {x y : ω × List Briefing} (hremaining : 0 < remaining)
    (h : Course env.heard evolution settings remaining number spent a x results ending a' y) :
    ∃ later, y.2 = x.2 ++ ⟨number, a.context⟩ :: later := by
  cases h with
  | limit => exact absurd hremaining (lt_irrefl 0)
  | failed hrun => exact ⟨[], (heard_enters env).fails hrun⟩
  | stalled hrun hevolve =>
    exact ⟨[], ((heard_enters env).stalls hevolve).trans ((heard_enters env).archives hrun)⟩
  | exhausted hrun hevolve hbudget =>
    have hsame := or_self_iff.1 ((heard_enters env).evolves hevolve)
    exact ⟨[], hsame.trans ((heard_enters env).archives hrun)⟩
  | next hrun hevolve hbudget rest =>
    have hsame := or_self_iff.1 ((heard_enters env).evolves hevolve)
    obtain ⟨later, -, -, hlater, -⟩ := course_told rest
    refine ⟨later, ?_⟩
    rw [hlater, hsame, (heard_enters env).archives hrun, List.append_assoc]
    rfl

theorem Fails.perceive_of_zeroInterval {w w' : ω} (h : Fails env number a w .zeroInterval w') :
    env.perceive a.context number w = (.error .zeroInterval, w') := by
  cases h with
  | perceiving hperceive => exact hperceive
  | @checking outcome _ _ hperceive hcheck =>
    rcases outcome.check_cases with ⟨hok, -⟩ | ⟨e, he, hrefuses, -⟩
    · rw [hok] at hcheck
      cases hcheck
    · rw [he] at hcheck
      cases hcheck
      cases hrefuses
  | archiving hperceive hcheck hstamp hadd => exact absurd hadd Archive.addTrace_ne_zeroInterval

/-- Of all that a cycle does, only a run can say that the interval is zero, and it is the last. -/
theorem course_zeroInterval {ending : Ending} {w w' : ω}
    (h : Course env evolution settings remaining number spent a w results ending a' w')
    (hending : ending = .aborted .zeroInterval) :
    ∃ v, env.perceive a'.context (number + .ofNat results.length) v =
      (.error .zeroInterval, w') := by
  induction h with
  | limit => cases hending
  | @failed _ number _ a w _ _ hrun =>
    cases hending
    refine ⟨w, ?_⟩
    rw [← hrun.perceive_of_zeroInterval]
    exact congrArg (env.perceive a.context · w) (UInt32.add_zero number)
  | stalled hrun hevolve =>
    cases hending
    exact absurd hevolve.refused Archive.saveStrategy_ne_zeroInterval
  | exhausted hrun hevolve hbudget => cases hending
  | next hrun hevolve hbudget rest ih =>
    rw [List.length_cons, ← add_one_add_ofNat]
    exact ih hending

end Cycle

/-- A cycle asks for its first run. If it ends as one with an interval of zero does, that is what
its last run answered. -/
def Controller.Asks {ω : Type} (env : Surroundings ω) (settings : CycleSettings) (c : Controller)
    (w : ω) : Prop :=
  ∃ report c' w' later, c.runCycle env settings w = (report, c', w') ∧
    c.runCycle env.heard settings (w, []) = (report, c', w', ⟨1, c.archive.context⟩ :: later) ∧
    (report.ending = .aborted .zeroInterval →
      ∃ v, env.perceive c'.archive.context (1 + .ofNat report.results.length) v =
        (.error .zeroInterval, w'))

theorem Controller.asks {ω : Type} (env : Surroundings ω) {settings : CycleSettings}
    (c : Controller) (w : ω) (hruns : 0 < settings.maxRuns) (hinterval : 0 < settings.evolveEvery) :
    c.Asks env settings w := by
  obtain ⟨results, ending, a, ⟨w', heard⟩, hplain, hheard, hcourse⟩ :=
    (heard_writes env).course c (w, []) (UInt32.pos_iff_ne_zero.1 hinterval)
  obtain ⟨later, hlater⟩ := Cycle.course_first (UInt32.lt_iff_toNat_lt.1 hruns) hcourse
  obtain rfl : heard = ⟨1, c.archive.context⟩ :: later := hlater
  refine ⟨_, _, w', later, hplain, hheard, fun hending => ?_⟩
  obtain ⟨v, hv⟩ := Cycle.course_zeroInterval hcourse hending
  simp only [Surroundings.heard, Prod.mk.injEq] at hv
  exact ⟨v.1, Prod.ext hv.1 hv.2.1⟩

/-! ## What accepts settings -/

/-- Settings are accepted just if they meet all demands, and otherwise refused for the first that
they do not meet. Accepted settings are not refused for their logging words when a log is started,
and a cycle asks for its first run and is not aborted for its interval. -/
theorem Settings.check_accepts (s : Settings) :
    (s.check = .ok s ↔ ∀ d ∈ s.demands, d.met) ∧
    (∀ e, s.check = .error e ↔ ∃ before d after, s.demands = before ++ d :: after ∧
      (∀ b ∈ before, b.met) ∧ ¬ d.met ∧ d.refusal = e) ∧
    (s.check = .ok s →
      (∀ override, ∃ log, Logging.start s.logging override = .ok log) ∧
      ∀ {ω : Type} (env : Surroundings ω) (c : Controller) (w : ω), c.Asks env s.cycle w) := by
  refine ⟨s.check_eq_ok_iff, s.check_eq_error_iff, fun h => ?_⟩
  have hmet := s.check_eq_ok_iff.1 h
  simp only [demands, List.forall_mem_cons, List.not_mem_nil, false_imp_iff, implies_true,
    and_true] at hmet
  obtain ⟨-, hruns, -, hinterval, -, -, -, -, -, -, -, hlevel, hformat, hrotation⟩ := hmet
  exact ⟨Logging.start_of_mem hlevel hformat hrotation,
    fun env c w => c.asks env w hruns hinterval⟩

/-- Settings with words other than the usual ones. -/
def quietSettings : Settings where
  logging := { level := "error", format := "pretty", directory := some "logs", rotation := "never" }

theorem Settings.check_accepts_quietSettings : quietSettings.check = .ok quietSettings ∧
    (∃ log, Logging.start quietSettings.logging (some "debug") = .ok log) ∧
    ∃ report c w later, Controller.runCycle steadySurroundings.heard quietSettings.cycle
      ⟨reservedArchive, {}, .idle⟩ ((vacantTree, []), []) =
        (report, c, w, ⟨1, reservedArchive.context⟩ :: later) := by
  have hcheck : quietSettings.check = .ok quietSettings := rfl
  obtain ⟨hlog, hcycle⟩ := quietSettings.check_accepts.2.2 hcheck
  obtain ⟨report, c, w, later, -, hheard, -⟩ :=
    hcycle steadySurroundings ⟨reservedArchive, {}, .idle⟩ (vacantTree, [])
  exact ⟨hcheck, hlog _, report, c, w, later, hheard⟩

/-- The budget is looked at before the interval. -/
example : Settings.check { cycle := { maxBudget := 0 / 0, evolveEvery := 0 } } =
    .error (.budget (0 / 0)) := rfl

end Exploration
