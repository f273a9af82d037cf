import Mathlib
import Exploration.Proofs.CycleLedger
import Exploration.Proofs.Loading

/-!
# When a cycle stops

A cycle asks for its runs one by one, starting at 1. It stops at the run that reaches the budget or
is the last it may make, and is aborted by the first failure, so that no run is asked for after any
of these. How a course ends (`Ends`) says how many were asked for, and one more turn in front
changes nothing about that (`Ends.cons`, `course_halts`).
-/

namespace Exploration

variable {ω : Type}

/-! ## Numbers -/

/-- The `k` numbers from `number` on. -/
def numbersFrom (number : UInt32) (k : Nat) : List UInt32 :=
  (List.range k).map fun i => number + .ofNat i

theorem add_one_add_ofNat (number : UInt32) (i : Nat) :
    number + 1 + UInt32.ofNat i = number + UInt32.ofNat (i + 1) := by
  rw [UInt32.add_assoc, UInt32.add_comm 1, UInt32.ofNat_add]
  rfl

theorem numbersFrom_succ (number : UInt32) (k : Nat) :
    numbersFrom number (k + 1) = number :: numbersFrom (number + 1) k := by
  unfold numbersFrom
  rw [List.range_succ_eq_map, List.map_cons, List.map_map]
  refine congrArg₂ List.cons (UInt32.add_zero number) (List.map_congr_left fun i _ => ?_)
  exact (add_one_add_ofNat number i).symm

theorem toNat_numbersFrom_one {k : Nat} (h : k < UInt32.size) :
    (numbersFrom 1 k).map (·.toNat) = List.range' 1 k := by
  unfold numbersFrom
  rw [List.map_map, List.range'_eq_map_range]
  refine List.map_congr_left fun i hi => ?_
  have hi := List.mem_range.1 hi
  simp only [Function.comp, UInt32.toNat_add, UInt32.toNat_ofNat', UInt32.toNat_one]
  unfold UInt32.size at h
  omega

/-! ## The end of a course -/

/-- What has been spent after the first `i` runs, when `spent` had been spent before. -/
def spentAfter (spent : Float) (results : List RunResult) (i : Nat) : Float :=
  ((results.take i).map (·.cost)).foldl (· + ·) spent

theorem spentAfter_cons (spent : Float) (r : RunResult) (results : List RunResult) (i : Nat) :
    spentAfter spent (r :: results) (i + 1) = spentAfter (spent + r.cost) results i := rfl

namespace Cycle

/-- How runs with these results ended, and for how many of them the surroundings were asked. -/
inductive Ends (env : Surroundings ω) (evolution : EvolutionSettings) (settings : CycleSettings)
    (remaining : Nat) (number : UInt32) (spent : Float) (results : List RunResult) (a : Archive)
    (w : ω) : Ending → Nat → Prop
  | limit (hall : results.length = remaining)
      (hbudget : results ≠ [] → ¬ settings.maxBudget ≤ spentAfter spent results results.length) :
      Ends env evolution settings remaining number spent results a w
        (.stopped .runLimitReached) results.length
  | exhausted (hsome : results ≠ [])
      (hbudget : settings.maxBudget ≤ spentAfter spent results results.length) :
      Ends env evolution settings remaining number spent results a w
        (.stopped .budgetExhausted) results.length
  | failed {e : Failure} {v : ω} (hroom : results.length < remaining)
      (hbudget : results ≠ [] → ¬ settings.maxBudget ≤ spentAfter spent results results.length)
      (hrun : Fails env (number + .ofNat results.length) a v e w) :
      Ends env evolution settings remaining number spent results a w (.aborted e)
        (results.length + 1)
  | stalled {e : Failure} {v : ω} {last : RunResult} (hlast : results.getLast? = some last)
      (hversion : last.evolvedVersion = none)
      (hevolve : Stalls env evolution settings.evolveEvery a v e w) :
      Ends env evolution settings remaining number spent results a w (.aborted e) results.length

variable {env : Surroundings ω} {evolution : EvolutionSettings} {settings : CycleSettings}
  {remaining : Nat} {number : UInt32} {spent : Float} {results : List RunResult} {a a' : Archive}
  {ending : Ending} {asked : Nat}

/-- A run before the others does not change how they end. -/
theorem Ends.cons {w : ω} {r : RunResult}
    (h : Ends env evolution settings remaining (number + 1) (spent + r.cost) results a w ending
      asked) (hbudget : ¬ settings.maxBudget ≤ spent + r.cost) :
    Ends env evolution settings (remaining + 1) number spent (r :: results) a w ending
      (asked + 1) := by
  have hunspent : (results ≠ [] → ¬ settings.maxBudget ≤
      spentAfter (spent + r.cost) results results.length) →
      ¬ settings.maxBudget ≤ spentAfter spent (r :: results) (r :: results).length := by
    intro hrest
    rcases results with _ | ⟨s, results⟩
    · exact hbudget
    · exact hrest (List.cons_ne_nil _ _)
  cases h with
  | limit hall hrest => exact .limit (by simp [hall]) fun _ => hunspent hrest
  | exhausted hsome hreached => exact .exhausted (List.cons_ne_nil _ _) hreached
  | failed hroom hrest hrun =>
    rw [add_one_add_ofNat] at hrun
    exact .failed (by simpa using hroom) (fun _ => hunspent hrest) hrun
  | stalled hlast hversion hevolve =>
    refine .stalled ?_ hversion hevolve
    rw [List.getLast?_cons, hlast, Option.getD_some]

/-- Where runs with these results came to an end, when `asked` of them had been asked for: after no
run but the last had the budget been reached. -/
structure Halts (env : Surroundings ω) (evolution : EvolutionSettings) (settings : CycleSettings)
    (remaining : Nat) (number : UInt32) (spent : Float) (results : List RunResult) (a : Archive)
    (w : ω) (ending : Ending) (asked : Nat) : Prop where
  length_le : results.length ≤ remaining
  unspent : ∀ i, 0 < i → i < results.length → ¬ settings.maxBudget ≤ spentAfter spent results i
  ends : Ends env evolution settings remaining number spent results a w ending asked

theorem course_halts {x y : ω × Ledger}
    (h : Course env.recorded evolution settings remaining number spent a x results ending a' y) :
    ∃ asked, Halts env.recorded evolution settings remaining number spent results a' y ending
      asked ∧ y.2.runs = x.2.runs ++ numbersFrom number asked := by
  induction h with
  | limit => exact ⟨0, ⟨le_rfl, by simp, .limit rfl (by simp)⟩, by simp [numbersFrom]⟩
  | @failed _ number _ _ x _ _ hrun =>
    have hnumber : number + UInt32.ofNat 0 = number := UInt32.add_zero number
    refine ⟨1, ⟨by simp, by simp, .failed (by simp) (by simp) (hnumber.symm ▸ hrun)⟩, ?_⟩
    rw [ledger_of_fails hrun]
    simp [Ledger.withRun, numbersFrom]
  | stalled hrun hevolve =>
    refine ⟨1, ⟨by simp, by simp; omega, .stalled rfl rfl hevolve⟩, ?_⟩
    rw [ledger_of_stalls hevolve, ledger_of_archives hrun]
    simp [Ledger.withRun, Ledger.withFile, numbersFrom]
  | exhausted hrun hevolve hbudget =>
    refine ⟨1, ⟨by simp, by simp; omega, .exhausted (by simp) hbudget⟩, ?_⟩
    rw [(ledger_of_evolves hevolve).1, ledger_of_archives hrun]
    simp [Ledger.withRun, Ledger.withFile, numbersFrom]
  | next hrun hevolve hbudget rest ih =>
    obtain ⟨asked, ⟨hlength, hunspent, hends⟩, hruns⟩ := ih
    refine ⟨asked + 1, ⟨by simpa using hlength, fun i hpos hi => ?_, .cons ?_ hbudget⟩, ?_⟩
    · rcases i with _ | _ | i
      · omega
      · exact hbudget
      · rw [spentAfter_cons]
        rw [List.length_cons] at hi
        exact hunspent (i + 1) (by omega) (by omega)
    · exact hends
    · rw [hruns, (ledger_of_evolves hevolve).1, ledger_of_archives hrun, numbersFrom_succ]
      simp [Ledger.withRun, Ledger.withFile]

theorem Ends.of_recorded {x : ω × Ledger}
    (h : Ends env.recorded evolution settings remaining number spent results a x ending asked) :
    Ends env evolution settings remaining number spent results a x.1 ending asked := by
  cases h with
  | limit hall hbudget => exact .limit hall hbudget
  | exhausted hsome hbudget => exact .exhausted hsome hbudget
  | failed hroom hbudget hrun => exact .failed hroom hbudget (fails_of_recorded hrun)
  | stalled hlast hversion hevolve => exact .stalled hlast hversion (stalls_of_recorded hevolve)

/-- Only the runs that have results were asked for, and the one that failed. -/
theorem Halts.asked_le {w : ω} (h : Halts env evolution settings remaining number spent results a w
    ending asked) : asked ≤ remaining := by
  have hlength := h.length_le
  cases h.ends <;> omega

end Cycle

/-! ## Cycles -/

/-- A cycle with an interval of zero has been refused: nothing has happened in it. -/
structure Controller.Refuses (c : Controller) (w : ω) (report : CycleReport) (c' : Controller)
    (w' : ω) (ledger : Ledger) : Prop where
  ending : report.ending = .aborted .zeroInterval
  results : report.results = []
  state : c'.state = .aborted
  archive : c'.archive = c.archive
  world : w' = w
  unasked : ledger = {}

/-- The state in which a cycle that ended so leaves its controller. -/
structure Ending.Leaves (ending : Ending) (state : CycleState) : Prop where
  stopped : ∀ reason, ending = .stopped reason → state = .stopped reason
  aborted : ∀ e, ending = .aborted e → state = .aborted

theorem Ending.leaves_state (ending : Ending) : ending.Leaves ending.state where
  stopped := by
    rintro reason rfl
    rfl
  aborted := by
    rintro e rfl
    rfl

/-- The runs that were asked for are those from 1 on, as many as the end of the cycle says. -/
theorem runCycle_stops (env : Surroundings ω) (settings : CycleSettings) (c : Controller) (w : ω) :
    ∃ report c' w' ledger,
      c.runCycle env settings w = (report, c', w') ∧
      c.runCycle env.recorded settings (w, {}) = (report, c', w', ledger) ∧
      (settings.evolveEvery = 0 → c.Refuses w report c' w' ledger) ∧
      (settings.evolveEvery ≠ 0 → ∃ asked,
        Cycle.Halts env c.evolution settings settings.maxRuns.toNat 1 0 report.results c'.archive
          w' report.ending asked ∧
        ledger.runs.map (·.toNat) = List.range' 1 asked ∧ report.ending.Leaves c'.state) := by
  by_cases hinterval : settings.evolveEvery = 0
  · exact ⟨_, _, w, {}, Controller.runCycle_zero _ _ _ hinterval,
      Controller.runCycle_zero _ _ _ hinterval, fun _ => ⟨rfl, rfl, rfl, rfl, rfl, rfl⟩,
      fun h => absurd hinterval h⟩
  · obtain ⟨results, ending, a, w', ledger, hplain, hrecorded, hcourse⟩ :=
      runCycle_recorded_course env c w hinterval
    obtain ⟨asked, hhalts, hruns⟩ := Cycle.course_halts hcourse
    have hasked : asked < UInt32.size :=
      lt_of_le_of_lt hhalts.asked_le settings.maxRuns.toNat_lt
    refine ⟨_, _, w', ledger, hplain, hrecorded, fun h => absurd h hinterval, fun _ => ⟨asked,
      ⟨hhalts.length_le, hhalts.unspent, hhalts.ends.of_recorded⟩, ?_, ending.leaves_state⟩⟩
    rw [hruns, List.nil_append, toNat_numbersFrom_one hasked]

/-- Surroundings in which every run goes well and costs one half, on a tree. The run ids are given
in advance. -/
def steadySurroundings : Surroundings (FileTree × List String) where
  perceive _ _ w := (.ok ⟨"", 0.5, 0.5, [], [], []⟩, w)
  stamp w := (⟨w.2.headD "", Time.epoch, 0⟩, w.1, w.2.tail)
  publish path text w :=
    let r := FileTree.publish path text w.1
    (r.1, r.2, w.2)

/-- Five runs are allowed; the second reaches the budget. -/
theorem runCycle_stops_at_budget :
    let x := Controller.runCycle steadySurroundings.recorded ⟨5, 0.75, 1⟩
      ⟨vacantArchive, {}, .idle⟩ ((vacantTree, ["dawn", "dusk"]), {})
    x.1.ending = .stopped .budgetExhausted ∧ x.2.2.2.runs.map (·.toNat) = [1, 2] ∧
      0.75 ≤ spentAfter 0 x.1.results 2 ∧ x.2.1.state = .stopped .budgetExhausted := by
  intro x
  have hending : x.1.ending = .stopped .budgetExhausted := rfl
  have hlength : x.1.results.length = 2 := rfl
  obtain ⟨report, c', w', ledger, -, hx, -, hinterval⟩ := runCycle_stops steadySurroundings
    ⟨5, 0.75, 1⟩ ⟨vacantArchive, {}, .idle⟩ (vacantTree, ["dawn", "dusk"])
  rw [show x = (report, c', w', ledger) from hx] at hending hlength ⊢
  obtain ⟨asked, hhalts, hruns, hleaves⟩ := hinterval (by decide)
  have hends := hhalts.ends
  simp only at hending hlength
  rw [hending] at hends
  cases hends with
  | exhausted hsome hbudget =>
    rw [hlength] at hruns hbudget
    exact ⟨hending, hruns, hbudget, hleaves.stopped _ hending⟩

end Exploration
