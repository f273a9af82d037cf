import Mathlib
import Exploration.Cycle
import Exploration.Proofs.Additions

/-!
# The course of a cycle

A run is archived or comes to nothing (`run_cases`), and the runs of a cycle follow each other
until one comes to nothing, a strategy cannot be saved, the budget is reached or no run is left.
`Course` says so step by step, and every cycle takes such a course (`course_runs`).
-/

namespace Exploration

open Archive

namespace Cycle

variable {ω : Type}

/-! ## One run -/

/-- The run came to nothing: it was not made, its outcome is of no use, or it was not archived. -/
inductive Fails (env : Surroundings ω) (number : UInt32) (a : Archive) (w : ω) :
    Failure → ω → Prop
  | perceiving {e : Failure} {w' : ω}
      (h : env.perceive a.context number w = (.error e, w')) : Fails env number a w e w'
  | checking {outcome : Outcome} {e : Failure} {w' : ω}
      (h : env.perceive a.context number w = (.ok outcome, w'))
      (hcheck : outcome.check = .error e) : Fails env number a w e w'
  | archiving {outcome : Outcome} {stamp : Stamp} {e : Failure} {w₁ w₂ w' : ω}
      (h : env.perceive a.context number w = (.ok outcome, w₁))
      (hcheck : outcome.check = .ok ()) (hstamp : env.stamp w₁ = (stamp, w₂))
      (hadd : a.addTrace env.publish (outcome.trace a.contextVersion stamp) w₂ = (.error e, w')) :
      Fails env number a w e w'

/-- The run was made, and its trace was archived. -/
inductive Archives (env : Surroundings ω) (number : UInt32) (a : Archive) (w : ω) :
    Trace → ω → Prop
  | mk {outcome : Outcome} {stamp : Stamp} {w₁ w₂ w' : ω}
      (h : env.perceive a.context number w = (.ok outcome, w₁))
      (hcheck : outcome.check = .ok ()) (hstamp : env.stamp w₁ = (stamp, w₂))
      (hpublish : env.publish (tracePath a.directory (outcome.trace a.contextVersion stamp))
        (outcome.trace a.contextVersion stamp).encode w₂ = (.created, w')) :
      Archives env number a w (outcome.trace a.contextVersion stamp) w'

theorem run_cases (env : Surroundings ω) (number : UInt32) (a : Archive) (w : ω) :
    (∃ e w', run env number a w = (.error e, w') ∧ Fails env number a w e w')
      ∨ ∃ trace w', run env number a w = (.ok (trace.result number, a.withTrace trace), w')
          ∧ Archives env number a w trace w' := by
  unfold run
  rcases h : env.perceive a.context number w with ⟨e | outcome, w₁⟩
  · exact Or.inl ⟨e, w₁, rfl, .perceiving h⟩
  · rcases hcheck : outcome.check with e | ⟨⟩
    · exact Or.inl ⟨e, w₁, by simp only [hcheck], .checking h hcheck⟩
    · rcases hstamp : env.stamp w₁ with ⟨stamp, w₂⟩
      simp only [hcheck, hstamp]
      rcases addTrace_cases env.publish a (outcome.trace a.contextVersion stamp) w₂ with
        ⟨hadd, -⟩ | ⟨w', ⟨hp, hadd⟩ | ⟨hp, hadd⟩ | ⟨hp, hadd⟩⟩
      · exact Or.inl ⟨_, _, by rw [hadd], .archiving h hcheck hstamp hadd⟩
      · exact Or.inr ⟨_, _, by rw [hadd], .mk h hcheck hstamp hp⟩
      · exact Or.inl ⟨_, _, by rw [hadd], .archiving h hcheck hstamp hadd⟩
      · exact Or.inl ⟨_, _, by rw [hadd], .archiving h hcheck hstamp hadd⟩

/-! ## The evolution after it -/

/-- No strategy is due, or the one that is due was saved. -/
inductive Evolves (env : Surroundings ω) (evolution : EvolutionSettings) (every : UInt32)
    (a : Archive) (w : ω) : Option UInt32 → Archive → ω → Prop
  | undue (h : a.runCount % every.toNat ≠ 0) : Evolves env evolution every a w none a w
  | due {w' : ω} (h : a.runCount % every.toNat = 0)
      (hpublish : env.publish (strategyPath a.directory (a.evolve evolution))
        (a.evolve evolution).encode w = (.created, w'))
      (hnew : ¬ (a.evolve evolution).version ≤ a.latestVersion) :
      Evolves env evolution every a w (some (a.evolve evolution).version)
        (a.withStrategy (a.evolve evolution)) w'

theorem Evolves.traces {env : Surroundings ω} {evolution : EvolutionSettings} {every : UInt32}
    {a a' : Archive} {w w' : ω} {evolved : Option UInt32}
    (h : Evolves env evolution every a w evolved a' w') :
    a'.traces = a.traces ∧ a'.directory = a.directory := by
  cases h <;> exact ⟨rfl, rfl⟩

/-- A strategy is due and was not saved. -/
structure Stalls (env : Surroundings ω) (evolution : EvolutionSettings) (every : UInt32)
    (a : Archive) (w : ω) (e : Failure) (w' : ω) : Prop where
  due : a.runCount % every.toNat = 0
  refused : a.saveStrategy env.publish (a.evolve evolution) w = (.error e, w')

theorem evolveIfDue_cases (env : Surroundings ω) (evolution : EvolutionSettings) (every : UInt32)
    (a : Archive) (w : ω) :
    (∃ e w', evolveIfDue env evolution every a w = (.error e, w')
        ∧ Stalls env evolution every a w e w')
      ∨ ∃ evolved a' w', evolveIfDue env evolution every a w = (.ok (evolved, a'), w')
          ∧ Evolves env evolution every a w evolved a' w' := by
  unfold evolveIfDue
  by_cases hdue : a.runCount % every.toNat = 0
  · simp only [hdue, ne_eq, not_true_eq_false, if_false]
    rcases saveStrategy_cases env.publish a (a.evolve evolution) w with
      ⟨hsave, -⟩ | ⟨hnew, w', ⟨hp, hsave⟩ | ⟨hp, hsave⟩ | ⟨hp, hsave⟩⟩
    · exact Or.inl ⟨_, _, by rw [hsave], hdue, hsave⟩
    · exact Or.inr ⟨_, _, _, by rw [hsave], .due hdue hp hnew⟩
    · exact Or.inl ⟨_, _, by rw [hsave], hdue, hsave⟩
    · exact Or.inl ⟨_, _, by rw [hsave], hdue, hsave⟩
  · exact Or.inr ⟨none, a, w, if_pos hdue, .undue hdue⟩

/-! ## All runs -/

/-- The runs from `number` on when `spent` has been spent and at most `remaining` are left: their
results, how they ended, and the archive and the world then. -/
inductive Course (env : Surroundings ω) (evolution : EvolutionSettings)
    (settings : CycleSettings) : Nat → UInt32 → Float → Archive → ω →
    List RunResult → Ending → Archive → ω → Prop
  | limit {number : UInt32} {spent : Float} {a : Archive} {w : ω} :
      Course env evolution settings 0 number spent a w [] (.stopped .runLimitReached) a w
  | failed {remaining : Nat} {number : UInt32} {spent : Float} {a : Archive} {w w' : ω}
      {e : Failure} (hrun : Fails env number a w e w') :
      Course env evolution settings (remaining + 1) number spent a w [] (.aborted e) a w'
  | stalled {remaining : Nat} {number : UInt32} {spent : Float} {a : Archive} {w w₁ w' : ω}
      {trace : Trace} {e : Failure} (hrun : Archives env number a w trace w₁)
      (hevolve : Stalls env evolution settings.evolveEvery (a.withTrace trace) w₁ e w') :
      Course env evolution settings (remaining + 1) number spent a w
        [{ trace.result number with cumulativeCost := spent + trace.cost }] (.aborted e)
        (a.withTrace trace) w'
  | exhausted {remaining : Nat} {number : UInt32} {spent : Float} {a a' : Archive} {w w₁ w' : ω}
      {trace : Trace} {evolved : Option UInt32} (hrun : Archives env number a w trace w₁)
      (hevolve : Evolves env evolution settings.evolveEvery (a.withTrace trace) w₁ evolved a' w')
      (hbudget : settings.maxBudget ≤ spent + trace.cost) :
      Course env evolution settings (remaining + 1) number spent a w
        [{ trace.result number with
          cumulativeCost := spent + trace.cost, evolvedVersion := evolved }]
        (.stopped .budgetExhausted) a' w'
  | next {remaining : Nat} {number : UInt32} {spent : Float} {a a₁ a' : Archive}
      {w w₁ w₂ w' : ω} {trace : Trace} {evolved : Option UInt32} {results : List RunResult}
      {ending : Ending} (hrun : Archives env number a w trace w₁)
      (hevolve : Evolves env evolution settings.evolveEvery (a.withTrace trace) w₁ evolved a₁ w₂)
      (hbudget : ¬ settings.maxBudget ≤ spent + trace.cost)
      (rest : Course env evolution settings remaining (number + 1) (spent + trace.cost) a₁ w₂
        results ending a' w') :
      Course env evolution settings (remaining + 1) number spent a w
        ({ trace.result number with
          cumulativeCost := spent + trace.cost, evolvedVersion := evolved } :: results)
        ending a' w'

theorem course_runs (env : Surroundings ω) (evolution : EvolutionSettings)
    (settings : CycleSettings) : ∀ (remaining : Nat) (number : UInt32) (spent : Float)
    (a : Archive) (w : ω), ∃ results ending a' w',
      runs env evolution settings remaining number spent a w = (results, ending, a', w') ∧
        Course env evolution settings remaining number spent a w results ending a' w'
  | 0, number, spent, a, w => ⟨_, _, _, _, rfl, .limit⟩
  | remaining + 1, number, spent, a, w => by
    unfold runs
    rcases run_cases env number a w with ⟨e, w', hrun, hfails⟩ | ⟨trace, w₁, hrun, harchives⟩
    · rw [hrun]
      exact ⟨_, _, _, _, rfl, .failed hfails⟩
    · rw [hrun]
      rcases evolveIfDue_cases env evolution settings.evolveEvery (a.withTrace trace) w₁ with
        ⟨e, w', hevolve, hstalls⟩ | ⟨evolved, a₁, w₂, hevolve, hevolves⟩
      · simp only [hevolve]
        exact ⟨_, _, _, _, rfl, .stalled harchives hstalls⟩
      · simp only [hevolve]
        by_cases hbudget : settings.maxBudget ≤ spent + trace.cost
        · refine ⟨_, _, _, _, if_pos hbudget, .exhausted harchives hevolves hbudget⟩
        · obtain ⟨results, ending, a', w', hruns, hcourse⟩ :=
            course_runs env evolution settings remaining (number + 1) (spent + trace.cost) a₁ w₂
          refine ⟨_, _, _, _, (if_neg hbudget).trans ?_, .next harchives hevolves hbudget hcourse⟩
          exact congrArg (fun x : List RunResult × Ending × Archive × ω => (_ :: x.1, x.2)) hruns

end Cycle

namespace Controller

variable {ω : Type}

theorem runCycle_course (env : Surroundings ω) {settings : CycleSettings} (c : Controller) (w : ω)
    (h : settings.evolveEvery ≠ 0) : ∃ results ending a w',
      c.runCycle env settings w = (⟨results, ending, a.latestStrategy?.map (·.version)⟩,
        { c with archive := a, state := ending.state }, w') ∧
      Cycle.Course env c.evolution settings settings.maxRuns.toNat 1 0 c.archive w
        results ending a w' := by
  obtain ⟨results, ending, a, w', hruns, hcourse⟩ :=
    Cycle.course_runs env c.evolution settings settings.maxRuns.toNat 1 0 c.archive w
  refine ⟨results, ending, a, w', ?_, hcourse⟩
  simp only [runCycle, if_neg h, hruns]

theorem runCycle_zero (env : Surroundings ω) {settings : CycleSettings} (c : Controller) (w : ω)
    (h : settings.evolveEvery = 0) : c.runCycle env settings w =
      (⟨[], .aborted .zeroInterval, c.archive.latestStrategy?.map (·.version)⟩,
        { c with state := .aborted }, w) := by
  simp only [runCycle, if_pos h]
  rfl

end Controller

end Exploration
