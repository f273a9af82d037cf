import Mathlib
import Exploration.Proofs.CycleCourse

/-!
# Cycles beside which a record is kept

Surroundings may write down what a cycle asks them, as long as they answer as they would without
(`Surroundings.Writes`). Then a cycle comes to the same, step by step and as a whole
(`Writes.runCycle`), so that what holds of its course with the record holds of the cycle.
-/

namespace Exploration

open Archive

variable {ω κ : Type}

/-- An answer without the record. -/
def forget {α : Type} (x : α × ω × κ) : α × ω := (x.1, x.2.1)

/-- `written` answers as `env` and keeps a record beside the world. -/
structure Surroundings.Writes (written : Surroundings (ω × κ)) (env : Surroundings ω) : Prop where
  perceive : ∀ context number x,
    forget (written.perceive context number x) = env.perceive context number x.1
  stamp : ∀ x, forget (written.stamp x) = env.stamp x.1
  publish : ∀ path text x, forget (written.publish path text x) = env.publish path text x.1

namespace Surroundings.Writes

variable {written : Surroundings (ω × κ)} {env : Surroundings ω}

section

variable (h : written.Writes env) (x : ω × κ)
include h

theorem addTrace (a : Archive) (t : Trace) :
    forget (a.addTrace written.publish t x) = a.addTrace env.publish t x.1 := by
  have hp := h.publish (traceFile t.runId :: traceDirectory a.directory) t.encode x
  unfold Archive.addTrace checkName
  by_cases hname : usableName t.runId = true
  · simp only [if_pos hname, ← hp]
    rcases written.publish (traceFile t.runId :: traceDirectory a.directory) t.encode x with
      ⟨_ | _ | _, y⟩ <;> rfl
  · simp only [if_neg hname, forget]

theorem saveStrategy (a : Archive) (s : Strategy) :
    forget (a.saveStrategy written.publish s x) = a.saveStrategy env.publish s x.1 := by
  have hp := h.publish (strategyFile s.version :: strategyDirectory a.directory) s.encode x
  unfold Archive.saveStrategy
  split_ifs
  · rfl
  · rw [← hp]
    rcases written.publish (strategyFile s.version :: strategyDirectory a.directory) s.encode x with
      ⟨_ | _ | _, y⟩ <;> rfl

theorem run (number : UInt32) (a : Archive) :
    forget (Cycle.run written number a x) = Cycle.run env number a x.1 := by
  have hp := h.perceive a.context number x
  unfold Cycle.run
  rw [← hp]
  rcases written.perceive a.context number x with ⟨e | outcome, y⟩
  · rfl
  · have hs := h.stamp y
    rcases hw : written.stamp y with ⟨stamp, z⟩
    rw [hw] at hs
    have ha := h.addTrace z a (outcome.trace a.contextVersion stamp)
    simp only [forget, hw, ← hs]
    rcases outcome.check with e | ⟨⟩
    · rfl
    · simp only [forget] at ha ⊢
      rw [← ha]
      rcases a.addTrace written.publish (outcome.trace a.contextVersion stamp) z with
        ⟨_ | _, _⟩ <;> rfl

theorem evolveIfDue (evolution : EvolutionSettings) (every : UInt32) (a : Archive) :
    forget (Cycle.evolveIfDue written evolution every a x) =
      Cycle.evolveIfDue env evolution every a x.1 := by
  have hs := h.saveStrategy x a (a.evolve evolution)
  unfold Cycle.evolveIfDue
  split_ifs
  · rfl
  · simp only [← hs]
    rcases a.saveStrategy written.publish (a.evolve evolution) x with ⟨_ | _, y⟩ <;> rfl

end

theorem runs (h : written.Writes env) (evolution : EvolutionSettings) (settings : CycleSettings) :
    ∀ (remaining : Nat) (number : UInt32) (spent : Float) (a : Archive) (x : ω × κ),
      ∃ results ending a' y,
        Cycle.runs written evolution settings remaining number spent a x =
          (results, ending, a', y) ∧
        Cycle.runs env evolution settings remaining number spent a x.1 =
          (results, ending, a', y.1)
  | 0, _, _, a, x => ⟨_, _, a, x, rfl, rfl⟩
  | remaining + 1, number, spent, a, x => by
    have hrun := h.run x number a
    unfold Cycle.runs
    rw [← hrun]
    rcases Cycle.run written number a x with ⟨e | ⟨result, a₁⟩, y⟩
    · exact ⟨_, _, _, _, rfl, rfl⟩
    · have hevolve := h.evolveIfDue y evolution settings.evolveEvery a₁
      simp only [forget] at hevolve ⊢
      rw [← hevolve]
      rcases Cycle.evolveIfDue written evolution settings.evolveEvery a₁ y with
        ⟨e | ⟨evolved, a₂⟩, z⟩
      · exact ⟨_, _, _, _, rfl, rfl⟩
      · simp only
        split_ifs
        · exact ⟨_, _, _, _, rfl, rfl⟩
        · obtain ⟨results, ending, a', u, hl, hr⟩ := h.runs evolution settings remaining
            (number + 1) (spent + result.cost) a₂ z
          rw [hl, hr]
          exact ⟨_, _, _, _, rfl, rfl⟩

/-- A record changes nothing about a cycle. -/
theorem runCycle (h : written.Writes env) (settings : CycleSettings) (c : Controller)
    (x : ω × κ) : ∃ report c' y, c.runCycle written settings x = (report, c', y) ∧
      c.runCycle env settings x.1 = (report, c', y.1) := by
  obtain ⟨results, ending, a, y, hl, hr⟩ :=
    h.runs c.evolution settings settings.maxRuns.toNat 1 0 c.archive x
  unfold Controller.runCycle
  split_ifs
  · exact ⟨_, _, _, rfl, rfl⟩
  · rw [hl, hr]
    exact ⟨_, _, _, rfl, rfl⟩

/-- A cycle that is not refused takes the same course with a record as without. -/
theorem course (h : written.Writes env) {settings : CycleSettings} (c : Controller)
    (x : ω × κ) (hinterval : settings.evolveEvery ≠ 0) : ∃ results ending a y,
      c.runCycle env settings x.1 = (⟨results, ending, a.latestStrategy?.map (·.version)⟩,
        { c with archive := a, state := ending.state }, y.1) ∧
      c.runCycle written settings x = (⟨results, ending, a.latestStrategy?.map (·.version)⟩,
          { c with archive := a, state := ending.state }, y) ∧
      Cycle.Course written c.evolution settings settings.maxRuns.toNat 1 0 c.archive x
        results ending a y := by
  obtain ⟨report, c', y, hwritten, hplain⟩ := h.runCycle settings c x
  obtain ⟨results, ending, a, z, hcycle, hcourse⟩ :=
    Controller.runCycle_course written c x hinterval
  rw [hwritten] at hcycle
  cases hcycle
  exact ⟨results, ending, a, y, hplain, hwritten, hcourse⟩

variable {a : Archive} {x y : ω × κ} {e : Failure}

theorem fails (h : written.Writes env) {number : UInt32}
    (hrun : Cycle.Fails written number a x e y) : Cycle.Fails env number a x.1 e y.1 := by
  have hperceive := h.perceive a.context number x
  cases hrun with
  | perceiving hr =>
    rw [hr] at hperceive
    exact .perceiving hperceive.symm
  | checking hr hcheck =>
    rw [hr] at hperceive
    exact .checking hperceive.symm hcheck
  | @archiving outcome stamp _ y₁ y₂ _ hr hcheck hs hadd =>
    have hstamp := h.stamp y₁
    have harchive := h.addTrace y₂ a (outcome.trace a.contextVersion stamp)
    rw [hr] at hperceive
    rw [hs] at hstamp
    rw [hadd] at harchive
    exact .archiving hperceive.symm hcheck hstamp.symm harchive.symm

theorem stalls (h : written.Writes env) {evolution : EvolutionSettings} {every : UInt32}
    (hevolve : Cycle.Stalls written evolution every a x e y) :
    Cycle.Stalls env evolution every a x.1 e y.1 := by
  refine ⟨hevolve.due, ?_⟩
  rw [← h.saveStrategy, hevolve.refused]
  rfl

end Surroundings.Writes

/-! ## What is entered -/

/-- What is entered in the record of `written`: the context and the number of each run, as `told`
does, and each file that was created, as `filed` does. -/
structure Surroundings.Enters (written : Surroundings (ω × κ)) (told : String → UInt32 → κ → κ)
    (filed : Path → String → κ → κ) : Prop where
  perceive : ∀ context number x,
    (written.perceive context number x).2.2 = told context number x.2
  stamp : ∀ x, (written.stamp x).2.2 = x.2
  publish : ∀ path text x, (written.publish path text x).2.2 =
    if (written.publish path text x).1 = .created then filed path text x.2 else x.2

namespace Surroundings.Enters

variable {written : Surroundings (ω × κ)} {told : String → UInt32 → κ → κ}
  {filed : Path → String → κ → κ} {evolution : EvolutionSettings} {number every : UInt32}
  {a a' : Archive} {x y : ω × κ} {t : Trace} {e : Failure}

theorem created (h : written.Enters told filed) {path : Path} {text : String}
    (hp : written.publish path text x = (.created, y)) : y.2 = filed path text x.2 := by
  have := h.publish path text x
  rwa [hp] at this

theorem refused (h : written.Enters told filed) {path : Path} {text : String}
    (hp : y = x ∨ ∃ p ≠ .created, written.publish path text x = (p, y)) : y.2 = x.2 := by
  rcases hp with rfl | ⟨p, hne, hp⟩
  · rfl
  · have hfile := h.publish path text x
    rwa [hp, if_neg hne] at hfile

theorem fails (h : written.Enters told filed) (hrun : Cycle.Fails written number a x e y) :
    y.2 = told a.context number x.2 := by
  have hperceive := h.perceive a.context number x
  cases hrun with
  | perceiving hr => rwa [hr] at hperceive
  | checking hr hcheck => rwa [hr] at hperceive
  | @archiving _ _ _ y₁ y₂ _ hr hcheck hs hadd =>
    have hstamp := h.stamp y₁
    rw [hr] at hperceive
    rw [hs] at hstamp
    exact (h.refused (addTrace_error hadd)).trans (hstamp.trans hperceive)

theorem archives (h : written.Enters told filed)
    (hrun : Cycle.Archives written number a x t y) :
    y.2 = filed (tracePath a.directory t) t.encode (told a.context number x.2) := by
  have hperceive := h.perceive a.context number x
  cases hrun with
  | @mk _ _ y₁ y₂ _ hr hcheck hs hp =>
    have hstamp := h.stamp y₁
    rw [hr] at hperceive
    rw [hs] at hstamp
    rw [h.created hp, ← hperceive, ← hstamp]

theorem evolves (h : written.Enters told filed) {evolved : Option UInt32}
    (hevolve : Cycle.Evolves written evolution every a x evolved a' y) : y.2 = x.2 ∨
      y.2 = filed (strategyPath a.directory (a.evolve evolution)) (a.evolve evolution).encode
        x.2 := by
  cases hevolve with
  | undue hdue => exact .inl rfl
  | due hdue hp => exact .inr (h.created hp)

theorem stalls (h : written.Enters told filed)
    (hevolve : Cycle.Stalls written evolution every a x e y) : y.2 = x.2 :=
  h.refused (saveStrategy_error hevolve.refused)

end Surroundings.Enters

end Exploration
