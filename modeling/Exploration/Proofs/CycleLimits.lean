import Mathlib
import Exploration.Proofs.CycleOutcomes
import Exploration.Proofs.DoubleSum
import Exploration.Proofs.OpenArchives

/-!
# The limits of a cycle

A run and the evolution after it know nothing of the limits of their cycle (`turn`). These only say
where the cycle ends, so that a cycle under higher limits begins with the same runs
(`runs_within`). One that is aborted is aborted at the same place under higher limits.
-/

namespace Exploration

open Archive

variable {ω : Type}

/-- The result with the cost of its run added to what was spent before. -/
def RunResult.after (spent : Float) (r : RunResult) : RunResult :=
  { r with cumulativeCost := spent + r.cost }

namespace Cycle

/-! ## One turn -/

/-- What a run and the evolution after it come to. -/
inductive Turn (ω : Type) where
  | failed (cause : Failure) (w : ω)
  /-- The run was archived, and the strategy after it was not saved. -/
  | stalled (cause : Failure) (result : RunResult) (a : Archive) (w : ω)
  | completed (result : RunResult) (a : Archive) (w : ω)

def turn (env : Surroundings ω) (evolution : EvolutionSettings) (every number : UInt32)
    (a : Archive) (w : ω) : Turn ω :=
  match run env number a w with
  | (.error e, w) => .failed e w
  | (.ok (result, a), w) =>
    match evolveIfDue env evolution every a w with
    | (.error e, w) => .stalled e result a w
    | (.ok (evolved, a), w) => .completed { result with evolvedVersion := evolved } a w

/-- The limits are looked at only after a turn that went well. -/
theorem runs_turn (env : Surroundings ω) (evolution : EvolutionSettings)
    (settings : CycleSettings) (remaining : Nat) (number : UInt32) (spent : Float) (a : Archive)
    (w : ω) : runs env evolution settings (remaining + 1) number spent a w =
      match turn env evolution settings.evolveEvery number a w with
      | .failed e w => ([], .aborted e, a, w)
      | .stalled e r a w => ([r.after spent], .aborted e, a, w)
      | .completed r a w =>
        if settings.maxBudget ≤ spent + r.cost then
          ([r.after spent], .stopped .budgetExhausted, a, w)
        else
          let rest := runs env evolution settings remaining (number + 1) (spent + r.cost) a w
          (r.after spent :: rest.1, rest.2) := by
  rw [runs, turn]
  rcases run env number a w with ⟨e | ⟨r, a₁⟩, w₁⟩
  · rfl
  · simp only
    rcases evolveIfDue env evolution settings.evolveEvery a₁ w₁ with ⟨e | ⟨evolved, a₂⟩, w₂⟩ <;>
      rfl

/-! ## What an archive becomes -/

theorem Evolves.becomes {env : Surroundings ω} {evolution : EvolutionSettings} {every : UInt32}
    {a a' : Archive} {w w' : ω} {evolved : Option UInt32}
    (h : Evolves env evolution every a w evolved a' w') : a.Becomes a' := by
  cases h with
  | undue => exact .refl a
  | due _ _ hnew => exact becomes_withStrategy hnew

theorem Course.becomes {env : Surroundings ω} {evolution : EvolutionSettings}
    {settings : CycleSettings} {remaining : Nat} {number : UInt32} {spent : Float}
    {a a' : Archive} {w w' : ω} {results : List RunResult} {ending : Ending}
    (h : Course env evolution settings remaining number spent a w results ending a' w') :
    a.Becomes a' := by
  induction h with
  | limit => exact .refl _
  | failed => exact .refl _
  | stalled => exact becomes_withTrace _ _
  | exhausted _ hevolve => exact (becomes_withTrace _ _).trans hevolve.becomes
  | next _ hevolve _ _ ih => exact ((becomes_withTrace _ _).trans hevolve.becomes).trans ih

theorem runs_becomes (env : Surroundings ω) (evolution : EvolutionSettings)
    (settings : CycleSettings) (remaining : Nat) (number : UInt32) (spent : Float) (a : Archive)
    (w : ω) : a.Becomes (runs env evolution settings remaining number spent a w).2.2.1 := by
  obtain ⟨results, ending, a', w', hruns, hcourse⟩ :=
    course_runs env evolution settings remaining number spent a w
  rw [hruns]
  exact hcourse.becomes

/-! ## Higher limits -/

/-- Runs that come to `x` are the first of those that come to `y`. -/
structure Within (x y : List RunResult × Ending × Archive × ω) : Prop where
  results : x.1 <+: y.1
  archive : x.2.2.1.Becomes y.2.2.1
  aborted : ∀ e, x.2.1 = .aborted e → y = x

theorem Within.refl (x : List RunResult × Ending × Archive × ω) : Within x x :=
  ⟨List.prefix_rfl, .refl _, fun _ _ => rfl⟩

/-- One more run before both. -/
theorem Within.cons {x y : List RunResult × Ending × Archive × ω} (h : Within x y)
    (r : RunResult) : Within (r :: x.1, x.2) (r :: y.1, y.2) where
  results := (List.prefix_cons_inj r).2 h.results
  archive := h.archive
  aborted e he := by rw [h.aborted e he]

theorem runs_within (env : Surroundings ω) (evolution : EvolutionSettings)
    (settings higher : CycleSettings) (hevery : settings.evolveEvery = higher.evolveEvery)
    (hbudget : settings.maxBudget ≤ higher.maxBudget) : ∀ {remaining more : Nat},
    remaining ≤ more → ∀ (number : UInt32) (spent : Float) (a : Archive) (w : ω),
      Within (runs env evolution settings remaining number spent a w)
        (runs env evolution higher more number spent a w)
  | 0, _, _, _, _, _, _ => ⟨List.nil_prefix, runs_becomes _ _ _ _ _ _ _ _, nofun⟩
  | remaining + 1, more + 1, h, number, spent, a, w => by
    rw [runs_turn, runs_turn, hevery]
    rcases turn env evolution higher.evolveEvery number a w with
      ⟨e, w'⟩ | ⟨e, r, a', w'⟩ | ⟨r, a', w'⟩
    · exact .refl _
    · exact .refl _
    · by_cases hreached : higher.maxBudget ≤ spent + r.cost
      · -- the lower budget is reached as well
        simp only [if_pos hreached, if_pos (Double.le_trans hbudget hreached)]
        exact .refl _
      · simp only [if_neg hreached]
        split_ifs
        · exact ⟨(List.prefix_cons_inj _).2 List.nil_prefix, runs_becomes _ _ _ _ _ _ _ _, nofun⟩
        · exact (runs_within env evolution settings higher hevery hbudget
            (Nat.le_of_succ_le_succ h) (number + 1) (spent + r.cost) a' w').cons _

end Cycle

/-- With more runs allowed and a higher budget a cycle begins with the same runs, and it adds to the
same archive. A cycle that is aborted is the same under both. -/
theorem runCycle_within (env : Surroundings ω) (c : Controller) (w : ω) {few many : UInt32}
    {low high : Float} (every : UInt32) (hruns : few ≤ many) (hbudget : low ≤ high) :
    let x := c.runCycle env ⟨few, low, every⟩ w
    let y := c.runCycle env ⟨many, high, every⟩ w
    x.1.results <+: y.1.results ∧ x.2.1.archive.Becomes y.2.1.archive ∧
      ∀ e, x.1.ending = .aborted e → y = x := by
  intro x y
  by_cases hinterval : every = 0
  · have hx : x = y :=
      (c.runCycle_zero env w hinterval).trans (c.runCycle_zero env w hinterval).symm
    rw [hx]
    exact ⟨List.prefix_rfl, .refl _, fun _ _ => rfl⟩
  have h := Cycle.runs_within env c.evolution ⟨few, low, every⟩ ⟨many, high, every⟩ rfl hbudget
    (UInt32.le_iff_toNat_le.1 hruns) 1 0 c.archive w
  rcases hfew : Cycle.runs env c.evolution ⟨few, low, every⟩ few.toNat 1 0 c.archive w with
    ⟨results, ending, a, w'⟩
  rcases hmany : Cycle.runs env c.evolution ⟨many, high, every⟩ many.toNat 1 0 c.archive w with
    ⟨results', ending', a', w''⟩
  rw [hfew, hmany] at h
  have hx := Controller.runCycle_of_runs hinterval hfew
  have hy := Controller.runCycle_of_runs hinterval hmany
  rw [show x = _ from hx, show y = _ from hy]
  refine ⟨h.results, h.archive, fun e he => ?_⟩
  cases h.aborted e he
  rfl

/-- The second run reaches the lower budget. With the higher one a third is archived, and the trace
of the fourth is refused. -/
theorem runCycle_within_past_budget :
    let x := Controller.runCycle steadySurroundings ⟨3, 1, 2⟩ ⟨vacantArchive, {}, .idle⟩
      (vacantTree, ["dawn", "noon", "dusk", "dusk"])
    let y := Controller.runCycle steadySurroundings ⟨5, 9, 2⟩ ⟨vacantArchive, {}, .idle⟩
      (vacantTree, ["dawn", "noon", "dusk", "dusk"])
    x.1.ending = .stopped .budgetExhausted ∧ y.1.ending = .aborted (.duplicateTrace "dusk") ∧
      x.1.results = y.1.results.take 2 ∧ x.2.1.archive.Becomes y.2.1.archive := by
  intro x y
  obtain ⟨hresults, harchive, -⟩ := runCycle_within steadySurroundings ⟨vacantArchive, {}, .idle⟩
    (vacantTree, ["dawn", "noon", "dusk", "dusk"]) 2 (show (3 : UInt32) ≤ 5 by decide)
    (show (1 : Float) ≤ 9 by decide)
  have hlength : x.1.results.length = 2 := rfl
  exact ⟨rfl, rfl, by rw [← hlength]; exact List.prefix_iff_eq_take.1 hresults, harchive⟩

end Exploration
