import Mathlib
import Exploration.Proofs.CycleContexts
import Exploration.Proofs.CycleLimits

/-!
# A cycle in two parts

From run to run a cycle carries the archive, the number of the run and what has been spent. The
number matters to nothing where the surroundings do not look at it (`Surroundings.Numberless`), and
what has been spent only to the budget. So a cycle that makes all its runs can be cut after any of
them (`runs_split`), and the runs behind the cut are those of a second cycle, with run numbers and
cumulative costs of its own (`runs_restarted`).
-/

namespace Exploration

open Archive

variable {ω : Type}

/-! ## Surroundings that do not look at the number -/

/-- Whatever number a run has, it is made with the same outcome. What may be different in the world
afterwards is nothing that matters: worlds that are the `Same` go along with a cycle alike. -/
structure Surroundings.Numberless (env : Surroundings ω) (Same : ω → ω → Prop) : Prop where
  refl : ∀ w, Same w w
  perceive : ∀ {v w v' : ω} {context : String} {m : UInt32} (n : UInt32) {o : Outcome},
    Same v w → env.perceive context m v = (.ok o, v') →
      ∃ w', env.perceive context n w = (.ok o, w') ∧ Same v' w'
  stamp : ∀ {v w v' : ω} {stamp : Stamp}, Same v w → env.stamp v = (stamp, v') →
    ∃ w', env.stamp w = (stamp, w') ∧ Same v' w'
  publish : ∀ {v w v' : ω} {path : Path} {text : String} {p : Publication}, Same v w →
    env.publish path text v = (p, v') → ∃ w', env.publish path text w = (p, w') ∧ Same v' w'

/-- Runs that are read from a script beside the world. -/
def Surroundings.scripted (env : Surroundings ω) : Surroundings (Script × ω) where
  perceive context number x :=
    let r := x.1.perceive context number
    (r.1, r.2, x.2)
  stamp x :=
    let r := env.stamp x.2
    (r.1, x.1, r.2)
  publish path text x :=
    let r := env.publish path text x.2
    (r.1, x.1, r.2)

/-- Scripts that were asked for the same runs up to their numbers and have the same steps left. -/
structure Script.Alike (s t : Script) : Prop where
  steps : s.steps = t.steps
  fallback : s.fallback = t.fallback
  contexts : s.calls.map (·.context) = t.calls.map (·.context)

/-- A script gives the number of a run only where it has no outcome for it. -/
theorem Script.Alike.perceive {s t s' : Script} {context : String} {m : UInt32} (n : UInt32)
    {o : Outcome} (h : s.Alike t) (hs : s.perceive context m = (.ok o, s')) :
    ∃ t', t.perceive context n = (.ok o, t') ∧ s'.Alike t' := by
  obtain ⟨hsteps, hfallback, hcontexts⟩ := h
  obtain ⟨steps, fallback, calls⟩ := s
  obtain ⟨_, _, calls'⟩ := t
  obtain rfl : steps = _ := hsteps
  obtain rfl : fallback = _ := hfallback
  have hcalls : (calls ++ [Call.mk m context]).map (·.context) =
      (calls' ++ [Call.mk n context]).map (·.context) := by
    simpa using hcontexts
  unfold Script.perceive at hs ⊢
  rcases steps with _ | ⟨_ | _, steps⟩
  · rcases fallback with _ | outcome
    · cases hs
    · cases hs
      exact ⟨_, rfl, rfl, rfl, hcalls⟩
  · cases hs
    exact ⟨_, rfl, rfl, rfl, hcalls⟩
  · cases hs

theorem scripted_numberless (env : Surroundings ω) :
    env.scripted.Numberless fun x y => x.1.Alike y.1 ∧ x.2 = y.2 where
  refl x := ⟨⟨rfl, rfl, rfl⟩, rfl⟩
  perceive := by
    rintro ⟨s, u⟩ ⟨t, _⟩ ⟨s', u'⟩ context m n o ⟨halike, rfl⟩ h
    obtain ⟨houtcome, hs, rfl⟩ : (s.perceive context m).1 = .ok o ∧
        (s.perceive context m).2 = s' ∧ u = u' := by
      simpa [Surroundings.scripted] using h
    obtain ⟨t', ht, halike'⟩ := halike.perceive n (Prod.ext houtcome hs)
    exact ⟨(t', u), by simp [Surroundings.scripted, ht], halike', rfl⟩
  stamp := by
    rintro ⟨s, u⟩ ⟨t, _⟩ _ stamp ⟨halike, rfl⟩ h
    cases h
    exact ⟨_, rfl, halike, rfl⟩
  publish := by
    rintro ⟨s, u⟩ ⟨t, _⟩ _ path text p ⟨halike, rfl⟩ h
    cases h
    exact ⟨_, rfl, halike, rfl⟩

namespace Surroundings.Numberless

variable {env : Surroundings ω} {Same : ω → ω → Prop} {v w v' : ω} {a a' : Archive}

/-- The briefings are the same up to the numbers. -/
theorem heard (h : env.Numberless Same) : env.heard.Numberless fun x y =>
    Same x.1 y.1 ∧ x.2.map (·.context) = y.2.map (·.context) where
  refl x := ⟨h.refl x.1, rfl⟩
  perceive := by
    rintro ⟨v, before⟩ ⟨w, others⟩ ⟨v', after⟩ context m n o ⟨hsame, hbefore⟩ hp
    obtain ⟨ho, hv, rfl⟩ : (env.perceive context m v).1 = .ok o ∧
        (env.perceive context m v).2 = v' ∧ before ++ [⟨m, context⟩] = after := by
      simpa [Surroundings.heard] using hp
    obtain ⟨w', hw, hsame'⟩ := h.perceive n hsame (Prod.ext ho hv)
    refine ⟨(w', others ++ [⟨n, context⟩]), by simp [Surroundings.heard, hw], hsame', ?_⟩
    simpa using hbefore
  stamp := by
    rintro ⟨v, before⟩ ⟨w, others⟩ ⟨v', _⟩ stamp ⟨hsame, hbefore⟩ hs
    obtain ⟨hstamp, hv, rfl⟩ : (env.stamp v).1 = stamp ∧ (env.stamp v).2 = v' ∧ before = _ := by
      simpa [Surroundings.heard] using hs
    obtain ⟨w', hw, hsame'⟩ := h.stamp hsame (Prod.ext hstamp hv)
    exact ⟨(w', others), by simp [Surroundings.heard, hw], hsame', hbefore⟩
  publish := by
    rintro ⟨v, before⟩ ⟨w, others⟩ ⟨v', _⟩ path text p ⟨hsame, hbefore⟩ hp
    obtain ⟨hp', hv, rfl⟩ : (env.publish path text v).1 = p ∧
        (env.publish path text v).2 = v' ∧ before = _ := by
      simpa [Surroundings.heard] using hp
    obtain ⟨w', hw, hsame'⟩ := h.publish hsame (Prod.ext hp' hv)
    exact ⟨(w', others), by simp [Surroundings.heard, hw], hsame', hbefore⟩

/-! ## One turn -/

theorem ask (h : env.Numberless Same) (addition : Addition) (hsame : Same v w)
    (hask : a.ask env.publish addition v = (.ok a', v')) :
    ∃ w', a.ask env.publish addition w = (.ok a', w') ∧ Same v' w' := by
  rw [ask_eq] at hask ⊢
  cases hown : addition.unasked? a with
  | some e =>
    simp only [hown] at hask
    cases hask
  | none =>
    rcases hp : env.publish (addition.path a.directory) addition.text v with ⟨p, v₁⟩
    obtain ⟨w₁, hw, hsame₁⟩ := h.publish hsame hp
    simp only [hown, hp] at hask
    simp only [hw]
    cases p <;> cases hask
    exact ⟨w₁, rfl, hsame₁⟩

theorem run (h : env.Numberless Same) {m : UInt32} (n : UInt32) {r : RunResult}
    (hsame : Same v w) (hrun : Cycle.run env m a v = (.ok (r, a'), v')) :
    ∃ w', Cycle.run env n a w = (.ok ({ r with runNumber := n }, a'), w') ∧ Same v' w' := by
  unfold Cycle.run at hrun ⊢
  rcases hp : env.perceive a.context m v with ⟨e | o, v₁⟩
  · rw [hp] at hrun
    cases hrun
  obtain ⟨w₁, hw₁, hsame₁⟩ := h.perceive n hsame hp
  rcases hs : env.stamp v₁ with ⟨stamp, v₂⟩
  obtain ⟨w₂, hw₂, hsame₂⟩ := h.stamp hsame₁ hs
  simp only [hp, hs] at hrun
  simp only [hw₁, hw₂]
  rcases hcheck : o.check with e | ⟨⟩
  · rw [hcheck] at hrun
    cases hrun
  rcases hadd : a.addTrace env.publish (o.trace a.contextVersion stamp) v₂ with ⟨e | a₁, v₃⟩ <;>
    simp only [hcheck, hadd] at hrun <;> cases hrun
  obtain ⟨w₃, hw₃ : a.addTrace env.publish _ w₂ = _, hsame₃⟩ :=
    h.ask (.trace _) hsame₂ hadd
  simp only [hw₃]
  exact ⟨w₃, rfl, hsame₃⟩

theorem evolveIfDue (h : env.Numberless Same) {evolution : EvolutionSettings} {every : UInt32}
    {evolved : Option UInt32} (hsame : Same v w)
    (hevolve : Cycle.evolveIfDue env evolution every a v = (.ok (evolved, a'), v')) :
    ∃ w', Cycle.evolveIfDue env evolution every a w = (.ok (evolved, a'), w') ∧ Same v' w' := by
  unfold Cycle.evolveIfDue at hevolve ⊢
  split_ifs at hevolve ⊢ with hdue
  · cases hevolve
    exact ⟨w, rfl, hsame⟩
  · rcases hsave : a.saveStrategy env.publish (a.evolve evolution) v with ⟨e | a₁, v₁⟩ <;>
      simp only [hsave] at hevolve <;> cases hevolve
    obtain ⟨w₁, hw₁ : a.saveStrategy env.publish _ w = _, hsame₁⟩ :=
      h.ask (.strategy _) hsame hsave
    simp only [hw₁]
    exact ⟨w₁, rfl, hsame₁⟩

theorem turn (h : env.Numberless Same) {evolution : EvolutionSettings} {every m : UInt32}
    (n : UInt32) {r : RunResult} (hsame : Same v w)
    (hturn : Cycle.turn env evolution every m a v = .completed r a' v') :
    ∃ w', Cycle.turn env evolution every n a w = .completed { r with runNumber := n } a' w' ∧
      Same v' w' := by
  unfold Cycle.turn at hturn ⊢
  rcases hrun : Cycle.run env m a v with ⟨e | ⟨r₁, a₁⟩, v₁⟩
  · rw [hrun] at hturn
    cases hturn
  obtain ⟨w₁, hw₁, hsame₁⟩ := h.run n hsame hrun
  rcases hevolve : Cycle.evolveIfDue env evolution every a₁ v₁ with ⟨e | ⟨evolved, a₂⟩, v₂⟩ <;>
    simp only [hrun, hevolve] at hturn <;> cases hturn
  obtain ⟨w₂, hw₂, hsame₂⟩ := h.evolveIfDue hsame₁ hevolve
  simp only [hw₁, hw₂]
  exact ⟨w₂, rfl, hsame₂⟩

end Surroundings.Numberless

/-! ## Runs up to the limit -/

/-- The results of a cycle that starts with run `number` when `spent` has been spent. -/
def restarted : UInt32 → Float → List RunResult → List RunResult
  | _, _, [] => []
  | number, spent, r :: results =>
    { r with runNumber := number, cumulativeCost := spent + r.cost } ::
      restarted (number + 1) (spent + r.cost) results

namespace Cycle

variable {env : Surroundings ω} {evolution : EvolutionSettings} {settings : CycleSettings}

theorem turn_cost {every number : UInt32} {a a' : Archive} {w w' : ω} {r : RunResult}
    (h : turn env evolution every number a w = .completed r a' w') : 0 ≤ r.cost := by
  unfold turn at h
  rcases run_cases env number a w with ⟨e, w₁, hrun, -⟩ | ⟨t, w₁, hrun, harchives⟩
  · rw [hrun] at h
    cases h
  rw [hrun] at h
  rcases hevolve : evolveIfDue env evolution every (a.withTrace t) w₁ with
    ⟨e | ⟨evolved, a₂⟩, w₂⟩ <;> simp only [hevolve] at h <;> cases h
  obtain ⟨o, stamp, hcheck, rfl⟩ : ∃ (o : Outcome) (stamp : Stamp), o.check = .ok () ∧
      t = o.trace a.contextVersion stamp := by
    cases harchives with
    | mk _ hcheck => exact ⟨_, _, hcheck, rfl⟩
  exact (Outcome.makes_trace (Outcome.usable_of_check hcheck) a.contextVersion stamp).cost.2.2

/-- Runs that are stopped by their limit begin with a turn that went well. -/
theorem turn_of_limit {remaining : Nat} {number : UInt32} {spent : Float} {a a' : Archive}
    {w w' : ω} {results : List RunResult}
    (h : runs env evolution settings (remaining + 1) number spent a w =
      (results, .stopped .runLimitReached, a', w')) :
    ∃ r a₁ w₁ later, turn env evolution settings.evolveEvery number a w = .completed r a₁ w₁ ∧
      ¬ settings.maxBudget ≤ spent + r.cost ∧ results = r.after spent :: later ∧
      runs env evolution settings remaining (number + 1) (spent + r.cost) a₁ w₁ =
        (later, .stopped .runLimitReached, a', w') := by
  rw [runs_turn] at h
  rcases hturn : turn env evolution settings.evolveEvery number a w with
    ⟨e, w₁⟩ | ⟨e, r, a₁, w₁⟩ | ⟨r, a₁, w₁⟩ <;> rw [hturn] at h
  · cases h
  · cases h
  · by_cases hbudget : settings.maxBudget ≤ spent + r.cost
    · simp only [if_pos hbudget] at h
      cases h
    · simp only [if_neg hbudget] at h
      rcases hrest : runs env evolution settings remaining (number + 1) (spent + r.cost) a₁ w₁ with
        ⟨later, ending, a₂, w₂⟩
      rw [hrest] at h
      cases h
      exact ⟨r, a₁, w₁, later, rfl, hbudget, rfl, hrest⟩

theorem length_of_limit : ∀ {remaining : Nat} {number : UInt32} {spent : Float} {a a' : Archive}
    {w w' : ω} {results : List RunResult}, runs env evolution settings remaining number spent a w =
      (results, .stopped .runLimitReached, a', w') → results.length = remaining
  | 0, _, _, _, _, _, _, _, h => by
    cases h
    rfl
  | remaining + 1, _, _, _, _, _, _, _, h => by
    obtain ⟨r, a₁, w₁, later, -, -, rfl, hrest⟩ := turn_of_limit h
    exact congrArg (· + 1) (length_of_limit hrest)

/-- Runs up to the limit are any number of them and then the others. -/
theorem runs_split {l : Nat} : ∀ {k : Nat} {number : UInt32} {spent : Float} {a a' : Archive}
    {w w' : ω} {results : List RunResult}, 0 ≤ spent →
    runs env evolution settings (k + l) number spent a w =
      (results, .stopped .runLimitReached, a', w') →
    ∃ earlier later a₁ w₁, results = earlier ++ later ∧
      runs env evolution settings k number spent a w =
        (earlier, .stopped .runLimitReached, a₁, w₁) ∧
      0 ≤ spentAfter spent earlier k ∧
      runs env evolution settings l (number + .ofNat k) (spentAfter spent earlier k) a₁ w₁ =
        (later, .stopped .runLimitReached, a', w')
  | 0, number, spent, a, a', w, w', results, hspent, h => by
    rw [Nat.zero_add] at h
    refine ⟨[], results, a, w, rfl, rfl, hspent, ?_⟩
    rwa [show number + UInt32.ofNat 0 = number from UInt32.add_zero number]
  | k + 1, number, spent, a, a', w, w', results, hspent, h => by
    rw [Nat.succ_add] at h
    obtain ⟨r, a₁, w₁, rest, hturn, hbudget, rfl, hrest⟩ := turn_of_limit h
    obtain ⟨earlier, later, a₂, w₂, rfl, hearlier, hspent', hlater⟩ :=
      runs_split (Double.add_nonneg hspent (turn_cost hturn)) hrest
    refine ⟨r.after spent :: earlier, later, a₂, w₂, rfl, ?_, hspent', ?_⟩
    · rw [runs_turn, hturn]
      simp only [if_neg hbudget, hearlier]
    · rwa [add_one_add_ofNat] at hlater

/-- Worlds that are the same go along with the same runs, whatever their numbers. Where no more has
been spent the budget is not reached either. -/
theorem runs_restarted {Same : ω → ω → Prop} (h : env.Numberless Same) : ∀ {remaining : Nat}
    {number : UInt32} (number' : UInt32) {spent spent' : Float} {a a' : Archive} {v w v' : ω}
    {results : List RunResult}, Same v w → 0 ≤ spent' → spent' ≤ spent →
    runs env evolution settings remaining number spent a v =
      (results, .stopped .runLimitReached, a', v') →
    ∃ w', runs env evolution settings remaining number' spent' a w =
      (restarted number' spent' results, .stopped .runLimitReached, a', w') ∧ Same v' w'
  | 0, _, _, _, _, _, _, _, w, _, _, hsame, _, _, hruns => by
    cases hruns
    exact ⟨w, rfl, hsame⟩
  | remaining + 1, number, number', spent, spent', a, _, v, w, _, _, hsame, hspent, hle, hruns => by
    obtain ⟨r, a₁, v₁, later, hturn, hbudget, rfl, hrest⟩ := turn_of_limit hruns
    obtain ⟨w₁, hturn', hsame₁⟩ := h.turn number' hsame hturn
    have hcost := turn_cost hturn
    have hle' := Double.add_le_add_right hspent hle hcost
    obtain ⟨w', hlater, hsame'⟩ := runs_restarted h (number' + 1) hsame₁
      (Double.add_nonneg hspent hcost) hle' hrest
    refine ⟨w', ?_, hsame'⟩
    rw [runs_turn, hturn']
    simp only [if_neg fun hreached => hbudget (Double.le_trans hreached hle'), hlater]
    rfl

end Cycle

/-! ## Cycles -/

/-- A cycle of `k + l` runs says what one of `k` runs and then one of `l` runs say. The last one has
run numbers and cumulative costs of its own. -/
structure CycleReport.Splits (whole earlier later : CycleReport) (k l : Nat) : Prop where
  length : whole.results.length = k + l
  earlier_ending : earlier.ending = .stopped .runLimitReached
  earlier_results : earlier.results = whole.results.take k
  later_ending : later.ending = .stopped .runLimitReached
  later_results : later.results = restarted 1 0 (whole.results.drop k)
  finalVersion : later.finalVersion = whole.finalVersion

theorem Controller.runCycle_cut {env : Surroundings ω} {Same : ω → ω → Prop}
    (h : env.Numberless Same) {first second total : UInt32}
    (htotal : first.toNat + second.toNat = total.toNat) {budget : Float} {every : UInt32}
    {c c' : Controller} {w w' : ω} {report : CycleReport}
    (hwhole : c.runCycle env ⟨total, budget, every⟩ w = (report, c', w'))
    (hlimit : report.ending = .stopped .runLimitReached) :
    ∃ report₁ c₁ w₁ report₂ w₂,
      c.runCycle env ⟨first, budget, every⟩ w = (report₁, c₁, w₁) ∧
      c₁.runCycle env ⟨second, budget, every⟩ w₁ = (report₂, c', w₂) ∧ Same w' w₂ ∧
      report.Splits report₁ report₂ first.toNat second.toNat := by
  by_cases hinterval : every = 0
  · rw [c.runCycle_zero env w hinterval] at hwhole
    cases hwhole
    cases hlimit
  rcases hruns : Cycle.runs env c.evolution ⟨total, budget, every⟩ total.toNat 1 0 c.archive w with
    ⟨results, ending, a', u⟩
  rw [show c.runCycle env ⟨total, budget, every⟩ w = _ from
    Controller.runCycle_of_runs hinterval hruns] at hwhole
  cases hwhole
  obtain rfl : ending = .stopped .runLimitReached := hlimit
  rw [← htotal] at hruns
  obtain ⟨earlier, later, a₁, w₁, rfl, hearlier, hspent, hlater⟩ :=
    Cycle.runs_split (by decide) hruns
  obtain ⟨w₂, hagain, hsame⟩ :=
    Cycle.runs_restarted h 1 (h.refl w₁) (by decide : (0 : Float) ≤ 0) hspent hlater
  have hlength := Cycle.length_of_limit hearlier
  have hfirst := Controller.runCycle_of_runs hinterval hearlier
  have hsecond := Controller.runCycle_of_runs (c := ⟨a₁, c.evolution, .stopped .runLimitReached⟩)
    hinterval hagain
  refine ⟨_, _, w₁, _, w₂, hfirst, hsecond, hsame, ?_⟩
  exact {
    length := Cycle.length_of_limit hruns
    earlier_ending := rfl
    earlier_results := (List.take_left' hlength).symm
    later_ending := rfl
    later_results := congrArg (restarted 1 0) (List.drop_left' hlength).symm
    finalVersion := rfl }

/-- A cycle that makes all its runs comes to the same as two cycles of the same controller with as
many runs together: the same archive, the same results up to the run numbers and cumulative costs of
the second cycle, which start over, and the same contexts, where the second cycle goes on with the
briefings of the first. -/
theorem runCycle_split {env : Surroundings ω} {Same : ω → ω → Prop} (h : env.Numberless Same)
    {first second total : UInt32} (htotal : first.toNat + second.toNat = total.toNat)
    (budget : Float) (every : UInt32) (c : Controller) (w : ω) {report : CycleReport}
    {c' : Controller} {w' : ω}
    (hwhole : c.runCycle env ⟨total, budget, every⟩ w = (report, c', w'))
    (hlimit : report.ending = .stopped .runLimitReached) :
    ∃ (report₁ report₂ : CycleReport) (c₁ : Controller) (w₁ w₂ : ω)
      (heard heard₁ heard₂ : List Briefing),
      c.runCycle env ⟨first, budget, every⟩ w = (report₁, c₁, w₁) ∧
      c₁.runCycle env ⟨second, budget, every⟩ w₁ = (report₂, c', w₂) ∧ Same w' w₂ ∧
      report.Splits report₁ report₂ first.toNat second.toNat ∧
      c.runCycle env.heard ⟨total, budget, every⟩ (w, []) = (report, c', w', heard) ∧
      c.runCycle env.heard ⟨first, budget, every⟩ (w, []) = (report₁, c₁, w₁, heard₁) ∧
      c₁.runCycle env.heard ⟨second, budget, every⟩ (w₁, heard₁) = (report₂, c', w₂, heard₂) ∧
      heard.map (·.context) = heard₂.map (·.context) := by
  have hplain : ∀ {settings : CycleSettings} {c c' : Controller} {x y : ω × List Briefing}
      {report : CycleReport}, c.runCycle env.heard settings x = (report, c', y) →
      c.runCycle env settings x.1 = (report, c', y.1) := by
    intro settings c c' x y report hheard
    obtain ⟨_, _, _, hwritten, hplain⟩ := (heard_writes env).runCycle settings c x
    rw [hheard] at hwritten
    cases hwritten
    exact hplain
  rcases hheard : c.runCycle env.heard ⟨total, budget, every⟩ (w, []) with ⟨_, _, _, heard⟩
  obtain ⟨rfl, rfl, rfl⟩ : _ = report ∧ _ = c' ∧ _ = w' := by
    simpa using (hplain hheard).symm.trans hwhole
  obtain ⟨report₁, c₁, ⟨w₁, heard₁⟩, report₂, ⟨w₂, heard₂⟩, hfirst, hsecond, ⟨hsame, hcontexts⟩,
    hsplits⟩ := Controller.runCycle_cut h.heard htotal hheard hlimit
  exact ⟨report₁, report₂, c₁, w₁, w₂, heard, heard₁, heard₂, hplain hfirst, hplain hsecond,
    hsame, hsplits, rfl, hfirst, hsecond, hcontexts⟩

/-- Three outcomes, and none after them. -/
def threeSteps : Script where
  steps := [.complete ⟨"", 0.5, 0.25, [], [], []⟩, .complete ⟨"", 0.75, 0.5, [], [], []⟩,
    .complete ⟨"", 1, 0, [], [], []⟩]
  fallback := none

/-- The first of two cycles ends halfway to the next strategy. -/
theorem runCycle_split_threeSteps :
    let env := steadySurroundings.scripted
    let x := Controller.runCycle env ⟨3, 9, 2⟩ ⟨vacantArchive, {}, .idle⟩
      (threeSteps, vacantTree, ["dawn", "noon", "dusk"])
    let y := Controller.runCycle env ⟨1, 9, 2⟩ ⟨vacantArchive, {}, .idle⟩
      (threeSteps, vacantTree, ["dawn", "noon", "dusk"])
    let z := y.2.1.runCycle env ⟨2, 9, 2⟩ y.2.2
    x.1.ending = .stopped .runLimitReached ∧ z.2.1 = x.2.1 ∧
      x.1.results.map (·.evolvedVersion) = [none, some 1, none] ∧
      z.1.results = restarted 1 0 (x.1.results.drop 1) := by
  intro env x y z
  obtain ⟨report₁, report₂, c₁, w₁, w₂, -, -, -, hy, hz, -, hsplits, -⟩ :=
    runCycle_split (scripted_numberless steadySurroundings)
      (show (1 : UInt32).toNat + (2 : UInt32).toNat = (3 : UInt32).toNat from rfl) 9 2
      ⟨vacantArchive, {}, .idle⟩ (threeSteps, vacantTree, ["dawn", "noon", "dusk"])
      (show _ = (x.1, x.2.1, x.2.2) from rfl) rfl
  have hz : z = (report₂, x.2.1, w₂) := by
    show y.2.1.runCycle env ⟨2, 9, 2⟩ y.2.2 = _
    rw [show y = _ from hy]
    exact hz
  rw [hz]
  exact ⟨rfl, rfl, rfl, hsplits.later_results⟩

end Exploration
