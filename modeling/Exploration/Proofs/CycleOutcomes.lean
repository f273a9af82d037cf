import Mathlib
import Exploration.Proofs.CycleStop
import Exploration.Proofs.FiniteDoubles
import Exploration.Proofs.Labels

/-!
# What becomes of the outcomes

An outcome is usable or it is refused (`Outcome.check_cases`). Whatever the runs of a cycle report,
each trace that the cycle archives is made from a usable outcome as `Outcome.Makes` says, one from
each in order, and an outcome that is refused is the last. A cycle that is allowed only the runs
before that ends with the same archive (`Cycle.runs_answered`).
-/

namespace Exploration

namespace Double

/-- `y` is the number nearest to `x` between 0 and 1. -/
structure Clamped (x y : Float) : Prop where
  bounds : 0 ≤ y ∧ y ≤ 1
  inside : 0 ≤ x → x ≤ 1 → y = x
  below : x < 0 → y = 0
  above : 1 < x → y = 1

theorem clamped_clampUnit {x : Float} (h : x.isNaN = false) : Clamped x (clampUnit x) := by
  have hzero : (0 : Float).isNaN = false := rfl
  have hone : (1 : Float).isNaN = false := rfl
  unfold clampUnit
  by_cases hlow : x < 0
  · rw [if_pos hlow]
    refine ⟨by decide, fun hle => absurd hlow ((le_iff_not_lt h hzero).1 hle), fun _ => rfl,
      fun hhigh => ?_⟩
    exact absurd (Double.lt_trans hhigh hlow) (by decide)
  · rw [if_neg hlow]
    by_cases hhigh : 1 < x
    · rw [if_pos hhigh]
      refine ⟨by decide, fun _ hle => ?_, fun hx => absurd hx hlow, fun _ => rfl⟩
      exact absurd hhigh ((le_iff_not_lt hone h).1 hle)
    · rw [if_neg hhigh]
      exact ⟨⟨(le_iff_not_lt h hzero).2 hlow, (le_iff_not_lt hone h).2 hhigh⟩, fun _ _ => rfl,
        fun hx => absurd hx hlow, fun hx => absurd hx hhigh⟩

end Double

/-! ## One outcome -/

theorem Trace.two_le_sources {t : Trace} (output : String) {c : Connection}
    (h : c ∈ (t.reflect output).connections) : 2 ≤ c.sources.toList.toFinset.card := by
  obtain ⟨r, hr, rfl⟩ := List.mem_map.1 h
  have hsize := of_decide_eq_true (List.mem_filter.1 hr).2
  rw [List.toFinset_card_of_nodup r.sourcesMatched.nodup_toList]
  exact hsize.trans_eq (List.length_map _).symm

/-- An outcome was refused for what it reports. -/
def Failure.RefusesOutcome : Failure → Prop
  | .unusableCost _ | .unusableScore _ => True
  | _ => False

namespace Outcome

structure Usable (o : Outcome) : Prop where
  finiteCost : Double.isFinite o.cost = true
  notNegative : ¬ o.cost < 0
  finiteScore : Double.isFinite o.profileScore = true

theorem check_cases (o : Outcome) :
    (o.check = .ok () ∧ o.Usable) ∨ ∃ e, o.check = .error e ∧ e.RefusesOutcome ∧ ¬ o.Usable := by
  unfold check
  by_cases hcost : (!Double.isFinite o.cost || decide (o.cost < 0)) = true
  · rw [if_pos hcost]
    refine Or.inr ⟨_, rfl, trivial, fun h => ?_⟩
    simp [h.finiteCost, h.notNegative] at hcost
  · rw [if_neg hcost]
    simp only [Bool.or_eq_true, Bool.not_eq_true', decide_eq_true_eq, not_or,
      Bool.not_eq_false] at hcost
    by_cases hscore : (!Double.isFinite o.profileScore) = true
    · rw [if_pos hscore]
      refine Or.inr ⟨_, rfl, trivial, fun h => ?_⟩
      simp [h.finiteScore] at hscore
    · rw [if_neg hscore]
      exact Or.inl ⟨rfl, hcost.1, hcost.2, by simpa using hscore⟩

theorem usable_of_check {o : Outcome} (h : o.check = .ok ()) : o.Usable := by
  rcases o.check_cases with ⟨-, husable⟩ | ⟨e, he, -⟩
  · exact husable
  · rw [h] at he
    cases he

/-- The trace is made from the outcome. -/
structure Makes (o : Outcome) (t : Trace) : Prop where
  usable : o.Usable
  cost : t.cost = o.cost ∧ Double.isFinite t.cost = true ∧ 0 ≤ t.cost
  score : Double.Clamped o.profileScore t.profileScore
  toolCalls : t.toolCalls = o.toolCalls
  searches : t.searches = o.searches
  crossReferences : t.crossReferences = o.crossReferences
  /-- Its derived lists are those of its own text. -/
  reflected : t.reflect o.profileText = t
  labels : Trace.SharesOut (o.searches.map (·.query)) t.usefulSearches t.wastedSearches
  connections : ∀ c ∈ t.connections, 2 ≤ c.sources.toList.toFinset.card

theorem makes_trace {o : Outcome} (h : o.Usable) (version : UInt32) (stamp : Stamp) :
    o.Makes (o.trace version stamp) where
  usable := h
  cost := ⟨rfl, h.finiteCost,
    (Double.le_iff_not_lt (Double.isNaN_of_isFinite h.finiteCost) rfl).2 h.notNegative⟩
  score := Double.clamped_clampUnit (Double.isNaN_of_isFinite h.finiteScore)
  toolCalls := rfl
  searches := rfl
  crossReferences := rfl
  reflected := rfl
  labels := Trace.sharesOut_reflect (o.trace version stamp) o.profileText
  connections _ hc := Trace.two_le_sources o.profileText hc

end Outcome

/-! ## The answers of the runs -/

open Archive

variable {ω : Type}

/-- The same surroundings, with the answers of the runs written down. -/
def Surroundings.answered (env : Surroundings ω) :
    Surroundings (ω × List (Except Failure Outcome)) where
  perceive context number x :=
    let r := env.perceive context number x.1
    (r.1, r.2, x.2 ++ [r.1])
  stamp x :=
    let r := env.stamp x.1
    (r.1, r.2, x.2)
  publish path text x :=
    let r := env.publish path text x.1
    (r.1, r.2, x.2)

theorem answered_writes (env : Surroundings ω) : env.answered.Writes env :=
  ⟨fun _ _ _ => rfl, fun _ => rfl, fun _ _ _ => rfl⟩

section Answered

variable {env : Surroundings ω} {evolution : EvolutionSettings} {number every : UInt32}
  {a a' : Archive} {x y : ω × List (Except Failure Outcome)} {t : Trace} {e : Failure}

theorem perceive_answered {context : String} {answer : Except Failure Outcome}
    (h : env.answered.perceive context number x = (answer, y)) :
    env.perceive context number x.1 = (answer, y.1) ∧ y.2 = x.2 ++ [answer] := by
  simp only [Surroundings.answered, Prod.mk.injEq] at h
  obtain ⟨rfl, rfl⟩ := h
  exact ⟨rfl, rfl⟩

theorem answers_of_stamp {stamp : Stamp} (h : env.answered.stamp x = (stamp, y)) : y.2 = x.2 :=
  congrArg (fun r => r.2.2) h.symm

theorem answers_of_publish {path : Path} {text : String} {p : Publication}
    (h : env.answered.publish path text x = (p, y)) : y.2 = x.2 :=
  congrArg (fun r => r.2.2) h.symm

theorem answers_of_refused {path : Path} {text : String}
    (h : y = x ∨ ∃ p ≠ .created, env.answered.publish path text x = (p, y)) : y.2 = x.2 := by
  rcases h with rfl | ⟨p, -, hp⟩
  · rfl
  · exact answers_of_publish hp

theorem answers_of_archives (h : Cycle.Archives env.answered number a x t y) :
    ∃ o : Outcome, y.2 = x.2 ++ [.ok o] ∧ o.Makes t := by
  cases h with
  | @mk o stamp x₁ x₂ _ hr hcheck hs hp =>
    refine ⟨o, ?_, Outcome.makes_trace (Outcome.usable_of_check hcheck) _ _⟩
    rw [answers_of_publish hp, answers_of_stamp hs, (perceive_answered hr).2]

theorem answers_of_evolves {evolved : Option UInt32}
    (h : Cycle.Evolves env.answered evolution every a x evolved a' y) : y.2 = x.2 := by
  cases h with
  | undue _ => rfl
  | due _ hp => exact answers_of_publish hp

theorem answers_of_stalls (h : Cycle.Stalls env.answered evolution every a x e y) :
    y.2 = x.2 :=
  answers_of_refused (saveStrategy_error h.refused)

/-- The archive does not say that it refuses an outcome. -/
theorem not_refusesOutcome {publish : Publish ω} {w w' : ω}
    (h : a.addTrace publish t w = (.error e, w')) : ¬ e.RefusesOutcome := by
  rcases addTrace_cases publish a t w with
    ⟨hadd, -⟩ | ⟨v, ⟨-, hadd⟩ | ⟨-, hadd⟩ | ⟨-, hadd⟩⟩ <;> rw [h] at hadd <;> cases hadd <;>
    exact id

/-- A run whose outcome is refused comes to nothing beyond what it has done itself. -/
theorem answers_of_fails (h : Cycle.Fails env.answered number a x e y) :
    ∃ answer, y.2 = x.2 ++ [answer] ∧ ∀ o, answer = .ok o → (e.RefusesOutcome ↔ ¬ o.Usable) ∧
      (¬ o.Usable → env.perceive a.context number x.1 = (.ok o, y.1)) := by
  cases h with
  | perceiving hr => exact ⟨_, (perceive_answered hr).2, nofun⟩
  | @checking o _ _ hr hcheck =>
    obtain ⟨hperceive, hanswer⟩ := perceive_answered hr
    refine ⟨_, hanswer, fun u hu => ?_⟩
    obtain rfl : o = u := Except.ok.inj hu
    rcases o.check_cases with ⟨hok, -⟩ | ⟨e', he, hrefuses, hunusable⟩
    · rw [hcheck] at hok
      cases hok
    · obtain rfl : e = e' := Except.error.inj (hcheck.symm.trans he)
      exact ⟨iff_of_true hrefuses hunusable, fun _ => hperceive⟩
  | @archiving o stamp _ x₁ x₂ _ hr hcheck hs hadd =>
    refine ⟨.ok o, ?_, fun u hu => ?_⟩
    · rw [answers_of_refused (addTrace_error hadd), answers_of_stamp hs, (perceive_answered hr).2]
    obtain rfl : o = u := Except.ok.inj hu
    have husable := Outcome.usable_of_check hcheck
    exact ⟨iff_of_false (not_refusesOutcome hadd) (not_not_intro husable),
      fun h => absurd husable h⟩

end Answered

/-! ## All runs -/

/-- The first of several runs. -/
theorem Cycle.runs_succ {env : Surroundings ω} {evolution : EvolutionSettings}
    {settings : CycleSettings} {number : UInt32} {spent : Float} {a a₁ a₂ : Archive}
    {w w₁ w₂ : ω} {result : RunResult} {evolved : Option UInt32}
    (hrun : run env number a w = (.ok (result, a₁), w₁))
    (hevolve : evolveIfDue env evolution settings.evolveEvery a₁ w₁ = (.ok (evolved, a₂), w₂))
    (hbudget : ¬ settings.maxBudget ≤ spent + result.cost) (remaining : Nat) :
    runs env evolution settings (remaining + 1) number spent a w =
      let rest := runs env evolution settings remaining (number + 1) (spent + result.cost) a₂ w₂
      ({ result with cumulativeCost := spent + result.cost, evolvedVersion := evolved } :: rest.1,
        rest.2) := by
  rw [runs, hrun]
  simp only [hevolve, if_neg hbudget]

section Runs

variable {env : Surroundings ω} {evolution : EvolutionSettings} {settings : CycleSettings}

/-- What runs have come to that answered what `y` has more on record than `x`. If the last one
failed, the runs before it come to the same archive. -/
structure Answered (env : Surroundings ω) (evolution : EvolutionSettings)
    (settings : CycleSettings) (number : UInt32) (spent : Float) (a : Archive)
    (x : ω × List (Except Failure Outcome)) (results : List RunResult) (ending : Ending)
    (a' : Archive) (y : ω × List (Except Failure Outcome)) (outcomes : List Outcome)
    (added : List Trace) : Prop where
  traces : a'.traces = a.traces ++ added
  makes : List.Forall₂ Outcome.Makes outcomes added
  answers : y.2 = x.2 ++ outcomes.map .ok ∨ ∃ e v, ending = .aborted e ∧
    Cycle.runs env.answered evolution settings results.length number spent a x =
      (results, .stopped .runLimitReached, a', v) ∧
    v.2 = x.2 ++ outcomes.map .ok ∧
    Cycle.Fails env.answered (number + .ofNat results.length) a' v e y

theorem Answered.failed {number : UInt32} {spent : Float} {a : Archive}
    {x y : ω × List (Except Failure Outcome)} {e : Failure}
    (h : Cycle.Fails env.answered number a x e y) :
    Answered env evolution settings number spent a x [] (.aborted e) a y [] [] where
  traces := (List.append_nil _).symm
  makes := .nil
  answers :=
    Or.inr ⟨e, x, rfl, rfl, (List.append_nil _).symm, (UInt32.add_zero number).symm ▸ h⟩

theorem Answered.next {number : UInt32} {spent : Float} {a a₁ a' : Archive}
    {x x₁ x₂ y : ω × List (Except Failure Outcome)} {t : Trace} {o : Outcome}
    {evolved : Option UInt32} {results : List RunResult} {ending : Ending}
    {outcomes : List Outcome} {added : List Trace}
    (hrun : Cycle.run env.answered number a x = (.ok (t.result number, a.withTrace t), x₁))
    (hevolve : Cycle.evolveIfDue env.answered evolution settings.evolveEvery (a.withTrace t) x₁ =
      (.ok (evolved, a₁), x₂))
    (hbudget : ¬ settings.maxBudget ≤ spent + t.cost) (hmakes : o.Makes t)
    (htraces : a₁.traces = a.traces ++ [t]) (hanswers : x₂.2 = x.2 ++ [.ok o])
    (h : Answered env evolution settings (number + 1) (spent + t.cost) a₁ x₂ results ending a' y
      outcomes added) :
    Answered env evolution settings number spent a x ({ t.result number with
      cumulativeCost := spent + t.cost, evolvedVersion := evolved } :: results) ending a' y
      (o :: outcomes) (t :: added) where
  traces := by
    rw [h.traces, htraces]
    exact List.append_assoc _ [t] added
  makes := .cons hmakes h.makes
  answers := by
    have hall : x₂.2 ++ outcomes.map .ok = x.2 ++ (o :: outcomes).map .ok := by
      rw [hanswers]
      exact List.append_assoc _ _ _
    rw [← hall]
    refine h.answers.imp_right fun ⟨e, v, he, hcut, hv, hfails⟩ => ⟨e, v, he, ?_, hv, ?_⟩
    · rw [List.length_cons, Cycle.runs_succ hrun hevolve hbudget]
      exact congrArg (fun x : List RunResult × Ending × Archive × _ => (_ :: x.1, x.2)) hcut
    · rwa [List.length_cons, ← add_one_add_ofNat]

theorem Cycle.runs_answered : ∀ {remaining : Nat} {number : UInt32} {spent : Float}
    {a a' : Archive} {x y : ω × List (Except Failure Outcome)} {results : List RunResult}
    {ending : Ending}, runs env.answered evolution settings remaining number spent a x =
      (results, ending, a', y) → results.length ≤ remaining ∧ ∃ outcomes added,
        Answered env evolution settings number spent a x results ending a' y outcomes added
  | 0, _, _, _, _, _, _, _, _, h => by
    cases h
    exact ⟨le_rfl, [], [], (List.append_nil _).symm, .nil, Or.inl (List.append_nil _).symm⟩
  | remaining + 1, number, spent, a, _, x, _, _, _, h => by
    rcases run_cases env.answered number a x with
      ⟨e, y, hrun, hfails⟩ | ⟨t, x₁, hrun, harchives⟩
    · rw [runs, hrun] at h
      cases h
      exact ⟨Nat.zero_le _, [], [], .failed hfails⟩
    obtain ⟨o, hanswer, hmakes⟩ := answers_of_archives harchives
    rcases evolveIfDue_cases env.answered evolution settings.evolveEvery (a.withTrace t) x₁ with
      ⟨e, y, hevolve, hstalls⟩ | ⟨evolved, a₁, x₂, hevolve, hevolves⟩
    · rw [runs, hrun] at h
      simp only [hevolve] at h
      cases h
      exact ⟨Nat.le_add_left 1 remaining, [o], [t], rfl, .cons hmakes .nil,
        Or.inl ((answers_of_stalls hstalls).trans hanswer)⟩
    have hanswers : x₂.2 = x.2 ++ [.ok o] := (answers_of_evolves hevolves).trans hanswer
    have htraces : a₁.traces = a.traces ++ [t] := hevolves.traces.1
    by_cases hbudget : settings.maxBudget ≤ spent + t.cost
    · rw [runs, hrun] at h
      simp only [hevolve] at h
      cases (if_pos hbudget).symm.trans h
      exact ⟨Nat.le_add_left 1 remaining, [o], [t], htraces, .cons hmakes .nil, Or.inl hanswers⟩
    · rw [runs_succ hrun hevolve hbudget] at h
      rcases hrest : runs env.answered evolution settings remaining (number + 1)
        (spent + (t.result number).cost) a₁ x₂ with ⟨results, ending, a', y⟩
      rw [hrest] at h
      cases h
      obtain ⟨hlength, outcomes, added, hanswered⟩ := runs_answered hrest
      exact ⟨Nat.succ_le_succ hlength, o :: outcomes, t :: added,
        hanswered.next hrun hevolve hbudget hmakes htraces hanswers⟩

end Runs

theorem Cycle.runs_of_answered {env : Surroundings ω} {evolution : EvolutionSettings}
    {settings : CycleSettings} {remaining : Nat} {number : UInt32} {spent : Float} {a a' : Archive}
    {x y : ω × List (Except Failure Outcome)} {results : List RunResult} {ending : Ending}
    (h : runs env.answered evolution settings remaining number spent a x =
      (results, ending, a', y)) :
    runs env evolution settings remaining number spent a x.1 = (results, ending, a', y.1) := by
  obtain ⟨_, _, _, _, hwritten, hplain⟩ :=
    (answered_writes env).runs evolution settings remaining number spent a x
  rw [h] at hwritten
  cases hwritten
  exact hplain

/-- The limit of the runs is looked at only as the number of those that remain. -/
theorem Cycle.runs_maxRuns (env : Surroundings ω) (evolution : EvolutionSettings)
    (settings : CycleSettings) (maxRuns : UInt32) : ∀ (remaining : Nat) (number : UInt32)
    (spent : Float) (a : Archive) (w : ω),
    runs env evolution { settings with maxRuns := maxRuns } remaining number spent a w =
      runs env evolution settings remaining number spent a w
  | 0, _, _, _, _ => rfl
  | remaining + 1, number, spent, a, w => by
    simp only [runs, runs_maxRuns env evolution settings maxRuns remaining]

theorem Controller.runCycle_of_runs {env : Surroundings ω} {settings : CycleSettings}
    {maxRuns : UInt32} {c : Controller} {w w' : ω} {results : List RunResult} {ending : Ending}
    {a : Archive} (h : settings.evolveEvery ≠ 0)
    (hruns : Cycle.runs env c.evolution settings maxRuns.toNat 1 0 c.archive w =
      (results, ending, a, w')) :
    c.runCycle env { settings with maxRuns := maxRuns } w =
      (⟨results, ending, a.latestStrategy?.map (·.version)⟩,
        { c with archive := a, state := ending.state }, w') := by
  rw [runCycle, if_neg h, Cycle.runs_maxRuns, hruns]

/-- A run that is refused for its outcome is the last. The cycle that is allowed only the runs
before it ends with the same archive, and after that nothing happens but the run itself. -/
theorem runCycle_outcomes (env : Surroundings ω) (settings : CycleSettings) (c : Controller)
    (w : ω) : ∃ report c' w', ∃ (outcomes : List Outcome) (added : List Trace)
      (last : Option (Except Failure Outcome)),
      c.runCycle env settings w = (report, c', w') ∧
      c.runCycle env.answered settings (w, []) =
        (report, c', w', outcomes.map .ok ++ last.toList) ∧
      c'.archive.traces = c.archive.traces ++ added ∧
      List.Forall₂ Outcome.Makes outcomes added ∧
      ∀ o, last = some (.ok o) → ∃ e, report.ending = .aborted e ∧ c'.state = .aborted ∧
        (e.RefusesOutcome ↔ ¬ o.Usable) ∧
        (¬ o.Usable → ∃ before v,
          c.runCycle env { settings with maxRuns := .ofNat report.results.length } w =
            (before, { c' with state := .stopped .runLimitReached }, v) ∧
          before.results = report.results ∧
          env.perceive c'.archive.context (1 + .ofNat report.results.length) v = (.ok o, w') ∧
          ∀ tree : ω → FileTree,
            (∀ context number u, tree (env.perceive context number u).2 = tree u) →
              tree w' = tree v) := by
  by_cases hinterval : settings.evolveEvery = 0
  · exact ⟨_, _, w, [], [], none, Controller.runCycle_zero _ _ _ hinterval,
      Controller.runCycle_zero _ _ _ hinterval, by simp, .nil, nofun⟩
  rcases hruns : Cycle.runs env.answered c.evolution settings settings.maxRuns.toNat 1 0 c.archive
    (w, []) with ⟨results, ending, a, w', answers⟩
  obtain ⟨hlimit, outcomes, added, h⟩ := Cycle.runs_answered hruns
  have hplain := Controller.runCycle_of_runs hinterval (Cycle.runs_of_answered hruns)
  have hwritten := Controller.runCycle_of_runs hinterval hruns
  rcases h.answers with hanswers | ⟨e, v, rfl, hcut, hbefore, hfails⟩
  · obtain rfl : answers = outcomes.map .ok := hanswers
    refine ⟨_, _, w', outcomes, added, none, hplain, ?_, h.traces, h.makes, nofun⟩
    rw [hwritten, Option.toList_none, List.append_nil]
  obtain ⟨answer, hanswer, hrefused⟩ := answers_of_fails hfails
  obtain rfl : answers = outcomes.map .ok ++ [answer] := hbefore ▸ hanswer
  refine ⟨_, _, w', outcomes, added, some answer, hplain, hwritten, h.traces, h.makes,
    fun o ho => ⟨e, rfl, rfl, (hrefused o (Option.some.inj ho)).1, fun hunusable => ?_⟩⟩
  have hperceive := (hrefused o (Option.some.inj ho)).2 hunusable
  have hlength : (UInt32.ofNat results.length).toNat = results.length :=
    UInt32.toNat_ofNat_of_lt' (hlimit.trans_lt settings.maxRuns.toNat_lt)
  have hcut' := Cycle.runs_of_answered hcut
  rw [← hlength] at hcut'
  refine ⟨_, v.1, Controller.runCycle_of_runs hinterval hcut', rfl, hperceive,
    fun tree htree => ?_⟩
  rw [← htree a.context (1 + .ofNat results.length) v.1, hperceive]

end Exploration
