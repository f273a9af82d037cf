import Exploration.Archive
import Exploration.Perception
import Exploration.Reflection
import Exploration.Strategy.Context

/-!
# Cycles

Runs of one subject, one after the other. Each run is given the latest strategy; its trace is
reflected on and archived at once, and whenever the number of archived runs is a multiple of the
interval a strategy is evolved and saved. The budget is looked at between runs only. What happens
outside, the runs themselves and the storage, is a parameter.
-/

namespace Exploration

/-- What a trace has from the moment it is made: its run id, its time, and how long the run took. -/
structure Stamp where
  runId : String
  created : Time.Instant
  duration : Float

/-- What a cycle asks of the world around it. -/
structure Surroundings (ω : Type) where
  perceive : String → UInt32 → ω → Except Failure Outcome × ω
  stamp : ω → Stamp × ω
  publish : Publish ω

inductive StopReason where
  | budgetExhausted
  | runLimitReached
  deriving DecidableEq, Repr

/-- A run of a cycle that was archived. -/
structure RunResult where
  runNumber : UInt32
  runId : String
  /-- The version the run was given, 0 if there was none. -/
  strategyVersion : UInt32
  profileScore : Float
  cost : Float
  /-- The cost of this run and all before it in the cycle. -/
  cumulativeCost : Float
  duration : Float
  /-- The version evolved after the run, if it was time for one. -/
  evolvedVersion : Option UInt32

/-- How a cycle ended. -/
inductive Ending where
  | stopped (reason : StopReason)
  | aborted (cause : Failure)

inductive CycleState where
  | idle
  | stopped (reason : StopReason)
  | aborted
  deriving DecidableEq, Repr

def Ending.state : Ending → CycleState
  | .stopped reason => .stopped reason
  | .aborted _ => .aborted

/-- A subject's archive with what drives its cycles. -/
structure Controller where
  archive : Archive
  evolution : EvolutionSettings
  state : CycleState := .idle

/-- The archived runs of a cycle, how it ended, and the version of the latest strategy then. -/
structure CycleReport where
  results : List RunResult
  ending : Ending
  finalVersion : Option UInt32

namespace CycleReport

/-- The cost of all runs, 0 if there were none. -/
def totalCost (r : CycleReport) : Float := r.results.getLast?.elim 0 (·.cumulativeCost)

/-- The words for a cycle that was cut short, where its cause has any. -/
def abortMessage? (r : CycleReport) : Option String :=
  match r.ending with
  | .stopped _ => none
  | .aborted cause => cause.message?.map fun message =>
    "cycle aborted after " ++ toString r.results.length ++ " completed runs: " ++ message

end CycleReport

namespace Outcome

/-- A cost that is negative or not finite makes an outcome useless, and so does a score that is not
finite. -/
def check (o : Outcome) : Except Failure Unit :=
  if !Double.isFinite o.cost || o.cost < 0 then .error (.unusableCost o.cost)
  else if !Double.isFinite o.profileScore then .error (.unusableScore o.profileScore)
  else .ok ()

/-- The trace of the run, reflected on. A score outside `[0, 1]` is moved to the nearer end. -/
def trace (o : Outcome) (strategyVersion : UInt32) (stamp : Stamp) : Trace :=
  { Trace.fresh stamp.runId stamp.created strategyVersion with
    toolCalls := o.toolCalls
    searches := o.searches
    crossReferences := o.crossReferences
    profileScore := Double.clampUnit o.profileScore
    cost := o.cost
    duration := stamp.duration }.reflect o.profileText

end Outcome

def Trace.result (t : Trace) (runNumber : UInt32) : RunResult where
  runNumber := runNumber
  runId := t.runId
  strategyVersion := t.strategyVersion
  profileScore := t.profileScore
  cost := t.cost
  cumulativeCost := 0
  duration := t.duration
  evolvedVersion := none

namespace Archive

/-- The context that the next run is given. -/
def context (a : Archive) : String := a.latestStrategy?.elim Strategy.firstRunContext (·.context)

/-- The version of the strategy that the next run is given, 0 if there is none. -/
def contextVersion (a : Archive) : UInt32 := a.latestStrategy?.elim 0 (·.version)

end Archive

namespace Cycle

variable {ω : Type}

/-- One run: ask for it, check its outcome, reflect on its trace and archive it. -/
def run (env : Surroundings ω) (number : UInt32) (a : Archive) (w : ω) :
    Except Failure (RunResult × Archive) × ω :=
  match env.perceive a.context number w with
  | (.error e, w) => (.error e, w)
  | (.ok outcome, w) =>
    match outcome.check with
    | .error e => (.error e, w)
    | .ok () =>
      let (stamp, w) := env.stamp w
      let trace := outcome.trace a.contextVersion stamp
      match a.addTrace env.publish trace w with
      | (.error e, w) => (.error e, w)
      | (.ok a, w) => (.ok (trace.result number, a), w)

/-- Evolves and saves a strategy if the number of archived runs is a multiple of `every`. -/
def evolveIfDue (env : Surroundings ω) (evolution : EvolutionSettings) (every : UInt32)
    (a : Archive) (w : ω) : Except Failure (Option UInt32 × Archive) × ω :=
  if a.runCount % every.toNat ≠ 0 then (.ok (none, a), w)
  else
    let strategy := a.evolve evolution
    match a.saveStrategy env.publish strategy w with
    | (.error e, w) => (.error e, w)
    | (.ok a, w) => (.ok (some strategy.version, a), w)

/-- Up to `remaining` runs from run `number` on, when `spent` has been spent. A run that was
archived counts as completed even if the strategy after it could not be saved. -/
def runs (env : Surroundings ω) (evolution : EvolutionSettings) (settings : CycleSettings) :
    Nat → UInt32 → Float → Archive → ω → List RunResult × Ending × Archive × ω
  | 0, _, _, a, w => ([], .stopped .runLimitReached, a, w)
  | remaining + 1, number, spent, a, w =>
    match run env number a w with
    | (.error e, w) => ([], .aborted e, a, w)
    | (.ok (result, a), w) =>
      let spent := spent + result.cost
      let result := { result with cumulativeCost := spent }
      match evolveIfDue env evolution settings.evolveEvery a w with
      | (.error e, w) => ([result], .aborted e, a, w)
      | (.ok (evolved, a), w) =>
        let result := { result with evolvedVersion := evolved }
        if settings.maxBudget ≤ spent then ([result], .stopped .budgetExhausted, a, w)
        else
          let (results, ending, a, w) :=
            runs env evolution settings remaining (number + 1) spent a w
          (result :: results, ending, a, w)

end Cycle

/-- A cycle under the given limits. With an interval of zero it is aborted before its first run. -/
def Controller.runCycle {ω : Type} (env : Surroundings ω) (settings : CycleSettings)
    (c : Controller) (w : ω) : CycleReport × Controller × ω :=
  let (results, ending, archive, w) :=
    if settings.evolveEvery = 0 then ([], .aborted .zeroInterval, c.archive, w)
    else Cycle.runs env c.evolution settings settings.maxRuns.toNat 1 0 c.archive w
  let report := ⟨results, ending, archive.latestStrategy?.map (·.version)⟩
  (report, { c with archive := archive, state := ending.state }, w)

end Exploration
