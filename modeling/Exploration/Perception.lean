import Exploration.Failure
import Exploration.Trace

/-!
# Perception

What a run reports when it is over, and a script of such reports that stands in for runs.
-/

namespace Exploration

structure Outcome where
  profileText : String
  profileScore : Float
  cost : Float
  toolCalls : List ToolCall
  searches : List Search
  crossReferences : List CrossReference

/-- A run that was asked for: its number within the cycle and the context it was given. -/
structure Call where
  runNumber : UInt32
  context : String
  deriving DecidableEq, Repr

inductive ScriptStep where
  | complete (outcome : Outcome)
  | fail (message : String)

/-- Steps to replay, one per run, and the outcome of every run after the last step. -/
structure Script where
  steps : List ScriptStep
  fallback : Option Outcome
  /-- The runs that were asked for so far. -/
  calls : List Call := []

namespace Script

def name : String := "scripted"

def perceive (context : String) (runNumber : UInt32) (s : Script) :
    Except Failure Outcome × Script :=
  let s := { s with calls := s.calls ++ [Call.mk runNumber context] }
  match s.steps, s.fallback with
  | .complete outcome :: steps, _ => (.ok outcome, { s with steps := steps })
  | .fail message :: steps, _ => (.error (.perceptionFailed message), { s with steps := steps })
  | [], some outcome => (.ok outcome, s)
  | [], none =>
    (.error (.perceptionFailed ("no scripted outcome for run " ++ toString runNumber.toNat)), s)

end Script

end Exploration
