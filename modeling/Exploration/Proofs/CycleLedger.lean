import Mathlib
import Exploration.Proofs.CycleRecords

/-!
# Cycles on record

Surroundings that keep a ledger of what a cycle asks them: the numbers of the runs and the files
that it publishes. A cycle takes the same course in them as without (`runCycle_recorded_course`),
and each of its steps enters what it does.
-/

namespace Exploration

open Archive

/-- The runs that a cycle asked for, and the files that it published, in order. -/
structure Ledger where
  runs : List UInt32 := []
  files : List (Path × String) := []

variable {ω : Type}

/-- The ledger with one more run. -/
def Ledger.withRun (l : Ledger) (number : UInt32) : Ledger := { l with runs := l.runs ++ [number] }

/-- The ledger with one more file, if it was created. -/
def Ledger.withFile (l : Ledger) (path : Path) (text : String) (p : Publication) : Ledger :=
  if p = .created then { l with files := l.files ++ [(path, text)] } else l

/-- The same surroundings, with a ledger. -/
def Surroundings.recorded (env : Surroundings ω) : Surroundings (ω × Ledger) where
  perceive context number x :=
    let r := env.perceive context number x.1
    (r.1, r.2, x.2.withRun number)
  stamp x :=
    let r := env.stamp x.1
    (r.1, r.2, x.2)
  publish path text x :=
    let r := env.publish path text x.1
    (r.1, r.2, x.2.withFile path text r.1)

/-! ## Without the ledger -/

theorem recorded_writes (env : Surroundings ω) : env.recorded.Writes env :=
  ⟨fun _ _ _ => rfl, fun _ => rfl, fun _ _ _ => rfl⟩

/-- A cycle that is not refused takes the same course with a ledger as without. -/
theorem runCycle_recorded_course (env : Surroundings ω) {settings : CycleSettings} (c : Controller)
    (w : ω) (h : settings.evolveEvery ≠ 0) : ∃ results ending a w' ledger,
      c.runCycle env settings w = (⟨results, ending, a.latestStrategy?.map (·.version)⟩,
        { c with archive := a, state := ending.state }, w') ∧
      c.runCycle env.recorded settings (w, {}) =
        (⟨results, ending, a.latestStrategy?.map (·.version)⟩,
          { c with archive := a, state := ending.state }, w', ledger) ∧
      Cycle.Course env.recorded c.evolution settings settings.maxRuns.toNat 1 0 c.archive (w, {})
        results ending a (w', ledger) := by
  obtain ⟨results, ending, a, ⟨w', ledger⟩, hplain, hrecorded, hcourse⟩ :=
    (recorded_writes env).course c (w, {}) h
  exact ⟨results, ending, a, w', ledger, hplain, hrecorded, hcourse⟩

section Forgotten

variable {env : Surroundings ω} {a : Archive} {x y : ω × Ledger} {e : Failure}

theorem fails_of_recorded {number : UInt32} (h : Cycle.Fails env.recorded number a x e y) :
    Cycle.Fails env number a x.1 e y.1 :=
  (recorded_writes env).fails h

theorem stalls_of_recorded {evolution : EvolutionSettings} {every : UInt32}
    (h : Cycle.Stalls env.recorded evolution every a x e y) :
    Cycle.Stalls env evolution every a x.1 e y.1 :=
  (recorded_writes env).stalls h

end Forgotten

/-! ## What is entered -/

/-- The files that were put in the directory of the traces. -/
def Ledger.traceFiles (l : Ledger) (directory : Path) : List (Path × String) :=
  l.files.filter fun f => f.1.tail = traceDirectory directory

section Entered

variable {env : Surroundings ω} {evolution : EvolutionSettings} {number every : UInt32}
  {a a' : Archive} {x y : ω × Ledger} {t : Trace} {e : Failure}

theorem recorded_enters (env : Surroundings ω) : env.recorded.Enters
    (fun _ number l => l.withRun number) fun path text l => l.withFile path text .created where
  perceive _ _ _ := rfl
  stamp _ := rfl
  publish path text x := by
    simp only [Surroundings.recorded, Ledger.withFile]
    split_ifs <;> rfl

theorem ledger_of_fails (h : Cycle.Fails env.recorded number a x e y) :
    y.2 = x.2.withRun number :=
  (recorded_enters env).fails h

theorem ledger_of_archives (h : Cycle.Archives env.recorded number a x t y) : y.2 =
    (x.2.withRun number).withFile (tracePath a.directory t) t.encode .created :=
  (recorded_enters env).archives h

theorem ledger_of_evolves {evolved : Option UInt32}
    (h : Cycle.Evolves env.recorded evolution every a x evolved a' y) :
    y.2.runs = x.2.runs ∧ y.2.traceFiles a.directory = x.2.traceFiles a.directory := by
  have hother : strategyDirectory a.directory ≠ traceDirectory a.directory := by
    simp [strategyDirectory, traceDirectory]
  rcases (recorded_enters env).evolves h with hy | hy <;> rw [hy]
  · exact ⟨rfl, rfl⟩
  · refine ⟨rfl, ?_⟩
    simp [Ledger.traceFiles, Ledger.withFile, strategyPath, hother]

theorem ledger_of_stalls (h : Cycle.Stalls env.recorded evolution every a x e y) : y.2 = x.2 :=
  (recorded_enters env).stalls h

end Entered

end Exploration
