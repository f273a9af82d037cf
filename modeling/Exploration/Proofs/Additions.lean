import Mathlib
import Exploration.Archive
import Exploration.Proofs.FileTree

/-!
# What an addition does

All that adding a trace or saving a strategy can come to: the record is published and stands last in
the archive from then on, or nothing about the archive changes. This holds for any way to publish a
file; on a tree (`addTrace_tree`, `saveStrategy_tree`) what is refused leaves no file either.
-/

namespace Exploration.Archive

variable {ω : Type}

/-- The place of a trace. -/
def tracePath (directory : Path) (t : Trace) : Path :=
  traceFile t.runId :: traceDirectory directory

/-- The place of a strategy. -/
def strategyPath (directory : Path) (s : Strategy) : Path :=
  strategyFile s.version :: strategyDirectory directory

/-- The archive with one more trace. -/
def withTrace (a : Archive) (t : Trace) : Archive := { a with traces := a.traces ++ [t] }

/-- The archive with one more strategy. -/
def withStrategy (a : Archive) (s : Strategy) : Archive :=
  { a with strategies := a.strategies ++ [s], reserved := max a.reserved s.version }

theorem addTrace_cases (publish : Publish ω) (a : Archive) (t : Trace) (w : ω) :
    (a.addTrace publish t w = (.error (.unusableName .runId t.runId), w) ∧
        usableName t.runId = false)
      ∨ ∃ w', (publish (tracePath a.directory t) t.encode w = (.created, w')
            ∧ a.addTrace publish t w = (.ok (a.withTrace t), w'))
          ∨ (publish (tracePath a.directory t) t.encode w = (.taken, w')
            ∧ a.addTrace publish t w = (.error (.duplicateTrace t.runId), w'))
          ∨ (publish (tracePath a.directory t) t.encode w = (.failed, w')
            ∧ a.addTrace publish t w = (.error .storage, w')) := by
  unfold addTrace checkName tracePath
  by_cases hname : usableName t.runId = true
  · right
    simp only [if_pos hname]
    rcases publish (traceFile t.runId :: traceDirectory a.directory) t.encode w with ⟨p, w'⟩
    refine ⟨w', ?_⟩
    cases p
    · exact Or.inl ⟨rfl, rfl⟩
    · exact Or.inr (Or.inl ⟨rfl, rfl⟩)
    · exact Or.inr (Or.inr ⟨rfl, rfl⟩)
  · left
    simp only [if_neg hname, true_and]
    exact Bool.eq_false_iff.2 hname

theorem saveStrategy_cases (publish : Publish ω) (a : Archive) (s : Strategy) (w : ω) :
    (a.saveStrategy publish s w = (.error (.versionConflict s.version), w)
        ∧ s.version ≤ a.latestVersion)
      ∨ (¬ s.version ≤ a.latestVersion
        ∧ ∃ w', (publish (strategyPath a.directory s) s.encode w = (.created, w')
            ∧ a.saveStrategy publish s w = (.ok (a.withStrategy s), w'))
          ∨ (publish (strategyPath a.directory s) s.encode w = (.taken, w')
            ∧ a.saveStrategy publish s w = (.error (.versionConflict s.version), w'))
          ∨ (publish (strategyPath a.directory s) s.encode w = (.failed, w')
            ∧ a.saveStrategy publish s w = (.error .storage, w'))) := by
  unfold saveStrategy strategyPath
  by_cases hversion : s.version ≤ a.latestVersion
  · left
    exact ⟨if_pos hversion, hversion⟩
  · right
    refine ⟨hversion, ?_⟩
    simp only [if_neg hversion]
    rcases publish (strategyFile s.version :: strategyDirectory a.directory) s.encode w with ⟨p, w'⟩
    refine ⟨w', ?_⟩
    cases p
    · exact Or.inl ⟨rfl, rfl⟩
    · exact Or.inr (Or.inl ⟨rfl, rfl⟩)
    · exact Or.inr (Or.inr ⟨rfl, rfl⟩)

section Refused

variable {publish : Publish ω} {a : Archive} {t : Trace} {s : Strategy} {w w' : ω} {e : Failure}

theorem addTrace_error (h : a.addTrace publish t w = (.error e, w')) :
    w' = w ∨ ∃ p ≠ .created, publish (tracePath a.directory t) t.encode w = (p, w') := by
  rcases addTrace_cases publish a t w with
    ⟨hadd, -⟩ | ⟨v, ⟨-, hadd⟩ | ⟨hp, hadd⟩ | ⟨hp, hadd⟩⟩ <;> rw [h] at hadd <;> cases hadd
  · exact Or.inl rfl
  · exact Or.inr ⟨.taken, nofun, hp⟩
  · exact Or.inr ⟨.failed, nofun, hp⟩

theorem saveStrategy_error (h : a.saveStrategy publish s w = (.error e, w')) :
    w' = w ∨ ∃ p ≠ .created, publish (strategyPath a.directory s) s.encode w = (p, w') := by
  rcases saveStrategy_cases publish a s w with
    ⟨hsave, -⟩ | ⟨-, v, ⟨-, hsave⟩ | ⟨hp, hsave⟩ | ⟨hp, hsave⟩⟩ <;> rw [h] at hsave <;> cases hsave
  · exact Or.inl rfl
  · exact Or.inr ⟨.taken, nofun, hp⟩
  · exact Or.inr ⟨.failed, nofun, hp⟩

end Refused

/-! ## On a tree -/

theorem addTrace_tree (a : Archive) (t : Trace) (tree : FileTree) :
    (tree.find? (tracePath a.directory t) = none
        ∧ a.addTrace FileTree.publish t tree = (.ok (a.withTrace t),
          tree.insert (tracePath a.directory t) (.file (some t.encode))))
      ∨ ∃ e, a.addTrace FileTree.publish t tree = (.error e, tree) := by
  rcases addTrace_cases FileTree.publish a t tree with
    ⟨hadd, -⟩ | ⟨tree', ⟨hp, hadd⟩ | ⟨hp, hadd⟩ | ⟨hp, hadd⟩⟩
  · exact Or.inr ⟨_, hadd⟩
  all_goals
    rcases FileTree.publish_cases (tracePath a.directory t) t.encode tree with
      ⟨he, hnone, -⟩ | ⟨he, -⟩ | he <;> rw [he] at hp <;> cases hp
  · exact Or.inl ⟨hnone, hadd⟩
  · exact Or.inr ⟨_, hadd⟩
  · exact Or.inr ⟨_, hadd⟩

theorem saveStrategy_tree (a : Archive) (s : Strategy) (tree : FileTree) :
    (¬ s.version ≤ a.latestVersion ∧ tree.find? (strategyPath a.directory s) = none
        ∧ a.saveStrategy FileTree.publish s tree = (.ok (a.withStrategy s),
          tree.insert (strategyPath a.directory s) (.file (some s.encode))))
      ∨ (a.saveStrategy FileTree.publish s tree = (.error (.versionConflict s.version), tree)
        ∧ (s.version ≤ a.latestVersion ∨ (tree.find? (strategyPath a.directory s)).isSome))
      ∨ a.saveStrategy FileTree.publish s tree = (.error .storage, tree) := by
  rcases saveStrategy_cases FileTree.publish a s tree with
    ⟨hsave, hle⟩ | ⟨hnew, tree', ⟨hp, hsave⟩ | ⟨hp, hsave⟩ | ⟨hp, hsave⟩⟩
  · exact Or.inr (Or.inl ⟨hsave, Or.inl hle⟩)
  all_goals
    rcases FileTree.publish_cases (strategyPath a.directory s) s.encode tree with
      ⟨he, hnone, -⟩ | ⟨he, hsome⟩ | he <;> rw [he] at hp <;> cases hp
  · exact Or.inl ⟨hnew, hnone, hsave⟩
  · exact Or.inr (Or.inl ⟨hsave, Or.inr hsome⟩)
  · exact Or.inr (Or.inr hsave)

end Exploration.Archive
