import Mathlib
import Exploration.Archive

/-!
# The order of traces

Traces stand in the order of their moments (`Trace.chronological_iff`): by time, the ones without a
readable timestamp first, and by run id where the times are equal. Traces with distinct run ids have
distinct moments, so there is one way to sort them (`mergeSort_chronological_congr`).
-/

namespace Exploration

/-- The seconds count first, then the nanoseconds. -/
def Time.Instant.key (i : Time.Instant) : ℤ ×ₗ ℕ := toLex (i.seconds, i.nanos)

theorem Time.Instant.le_iff (a b : Time.Instant) : a.le b = true ↔ a.key ≤ b.key := by
  rw [key, key, Prod.Lex.toLex_le_toLex]
  simp only [le, Bool.or_eq_true, Bool.and_eq_true, decide_eq_true_eq]

namespace Trace

/-- What traces are ordered by: when the timestamp says they began, then the run id. -/
def moment (t : Trace) : WithBot (ℤ ×ₗ ℕ) ×ₗ String :=
  toLex ((Time.Instant.read t.timestamp).elim ⊥ fun i => (i.key : WithBot (ℤ ×ₗ ℕ)), t.runId)

theorem chronological_iff (a b : Trace) : a.chronological b = true ↔ a.moment ≤ b.moment := by
  rw [moment, moment, Prod.Lex.toLex_le_toLex]
  unfold chronological parsedTimestamp
  rcases Time.Instant.read a.timestamp with _ | x <;>
    rcases Time.Instant.read b.timestamp with _ | y
  · simp
  · simp
  · simp
  · simp only [Option.elim_some, WithBot.coe_lt_coe, WithBot.coe_inj]
    by_cases hxy : x.key ≤ y.key
    · have hyx : y.le x = true ↔ x.key = y.key := by
        rw [Time.Instant.le_iff]
        exact ⟨le_antisymm hxy, fun h => h.ge⟩
      rw [if_pos ((Time.Instant.le_iff x y).2 hxy), Bool.or_eq_true, decide_eq_true_eq,
        Bool.not_eq_true', ← Bool.not_eq_true, hyx, hxy.lt_iff_ne]
      tauto
    · rw [if_neg (mt (Time.Instant.le_iff x y).1 hxy)]
      have hlt := not_le.1 hxy
      simp [hlt.not_gt, hlt.ne']

theorem chronological_trans (a b c : Trace) (hab : a.chronological b = true)
    (hbc : b.chronological c = true) : a.chronological c = true := by
  rw [chronological_iff] at hab hbc ⊢
  exact hab.trans hbc

theorem chronological_total (a b : Trace) : (a.chronological b || b.chronological a) = true := by
  rw [Bool.or_eq_true, chronological_iff, chronological_iff]
  exact le_total _ _

theorem runId_eq_of_moment_eq {a b : Trace} (h : a.moment = b.moment) : a.runId = b.runId :=
  congrArg (fun m => (ofLex m).2) h

theorem moment_lt_of_le {a b : Trace} (hle : a.moment ≤ b.moment) (hne : a.runId ≠ b.runId) :
    a.moment < b.moment :=
  lt_of_le_of_ne hle fun heq => hne (runId_eq_of_moment_eq heq)

end Trace

theorem pairwise_mergeSort_chronological (traces : List Trace) :
    (traces.mergeSort Trace.chronological).Pairwise (·.moment ≤ ·.moment) :=
  (List.pairwise_mergeSort Trace.chronological_trans Trace.chronological_total traces).imp
    fun h => (Trace.chronological_iff _ _).1 h

/-- However they are listed, traces with distinct run ids come out in the same order. -/
theorem mergeSort_chronological_congr {traces traces' : List Trace} (h : traces.Perm traces')
    (hids : (traces.map (·.runId)).Nodup) :
    traces.mergeSort Trace.chronological = traces'.mergeSort Trace.chronological := by
  refine List.Perm.eq_of_pairwise (fun a b ha hb hab hba => ?_)
    (pairwise_mergeSort_chronological traces) (pairwise_mergeSort_chronological traces')
    ((List.mergeSort_perm _ _).trans (h.trans (List.mergeSort_perm _ _).symm))
  rw [List.mem_mergeSort] at ha hb
  exact List.inj_on_of_nodup_map hids ha (h.mem_iff.2 hb)
    (Trace.runId_eq_of_moment_eq (le_antisymm hab hba))

end Exploration
