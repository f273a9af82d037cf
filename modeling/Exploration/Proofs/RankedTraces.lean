import Mathlib
import Exploration.Proofs.RankedLists
import Exploration.Ranking

/-!
# Ranked traces

The selection sorts the traces with their shares. To sort their places by the shares comes to the
same (`select_eq`), and as the sort is stable, the places stand in one order (`Ahead`) whatever the
shares are: equal ones, infinite ones and NaN included.
-/

namespace Exploration.Ranking

/-! ## The order of places -/

section Places

variable {n : ℕ} (shares : Fin n → Float)

/-- The greater share comes first, in the total order of doubles; of equal ones the earlier
place. -/
def Ahead (i j : Fin n) : Prop :=
  Double.rank (shares j) < Double.rank (shares i) ∨
    Double.rank (shares i) = Double.rank (shares j) ∧ i < j

def ranked : List (Fin n) :=
  (List.finRange n).mergeSort fun i j => Double.totalLe (shares j) (shares i)

theorem ranked_perm : (ranked shares).Perm (List.finRange n) := List.mergeSort_perm _ _

theorem pairwise_ranked : (ranked shares).Pairwise (Ahead shares) := by
  refine (pairwise_mergeSort_of_pairwise (fun i j k hij hjk => ?_) (fun i j => ?_)
    (List.pairwise_lt_finRange n)).imp fun {i j} ⟨hle, hties⟩ => ?_
  · rw [Double.totalLe, decide_eq_true_eq] at hij hjk ⊢
    exact hjk.trans hij
  · simpa [Double.totalLe] using le_total _ _
  · rw [Double.totalLe, decide_eq_true_eq] at hle hties
    exact hle.lt_or_eq.imp id fun heq => ⟨heq.symm, hties heq.ge⟩

theorem foremost_ranked (k : ℕ) :
    Foremost (Ahead shares) (fun _ => True) k ((ranked shares).take k) :=
  ⟨_, pairwise_ranked shares,
    fun i => iff_of_true ((ranked_perm shares).mem_iff.2 (List.mem_finRange i)) trivial, rfl⟩

end Places

/-! ## The places of traces -/

theorem length_softmax (scores : List Float) : (softmax scores).length = scores.length := by
  simp [softmax]

section Traces

variable {traces : List Trace} {now : Time.Instant} {recencyPenalty : Float}

theorem length_shares (traces : List Trace) (now : Time.Instant) (recencyPenalty : Float) :
    traces.length = (softmax (traces.map (score · now recencyPenalty))).length := by
  rw [length_softmax, List.length_map]

/-- The share of the trace in a place, among the scores of all traces. -/
def share (traces : List Trace) (now : Time.Instant) (recencyPenalty : Float)
    (i : Fin traces.length) : Float :=
  (softmax (traces.map (score · now recencyPenalty))).get
    (i.cast (length_shares traces now recencyPenalty))

theorem zip_shares : (softmax (traces.map (score · now recencyPenalty))).zip traces =
    (List.finRange traces.length).map
      fun i => (share traces now recencyPenalty i, traces.get i) := by
  have hlength := length_shares traces now recencyPenalty
  refine List.ext_getElem (by simp [← hlength]) fun i hi hi' => ?_
  simp [share]

theorem select_eq {k : ℕ} (h : k < traces.length) : select traces k now recencyPenalty =
    ((ranked (share traces now recencyPenalty)).take k).map traces.get := by
  have hsort : (ranked (share traces now recencyPenalty)).map
      (fun i => (share traces now recencyPenalty i, traces.get i)) =
        ((softmax (traces.map (score · now recencyPenalty))).zip traces).mergeSort
          fun a b => Double.totalLe b.1 a.1 := by
    rw [zip_shares]
    exact List.map_mergeSort fun _ _ _ _ => rfl
  rw [select, if_neg (Nat.not_le.2 h)]
  simp only [← hsort, ← List.map_take, List.map_map]
  rfl

end Traces

/-- Fewer traces than there are come in the order of their shares, and more of them begin with
them. -/
theorem select_ahead (traces : List Trace) (now : Time.Instant) (recencyPenalty : Float) :
    (∀ k, traces.length ≤ k → select traces k now recencyPenalty = traces) ∧
    (∀ k, k < traces.length → ∃ places : List (Fin traces.length),
      select traces k now recencyPenalty = places.map traces.get ∧ places.length = k ∧
        places.Nodup ∧ places.Pairwise (Ahead (share traces now recencyPenalty)) ∧
        ∀ i ∈ places, ∀ j, j ∉ places → Ahead (share traces now recencyPenalty) i j) ∧
    ∀ k k', k < k' → k' < traces.length →
      select traces k now recencyPenalty <+: select traces k' now recencyPenalty := by
  have hperm := ranked_perm (share traces now recencyPenalty)
  refine ⟨fun k h => if_pos h, fun k h => ⟨_, select_eq h, ?_, ?_, ?_, ?_⟩,
    fun k k' hk hk' => ?_⟩
  · rw [List.length_take, hperm.length_eq, List.length_finRange, min_eq_left h.le]
  · exact (hperm.nodup_iff.2 (List.nodup_finRange _)).sublist (List.take_sublist _ _)
  · exact (pairwise_ranked _).sublist (List.take_sublist _ _)
  · exact fun i hi j hj => (foremost_ranked _ k).before_of_notMem hi trivial hj
  · rw [select_eq (hk.trans hk'), select_eq hk']
    exact (List.take_prefix_take_left hk.le).map _

end Exploration.Ranking
