import Mathlib

/-!
# Ranked lists

A stable sort breaks ties by the order that it finds (`pairwise_mergeSort_of_pairwise`). So the
entries of a map, sorted by a score and cut, are the first ones by score and then by key
(`foremost_mergeSort`), and there is only one list of these (`Foremost.unique`).
-/

namespace Exploration

variable {α β γ : Type}

theorem pairwise_mergeSort_of_pairwise {le : α → α → Bool}
    (htrans : ∀ a b c, le a b = true → le b c = true → le a c = true)
    (htotal : ∀ a b, (le a b || le b a) = true) {before : α → α → Prop} {xs : List α}
    (h : xs.Pairwise before) :
    (xs.mergeSort le).Pairwise fun a b => le a b = true ∧ (le b a = true → before a b) := by
  -- Being stable, the sort does what one by places as well would do.
  have hsorted := List.pairwise_mergeSort (List.zipIdxLE_trans htrans) (List.zipIdxLE_total htotal)
    xs.zipIdx
  have hplaces : (xs.zipIdx.mergeSort (List.zipIdxLE le)).Pairwise fun a b => a.2 ≠ b.2 := by
    refine ((List.mergeSort_perm _ _).pairwise_iff Ne.symm).2 ?_
    refine List.pairwise_map.1 (?_ : (xs.zipIdx.map Prod.snd).Nodup)
    rw [List.zipIdx_map_snd]
    exact List.nodup_range'
  rw [← List.mergeSort_zipIdx, List.pairwise_map]
  refine (hsorted.and hplaces).imp_of_mem fun {a b} ha hb ⟨hab, hne⟩ => ?_
  have hle : le a.1 b.1 = true ∧ (le b.1 a.1 = true → a.2 ≤ b.2) := by
    simpa [List.zipIdxLE, or_iff_not_imp_left] using hab
  obtain ⟨ha, ha'⟩ := List.getElem?_eq_some_iff.1
    (List.mem_zipIdx_iff_getElem?.1 (List.mem_mergeSort.1 ha))
  obtain ⟨hb, hb'⟩ := List.getElem?_eq_some_iff.1
    (List.mem_zipIdx_iff_getElem?.1 (List.mem_mergeSort.1 hb))
  refine ⟨hle.1, fun hba => ?_⟩
  rw [← ha', ← hb']
  exact List.pairwise_iff_getElem.1 h _ _ ha hb (lt_of_le_of_ne (hle.2 hba) hne)

/-! ## The order of a ranking -/

section Outranks

variable [LinearOrder γ]

/-- The greater score comes first; of equal ones the smaller key. -/
def Outranks (score : α → γ) (key : α → String) (a b : α) : Prop :=
  score b < score a ∨ score a = score b ∧ key a < key b

variable {score : α → γ} {key : α → String}

theorem Outranks.asymm {a b : α} (hab : Outranks score key a b) : ¬ Outranks score key b a := by
  rintro (hba | ⟨hba, hkey⟩)
  · rcases hab with hab | ⟨hab, -⟩
    · exact lt_asymm hab hba
    · exact hba.ne hab
  · rcases hab with hab | ⟨-, hkey'⟩
    · exact hab.ne hba
    · exact String.lt_asymm hkey hkey'

theorem pairwise_outranks {xs : List α} (h : xs.Pairwise (key · < key ·)) :
    (xs.mergeSort fun a b => decide (score b ≤ score a)).Pairwise (Outranks score key) := by
  refine (pairwise_mergeSort_of_pairwise (fun a b c hab hbc => ?_) (fun a b => ?_) h).imp
    fun {a b} ⟨hle, hties⟩ => ?_
  · rw [decide_eq_true_eq] at hab hbc ⊢
    exact hbc.trans hab
  · simpa using le_total (score b) (score a)
  · rw [decide_eq_true_eq] at hle hties
    exact hle.lt_or_eq.imp id fun heq => ⟨heq.symm, hties heq.ge⟩

end Outranks

theorem nodup_map_take_mergeSort {key : α → String} {xs : List α}
    (h : xs.Pairwise (key · < key ·)) (le : α → α → Bool) (k : ℕ) :
    (((xs.mergeSort le).take k).map key).Nodup := by
  have hkeys : (xs.map key).Nodup := List.pairwise_map.2 (h.imp String.ne_of_lt)
  have hsorted : ((xs.mergeSort le).map key).Nodup :=
    ((List.mergeSort_perm xs le).map key).nodup_iff.2 hkeys
  exact hsorted.sublist ((List.take_sublist k _).map key)

/-! ## The first of all candidates -/

/-- The first `k` of all candidates, or all of them if there are no more. -/
def Foremost (before : α → α → Prop) (candidate : α → Prop) (k : ℕ) (xs : List α) : Prop :=
  ∃ all : List α, all.Pairwise before ∧ (∀ a, a ∈ all ↔ candidate a) ∧ xs = all.take k

theorem foremost_mergeSort [LinearOrder γ] (score : α → γ) {key : α → String} {xs : List α}
    (h : xs.Pairwise (key · < key ·)) (k : ℕ) :
    Foremost (Outranks score key) (· ∈ xs) k
      ((xs.mergeSort fun a b => decide (score b ≤ score a)).take k) :=
  ⟨_, pairwise_outranks h, fun _ => List.mem_mergeSort, rfl⟩

namespace Foremost

variable {before : α → α → Prop} {candidate : α → Prop} {k : ℕ} {xs ys : List α}

theorem congr (h : Foremost before candidate k xs) {candidate' : α → Prop}
    (hsame : ∀ a, candidate a ↔ candidate' a) : Foremost before candidate' k xs := by
  obtain ⟨all, horder, hall, rfl⟩ := h
  exact ⟨all, horder, fun a => (hall a).trans (hsame a), rfl⟩

theorem map (h : Foremost before candidate k xs) (f : α → β) (before' : β → β → Prop)
    (hbefore : ∀ a b, candidate a → candidate b → before a b → before' (f a) (f b)) :
    Foremost before' (fun b => ∃ a, candidate a ∧ f a = b) k (xs.map f) := by
  obtain ⟨all, horder, hall, rfl⟩ := h
  refine ⟨all.map f, List.pairwise_map.2 (horder.imp_of_mem fun ha hb hab => ?_), fun b => ?_,
    List.map_take⟩
  · exact hbefore _ _ ((hall _).1 ha) ((hall _).1 hb) hab
  · simp only [List.mem_map, hall]

/-- What is left out comes after all that is there. -/
theorem before_of_notMem (h : Foremost before candidate k xs) {a b : α} (ha : a ∈ xs)
    (hb : candidate b) (hout : b ∉ xs) : before a b := by
  obtain ⟨all, horder, hall, rfl⟩ := h
  have hmem := (hall b).2 hb
  rw [← List.take_append_drop k all] at horder hmem
  exact (List.pairwise_append.1 horder).2.2 a ha b ((List.mem_append.1 hmem).resolve_left hout)

theorem unique (hasymm : ∀ a b, before a b → ¬ before b a) (hx : Foremost before candidate k xs)
    (hy : Foremost before candidate k ys) : xs = ys := by
  obtain ⟨all, horder, hall, rfl⟩ := hx
  obtain ⟨all', horder', hall', rfl⟩ := hy
  have hasymm : Std.Asymm before := ⟨hasymm⟩
  rw [horder.eq_of_mem_iff horder' fun a => (hall a).trans (hall' a).symm]

end Foremost

end Exploration
