import Mathlib
import Exploration.Proofs.StringMap
import Exploration.Value

/-!
# Canonical values

A record is sorted by its keys, and each of them has the last of its values
(`Value.lookup_sortedFields`). A value in canonical form is its own canonical form: it is sorted
already, and every part of it stands for something.
-/

namespace Exploration

namespace Value

theorem ascending_sortedFields :
    ∀ fields : List (String × Value), (sortedFields fields).Pairwise (·.1 < ·.1)
  | [] => by simp [sortedFields]
  | (key, v) :: rest => by
    rw [sortedFields]
    exact updateEntries_ascending _ _ (ascending_sortedFields rest)

theorem lookup_sortedFields (key : String) : ∀ fields : List (String × Value),
    (sortedFields fields).lookup key = (fields.reverse.lookup key).map sorted
  | [] => by simp [sortedFields]
  | (k, v) :: rest => by
    rw [sortedFields, StringMap.lookup_updateEntries _ _ _ (ascending_sortedFields rest),
      lookup_sortedFields, lookup_sortedFields, List.reverse_cons, List.lookup_append,
      StringMap.lookup_cons]
    split_ifs with h
    · subst h
      cases rest.reverse.lookup key <;> rfl
    · cases rest.reverse.lookup key <;> rfl

mutual

theorem sorted_of_isCanonical : ∀ {v : Value}, v.isCanonical = true → v.sorted = v
  | .null, _ | .flag _, _ | .int _, _ | .double _, _ | .text _, _ | .unreadable, _ => by
    simp [sorted]
  | .list items, h => by
    simp only [isCanonical, sorted] at h ⊢
    rw [sortedItems_of_areCanonical h]
  | .record fields, h => by
    simp only [isCanonical, sorted] at h ⊢
    rw [sortedFields_of_areCanonical h]

theorem sortedItems_of_areCanonical : ∀ {items : List Value}, areCanonical items = true →
    sortedItems items = items
  | [], _ => by simp [sortedItems]
  | v :: rest, h => by
    simp only [areCanonical, Bool.and_eq_true, sortedItems] at h ⊢
    rw [sorted_of_isCanonical h.1, sortedItems_of_areCanonical h.2]

theorem sortedFields_of_areCanonical : ∀ {fields : List (String × Value)},
    areCanonicalFields fields = true → sortedFields fields = fields
  | [], _ => by simp [sortedFields]
  | (key, v) :: rest, h => by
    simp only [areCanonicalFields, Bool.and_eq_true, sortedFields, List.all_eq_true,
      decide_eq_true_eq] at h ⊢
    rw [sortedFields_of_areCanonical h.2, sorted_of_isCanonical h.1.2,
      updateEntries_of_lt _ h.1.1]
    rfl

end

mutual

theorem isReadable_of_isCanonical : ∀ {v : Value}, v.isCanonical = true → v.isReadable = true
  | .null, _ | .flag _, _ | .int _, _ | .double _, _ | .text _, _ => by simp [isReadable]
  | .list items, h => by
    simp only [isCanonical, isReadable] at h ⊢
    exact areReadable_of_areCanonical h
  | .record fields, h => by
    simp only [isCanonical, isReadable] at h ⊢
    exact areReadableFields_of_areCanonical h
  | .unreadable, h => by simp [isCanonical] at h

theorem areReadable_of_areCanonical : ∀ {items : List Value}, areCanonical items = true →
    areReadable items = true
  | [], _ => by simp [areReadable]
  | v :: rest, h => by
    simp only [areCanonical, areReadable, Bool.and_eq_true] at h ⊢
    exact ⟨isReadable_of_isCanonical h.1, areReadable_of_areCanonical h.2⟩

theorem areReadableFields_of_areCanonical : ∀ {fields : List (String × Value)},
    areCanonicalFields fields = true → areReadableFields fields = true
  | [], _ => by simp [areReadableFields]
  | (key, v) :: rest, h => by
    simp only [areCanonicalFields, areReadableFields, Bool.and_eq_true] at h ⊢
    exact ⟨isReadable_of_isCanonical h.1.2, areReadableFields_of_areCanonical h.2⟩

end

theorem canonical?_val (v : Canonical) : v.1.canonical? = some v := by
  have hs := sorted_of_isCanonical v.2
  have hc : v.1.isReadable = true ∧ v.1.sorted.isCanonical = true :=
    ⟨isReadable_of_isCanonical v.2, hs.symm ▸ v.2⟩
  unfold canonical?
  simp only [dif_pos hc, Option.some.injEq]
  exact Subtype.ext hs

end Value

end Exploration
