import Mathlib
import Exploration.Proofs.StringMap
import Exploration.Record

/-!
# The columns of a record

The columns of a record are what its fields look up, if none of them is there twice
(`Value.columns_entries`). A list has the columns of the record whose fields it lists
(`Value.columns_list`).
-/

namespace Exploration

namespace Value

variable {names : List String} {entries : List (String × Value)}

theorem columns_entries : (record entries).columns names =
    if ∀ name ∈ names, (entries.map (·.1)).count name ≤ 1 then some (names.map (entries.lookup ·))
    else none := by
  have hcount : ∀ name, (entries.map (·.1)).count name =
      (entries.filter (·.1 = name)).length := by
    intro name
    rw [List.count, List.countP_map, List.countP_eq_length_filter]
    exact congrArg _ (List.filter_congr fun e _ => by simp [beq_eq_decide])
  simp only [columns, List.all_eq_true, decide_eq_true_eq, hcount]

theorem lookup_iff_mem {key : String} {v : Value} (h : (entries.map (·.1)).count key ≤ 1) :
    entries.lookup key = some v ↔ (key, v) ∈ entries := by
  induction entries with
  | nil => simp
  | cons e rest ih =>
    obtain ⟨k, w⟩ := e
    rw [StringMap.lookup_cons, List.mem_cons, Prod.mk.injEq]
    split_ifs with hkey
    · subst hkey
      have hnone : (key, v) ∉ rest := by
        intro hmem
        have hpos : 0 < (rest.map (·.1)).count key :=
          List.count_pos_iff.2 (List.mem_map.2 ⟨_, hmem, rfl⟩)
        rw [List.map_cons, List.count_cons_self] at h
        omega
      simp [hnone, eq_comm]
    · rw [List.map_cons, List.count_cons_of_ne (Ne.symm hkey)] at h
      simp [ih h, hkey]

theorem lookup_filter (key q : String) (entries : List (String × Value)) :
    (entries.filter (·.1 ≠ key)).lookup q = if q = key then none else entries.lookup q := by
  induction entries with
  | nil => simp
  | cons e rest ih =>
    obtain ⟨k, v⟩ := e
    rw [List.filter_cons]
    by_cases hk : k = key
    · rw [if_neg (by simpa using hk), ih, StringMap.lookup_cons, hk]
      split_ifs <;> rfl
    · rw [if_pos (by simpa using hk), StringMap.lookup_cons, ih, StringMap.lookup_cons]
      split_ifs with h₁ h₂
      · exact absurd (h₁.symm.trans h₂) hk
      · rfl
      · rfl
      · rfl

theorem keys_zip : ∀ (names : List String) (values : List Value),
    (names.zip values).map (·.1) = names.take values.length
  | [], _ => by simp
  | _ :: _, [] => by simp
  | _ :: names, _ :: values => by simp [keys_zip names values]

theorem lookup_zip (hnodup : names.Nodup) {values : List Value}
    (h : values.length ≤ names.length) : names.map ((names.zip values).lookup ·) =
      values.map some ++ List.replicate (names.length - values.length) none := by
  induction names generalizing values with
  | nil => simp_all
  | cons name names ih =>
    obtain ⟨hname, hnames⟩ := List.nodup_cons.1 hnodup
    cases values with
    | nil => simp [List.replicate_succ]
    | cons v values =>
      have hrest : names.map (((name, v) :: names.zip values).lookup ·) =
          names.map ((names.zip values).lookup ·) := by
        refine List.map_congr_left fun q hq => ?_
        rw [StringMap.lookup_cons, if_neg (ne_of_mem_of_not_mem hq hname)]
      have hih := ih hnames (Nat.le_of_succ_le_succ h)
      simp only [List.zip_cons_cons, List.map_cons, StringMap.lookup_cons name, if_true, hrest, hih,
        List.length_cons, Nat.add_sub_add_right, List.cons_append]

/-- A list is read as the record that has its items under the names of the first columns. -/
theorem columns_list (hnodup : names.Nodup) {values : List Value}
    (h : values.length ≤ names.length) :
    (list values).columns names = (record (names.zip values)).columns names := by
  rw [columns_entries, if_pos, columns, if_pos h, lookup_zip hnodup h]
  intro name _
  rw [keys_zip]
  exact List.nodup_iff_count_le_one.1 (hnodup.sublist (List.take_sublist _ _)) name

end Value

end Exploration
