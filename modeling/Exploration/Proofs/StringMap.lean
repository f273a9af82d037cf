import Mathlib
import Exploration.StringMap

/-!
# Maps made of ascending entries

A key below all others goes to the front and one above all others to the end. So entries in
ascending order make up the map that lists them (`ofList_entries`). A map holds what it lists
(`mem_entries`), and an update changes what it holds for one key (`get?_update`). Maps that hold the
same are the same (`ext_get?`), so updates that can change places under each key can be made in any
order (`foldl_update_perm`).
-/

namespace Exploration

variable {α : Type}

theorem updateEntries_of_lt {key : String} (f : Option α → α) {entries : List (String × α)}
    (h : ∀ e ∈ entries, key < e.1) : updateEntries key f entries = (key, f none) :: entries := by
  rcases entries with _ | ⟨⟨k, v⟩, rest⟩
  · rfl
  · rw [updateEntries, if_pos (h _ List.mem_cons_self)]

theorem updateEntries_of_gt {key : String} (f : Option α → α) :
    ∀ {entries : List (String × α)}, (∀ e ∈ entries, e.1 < key) →
      updateEntries key f entries = entries ++ [(key, f none)]
  | [], _ => rfl
  | (k, v) :: rest, h => by
    have hk : k < key := h _ List.mem_cons_self
    rw [updateEntries, if_neg (String.lt_asymm hk), if_neg (String.ne_of_lt hk).symm,
      updateEntries_of_gt f fun e he => h e (List.mem_cons_of_mem _ he)]
    rfl

theorem mem_updateEntries {key : String} {f : Option α → α} :
    ∀ {entries : List (String × α)} {e : String × α}, e ∈ updateEntries key f entries →
      e ∈ entries ∨ ∃ o, e = (key, f o)
  | [], e, h => Or.inr ⟨none, by simpa [updateEntries] using h⟩
  | (k, v) :: rest, e, h => by
    unfold updateEntries at h
    split_ifs at h with hlt heq
    · exact (List.mem_cons.1 h).symm.imp id fun h => ⟨none, h⟩
    · rcases List.mem_cons.1 h with rfl | h
      · exact Or.inr ⟨some v, rfl⟩
      · exact Or.inl (List.mem_cons_of_mem _ h)
    · rcases List.mem_cons.1 h with rfl | h
      · exact Or.inl List.mem_cons_self
      · exact (mem_updateEntries h).imp (List.mem_cons_of_mem _) id

namespace StringMap

/-- No value comes into a map but those it is made of. -/
theorem forall_mem_ofList {P : α → Prop} {entries : List (String × α)}
    (h : ∀ e ∈ entries, P e.2) : ∀ e ∈ (ofList entries).entries, P e.2 := by
  have hfold : ∀ (entries : List (String × α)) (m : StringMap α), (∀ e ∈ m.entries, P e.2) →
      (∀ e ∈ entries, P e.2) →
        ∀ e ∈ (entries.foldl (fun m e => m.insert e.1 e.2) m).entries, P e.2 := by
    intro entries
    induction entries with
    | nil => exact fun m hm _ => hm
    | cons e rest ih =>
      intro m hm h
      obtain ⟨he, hrest⟩ := List.forall_mem_cons.1 h
      refine ih _ (fun e' he' => ?_) hrest
      rcases mem_updateEntries he' with he' | ⟨o, rfl⟩
      · exact hm e' he'
      · exact he
  exact hfold entries empty (fun e he => absurd he List.not_mem_nil) h

theorem entries_foldl_insert : ∀ (entries : List (String × α)) (m : StringMap α),
    (m.entries ++ entries).Pairwise (·.1 < ·.1) →
      (entries.foldl (fun m e => m.insert e.1 e.2) m).entries = m.entries ++ entries
  | [], m, _ => by simp
  | e :: rest, m, h => by
    have hlt : ∀ e' ∈ m.entries, e'.1 < e.1 := fun e' he' =>
      (List.pairwise_append.1 h).2.2 e' he' e List.mem_cons_self
    have hm : (m.insert e.1 e.2).entries = m.entries ++ [e] := updateEntries_of_gt _ hlt
    rw [List.foldl_cons, entries_foldl_insert rest, hm, List.append_assoc]
    · rfl
    · rw [hm, List.append_assoc]
      exact h

theorem ofList_entries (m : StringMap α) : ofList m.entries = m :=
  ext_entries (entries_foldl_insert m.entries empty m.ascending)

/-! ## What a map holds -/

theorem get?_empty (key : String) : (∅ : StringMap α).get? key = none := rfl

theorem lookup_cons (q key : String) (value : α) (rest : List (String × α)) :
    ((key, value) :: rest).lookup q = if q = key then some value else rest.lookup q := by
  rw [List.lookup_cons]
  by_cases h : q = key
  · rw [if_pos h, beq_iff_eq.2 h]
  · rw [if_neg h, beq_eq_false_iff_ne.2 h]

theorem lookup_eq_none_of_lt {key : String} {entries : List (String × α)}
    (h : ∀ e ∈ entries, key < e.1) : entries.lookup key = none := by
  refine List.lookup_eq_none_iff.2 fun e he => bne_iff_ne.2 ?_
  exact String.ne_of_lt (h e he)

theorem mem_entries {m : StringMap α} {key : String} {value : α} :
    (key, value) ∈ m.entries ↔ m.get? key = some value := by
  obtain ⟨entries, h⟩ := m
  simp only [get?]
  induction entries with
  | nil => simp
  | cons e rest ih =>
    obtain ⟨k, v⟩ := e
    obtain ⟨hk, hrest⟩ := List.pairwise_cons.1 h
    rw [List.mem_cons, lookup_cons, ih hrest, Prod.mk.injEq]
    by_cases heq : key = k
    · rw [if_pos heq, heq, lookup_eq_none_of_lt hk]
      simp [eq_comm]
    · rw [if_neg heq]
      simp [heq]

theorem mem_keys {m : StringMap α} {key : String} :
    key ∈ m.keys ↔ (m.get? key).isSome = true := by
  rw [Option.isSome_iff_exists]
  simp only [← mem_entries]
  exact List.mem_map.trans ⟨fun ⟨e, he, hkey⟩ => ⟨e.2, hkey ▸ he⟩, fun ⟨_, he⟩ => ⟨_, he, rfl⟩⟩

theorem lookup_updateEntries (key q : String) (f : Option α → α) :
    ∀ {entries : List (String × α)}, entries.Pairwise (·.1 < ·.1) →
      (updateEntries key f entries).lookup q =
        if q = key then some (f (entries.lookup key)) else entries.lookup q
  | [], _ => lookup_cons q key _ []
  | (k, v) :: rest, h => by
    obtain ⟨hk, hrest⟩ := List.pairwise_cons.1 h
    rw [updateEntries, lookup_cons key, lookup_cons q]
    by_cases hlt : key < k
    · have hnone : rest.lookup key = none :=
        lookup_eq_none_of_lt fun e he => String.lt_trans hlt (hk e he)
      rw [if_pos hlt, lookup_cons, lookup_cons, if_neg (String.ne_of_lt hlt), hnone]
    · by_cases heq : key = k
      · rw [if_neg hlt, if_pos heq, lookup_cons, if_pos heq, ← heq]
        by_cases hq : q = key
        · rw [if_pos hq, if_pos hq]
        · rw [if_neg hq, if_neg hq, if_neg hq]
      · rw [if_neg hlt, if_neg heq, lookup_cons, lookup_updateEntries key q f hrest, if_neg heq]
        by_cases hq : q = key
        · rw [if_pos hq, if_pos hq, if_neg (hq ▸ heq)]
        · rw [if_neg hq, if_neg hq]

theorem get?_update (m : StringMap α) (key q : String) (f : Option α → α) :
    (m.update key f).get? q = if q = key then some (f (m.get? key)) else m.get? q :=
  lookup_updateEntries key q f m.ascending

/-- What updates make of a part of the value under a key: only those of that key act on it. -/
theorem foldl_update {β ι : Type} {k : ι → String} {u : ι → Option α → α} {f : Option α → β}
    {g : β → ι → β} (h : ∀ o i, f (some (u i o)) = g (f o) i) (q : String) :
    ∀ (xs : List ι) (m : StringMap α),
      f ((xs.foldl (fun m i => m.update (k i) (u i)) m).get? q) =
        (xs.filter (k · = q)).foldl g (f (m.get? q))
  | [], _ => rfl
  | i :: xs, m => by
    rw [List.foldl_cons, foldl_update h q xs, get?_update]
    by_cases hq : k i = q
    · rw [if_pos hq.symm, h, hq, List.filter_cons_of_pos (by simpa using hq), List.foldl_cons]
    · rw [if_neg (Ne.symm hq), List.filter_cons_of_neg (by simpa using hq)]

/-- The same update under each of the keys acts as often as a key is there. -/
theorem foldl_update_const {β : Type} {u : Option α → α} {f : Option α → β} {g : β → β}
    (h : ∀ o, f (some (u o)) = g (f o)) (q : String) (keys : List String) (m : StringMap α) :
    f ((keys.foldl (fun m k => m.update k u) m).get? q) = g^[keys.count q] (f (m.get? q)) := by
  have hfold := foldl_update (k := id) (g := fun b _ => g b) (fun o _ => h o) q keys m
  simp only [id, List.foldl_const, List.filter_eq, List.length_replicate] at hfold
  exact hfold

/-- What each step adds to is there in the end if it was there or a step has added to it. -/
theorem foldl_iff_exists {σ ι : Type} {f : σ → ι → σ} {P : σ → Prop} {Q : ι → Prop}
    (h : ∀ m i, P (f m i) ↔ P m ∨ Q i) :
    ∀ (xs : List ι) (m : σ), P (xs.foldl f m) ↔ P m ∨ ∃ i ∈ xs, Q i
  | [], m => by simp
  | i :: xs, m => by
    rw [List.foldl_cons, foldl_iff_exists h xs, h, or_assoc, List.exists_mem_cons_iff]

/-- A key is there after updates if it was there or one of them was for it. -/
theorem isSome_foldl_update {ι : Type} {k : ι → String} {u : ι → Option α → α} (q : String)
    (xs : List ι) (m : StringMap α) :
    ((xs.foldl (fun m i => m.update (k i) (u i)) m).get? q).isSome = true ↔
      (m.get? q).isSome = true ∨ ∃ i ∈ xs, k i = q := by
  refine foldl_iff_exists (P := fun m : StringMap α => (m.get? q).isSome = true)
    (Q := fun i => k i = q) (fun m i => ?_) xs m
  rw [get?_update]
  by_cases hq : q = k i
  · simp [hq]
  · simp [hq, Ne.symm hq]

/-! ## Updates in any order -/

theorem ext_get? {m n : StringMap α} (h : ∀ key, m.get? key = n.get? key) : m = n := by
  have hnodup : ∀ m : StringMap α, m.entries.Nodup := fun m =>
    m.ascending.imp fun hlt heq => String.ne_of_lt hlt (congrArg Prod.fst heq)
  refine ext_entries (List.Perm.eq_of_pairwise (fun a b _ _ hab hba => ?_) m.ascending n.ascending
    ((List.perm_ext_iff_of_nodup (hnodup m) (hnodup n)).2 fun ⟨key, value⟩ => ?_))
  · exact absurd hba (String.lt_asymm hab)
  · rw [mem_entries, mem_entries, h]

theorem get?_map {β : Type} (f : α → β) (m : StringMap α) (key : String) :
    (m.map f).get? key = (m.get? key).map f := by
  refine Option.ext fun value => ?_
  rw [← mem_entries, Option.map_eq_some_iff]
  simp only [map, List.mem_map, Prod.mk.injEq, ← mem_entries]
  constructor
  · rintro ⟨⟨k, v⟩, he, rfl, rfl⟩
    exact ⟨v, he, rfl⟩
  · rintro ⟨v, he, rfl⟩
    exact ⟨_, he, rfl, rfl⟩

theorem keys_congr {β : Type} {m : StringMap α} {n : StringMap β}
    (h : ∀ key, (m.get? key).isSome = (n.get? key).isSome) : m.keys = n.keys := by
  have hset : m.map (fun _ => ()) = n.map fun _ => () := by
    refine ext_get? fun key => ?_
    rw [get?_map, get?_map]
    have hkey := h key
    revert hkey
    cases m.get? key <;> cases n.get? key <;> simp
  have hkeys := congrArg keys hset
  simpa [keys, map, Function.comp_def] using hkeys

theorem update_right_comm (m : StringMap α) {j k : String} {f g : Option α → α}
    (h : j = k → ∀ o, g (some (f o)) = f (some (g o))) :
    (m.update j f).update k g = (m.update k g).update j f := by
  refine ext_get? fun q => ?_
  simp only [get?_update]
  by_cases hjk : j = k
  · subst hjk
    by_cases hq : q = j
    · simp only [if_pos hq, if_true, h rfl]
    · simp only [if_neg hq]
  · rw [if_neg (Ne.symm hjk), if_neg hjk]
    by_cases hq : q = j
    · rw [if_pos hq, if_pos hq, if_neg (hq ▸ hjk)]
    · rw [if_neg hq, if_neg hq]

/-- Updates that can change places under a key can be made in any order. -/
theorem foldl_update_perm {ι : Type} {k : ι → String} {u : ι → Option α → α}
    (hu : ∀ i j, k i = k j → ∀ o, u j (some (u i o)) = u i (some (u j o))) {xs ys : List ι}
    (h : xs.Perm ys) (m : StringMap α) :
    xs.foldl (fun m i => m.update (k i) (u i)) m = ys.foldl (fun m i => m.update (k i) (u i)) m :=
  h.foldl_eq' (fun i _ j _ m => update_right_comm m (hu i j)) m

end StringMap

theorem StringSet.nodup_toList (s : StringSet) : s.toList.Nodup :=
  List.pairwise_map.2 (s.ascending.imp String.ne_of_lt)

theorem StringSet.card_toFinset (s : StringSet) : s.toList.toFinset.card = s.size := by
  rw [List.toFinset_card_of_nodup s.nodup_toList]
  exact List.length_map _

theorem StringSet.mem_toList {s : StringSet} {x : String} :
    x ∈ s.toList ↔ (s.get? x).isSome = true :=
  StringMap.mem_keys

theorem StringSet.mem_insertAll {s : StringSet} {xs : List String} {x : String} :
    x ∈ (s.insertAll xs).toList ↔ x ∈ s.toList ∨ x ∈ xs := by
  rw [mem_toList, mem_toList]
  refine (StringMap.isSome_foldl_update (k := id) (u := fun _ _ => ()) x xs s).trans ?_
  simp only [id, exists_eq_right]

theorem StringSet.mem_ofList {xs : List String} {x : String} :
    x ∈ (StringSet.ofList xs).toList ↔ x ∈ xs := by
  have hinsert : StringSet.ofList xs = insertAll ∅ xs := List.foldl_map
  rw [hinsert, mem_insertAll]
  exact or_iff_right List.not_mem_nil

theorem StringSet.ofList_toList (s : StringSet) : StringSet.ofList s.toList = s := by
  have h : s.toList.map (·, ()) = s.entries :=
    List.map_map.trans (List.map_id s.entries)
  rw [StringSet.ofList, h, StringMap.ofList_entries]

theorem StringSet.insertAll_right_comm (s : StringSet) (xs ys : List String) :
    (s.insertAll xs).insertAll ys = (s.insertAll ys).insertAll xs := by
  unfold insertAll
  rw [← List.foldl_append, ← List.foldl_append]
  exact StringMap.foldl_update_perm (k := id) (u := fun _ _ => ()) (fun _ _ _ _ => rfl)
    List.perm_append_comm s

end Exploration
