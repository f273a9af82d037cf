import Mathlib
import Exploration.Proofs.Canonical
import Exploration.Proofs.SettingsLeaves

/-!
# Leaves in layers

A layer that is laid over another sets a leaf to its own value if it has one, and leaves what the
other says otherwise (`Leaf.map_read_cover`). So of several layers the topmost that sets a leaf
decides about this leaf, whatever the others say, and a leaf that none of them sets has its default
(`Settings.ofLayers_eq_check`, `Settings.ofLayers_eq_unreadable`).
-/

namespace Exploration

namespace Value

variable {u v : Value} {key : String}

/-! ## Sorted records -/

/-- The last value of a field of a record. -/
def last? (key : String) : Value → Option Value
  | .record fields => fields.reverse.lookup key
  | _ => none

theorem field?_sorted (key : String) (v : Value) :
    v.sorted.field? key = (v.last? key).map sorted := by
  cases v with
  | record fields =>
    rw [sorted]
    exact lookup_sortedFields key fields
  | _ => simp [sorted, field?, last?]

def isRecord : Value → Bool
  | .record _ => true
  | _ => false

/-! ## Layers over layers -/

theorem ascending_coverFields : ∀ (upper : List (String × Value)) {lower : List (String × Value)},
    lower.Pairwise (·.1 < ·.1) → (coverFields upper lower).Pairwise (·.1 < ·.1)
  | [], _, h => by rwa [coverFields]
  | (key, v) :: rest, _, h => by
    rw [coverFields]
    exact ascending_coverFields rest (updateEntries_ascending _ _ h)

theorem lookup_coverFields (q : String) : ∀ {upper lower : List (String × Value)},
    upper.Pairwise (·.1 < ·.1) → lower.Pairwise (·.1 < ·.1) →
      (coverFields upper lower).lookup q =
        (upper.lookup q).elim (lower.lookup q) fun v => some ((lower.lookup q).elim v v.cover)
  | [], _, _, _ => by simp [coverFields]
  | (key, v) :: rest, lower, hupper, hlower => by
    obtain ⟨hkey, hrest⟩ := List.pairwise_cons.1 hupper
    rw [coverFields, lookup_coverFields q hrest (updateEntries_ascending _ _ hlower),
      StringMap.lookup_updateEntries _ _ _ hlower, StringMap.lookup_cons]
    split_ifs with h
    · rw [h, StringMap.lookup_eq_none_of_lt hkey]
      rfl
    · rfl

theorem IsMap.cover (hu : u.IsMap) (hv : v.IsMap) : (u.cover v).IsMap := by
  obtain ⟨upper, rfl, -⟩ := hu
  obtain ⟨lower, rfl, hlower⟩ := hv
  exact ⟨_, by rw [Value.cover], ascending_coverFields upper hlower⟩

theorem field?_cover (hu : u.IsMap) (hv : v.IsMap) (key : String) : (u.cover v).field? key =
    (u.field? key).elim (v.field? key) fun w => some ((v.field? key).elim w w.cover) := by
  obtain ⟨upper, rfl, hupper⟩ := hu
  obtain ⟨lower, rfl, hlower⟩ := hv
  rw [cover]
  exact lookup_coverFields key hupper hlower

theorem IsLayer.cover (hu : u.IsLayer) (hv : v.IsLayer) : (u.cover v).IsLayer := by
  refine ⟨hu.isMap.cover hv.isMap, fun name hname w hw => ?_⟩
  rw [field?_cover hu.isMap hv.isMap] at hw
  cases hupper : u.field? name with
  | none =>
    rw [hupper] at hw
    exact hv.sections name hname w hw
  | some upper =>
    rw [hupper, Option.elim_some, Option.some.injEq] at hw
    subst hw
    cases hlower : v.field? name with
    | none => exact hu.sections name hname _ hupper
    | some lower => exact (hu.sections name hname _ hupper).cover (hv.sections name hname _ hlower)

theorem coverAll_concat (lowest : Value) (layers : List Value) (top : Value) :
    lowest.coverAll (layers ++ [top]) = top.cover (lowest.coverAll layers) :=
  List.foldl_concat ..

theorem IsLayer.coverAll (hv : v.IsLayer) {layers : List Value} (h : ∀ u ∈ layers, u.IsLayer) :
    (v.coverAll layers).IsLayer := by
  induction layers using List.reverseRecOn with
  | nil => exact hv
  | append_singleton layers u ih =>
    rw [List.forall_mem_append, List.forall_mem_singleton] at h
    rw [coverAll_concat]
    exact h.2.cover (ih h.1)

end Value

namespace Leaf

variable {u v : Value} (leaf : Leaf)

theorem value?_cover (hu : u.IsLayer) (hv : v.IsLayer) : leaf.value? (u.cover v) =
    (leaf.value? u).elim (leaf.value? v) fun w => some ((leaf.value? v).elim w w.cover) := by
  rw [value?, value?, value?, Value.field?_cover hu.isMap hv.isMap]
  cases hupper : u.field? leaf.part with
  | none => rfl
  | some upper =>
    have hmap := hu.sections _ leaf.part_mem _ hupper
    cases hlower : v.field? leaf.part with
    | none => cases h : upper.field? leaf.name <;> simp [h]
    | some lower =>
      simpa using Value.field?_cover hmap (hv.sections _ leaf.part_mem _ hlower) leaf.name

/-- Only a record can show what it covers, and no leaf is one. -/
theorem read_cover (u v : Value) : (read (u.cover v) : Option leaf.Content) = read u := by
  cases u with
  | record upper =>
    cases v with
    | record lower => rw [Value.cover, read_record, read_record]
    | _ => rw [Value.cover]; simp
  | _ => rw [Value.cover]; simp

theorem map_read_cover (hu : u.IsLayer) (hv : v.IsLayer) :
    (leaf.value? (u.cover v)).map (read : Value → Option leaf.Content) =
      ((leaf.value? u).or (leaf.value? v)).map read := by
  rw [value?_cover leaf hu hv]
  cases leaf.value? u with
  | none => rfl
  | some w =>
    cases leaf.value? v with
    | none => rfl
    | some w' => simp [read_cover]

theorem map_read_coverAll (hv : v.IsLayer) {layers : List Value} (h : ∀ u ∈ layers, u.IsLayer) :
    (leaf.value? (v.coverAll layers)).map (read : Value → Option leaf.Content) =
      ((layers.reverse.findSome? leaf.value?).or (leaf.value? v)).map read := by
  induction layers using List.reverseRecOn with
  | nil => rfl
  | append_singleton layers u ih =>
    rw [List.forall_mem_append, List.forall_mem_singleton] at h
    have hrest := ih h.1
    rw [Value.coverAll_concat, map_read_cover leaf h.2 (hv.coverAll h.1), List.reverse_concat,
      List.findSome?_cons]
    cases leaf.value? u with
    | none => exact hrest
    | some w => rfl

end Leaf

/-! ## Layers over the defaults -/

namespace Settings

variable {layers : List Value}

/-- Whether the sections that are there are records. -/
def hasSections (fields : List (String × Value)) : Bool :=
  (sectionSizes.map (·.1)).all fun name => (fields.reverse.lookup name).all Value.isRecord

theorem isLayer_sorted {fields : List (String × Value)} (h : hasSections fields = true) :
    (Value.record fields).sorted.IsLayer := by
  have hmap : ∀ fields, (Value.record fields).sorted.IsMap := fun fields =>
    ⟨_, by rw [Value.sorted], Value.ascending_sortedFields fields⟩
  refine ⟨hmap fields, fun name hname w hw => ?_⟩
  rw [Value.field?_sorted] at hw
  obtain ⟨v, hv, rfl⟩ := Option.map_eq_some_iff.1 hw
  have hlast : fields.reverse.lookup name = some v := hv
  have hrecord := List.all_eq_true.1 h name hname
  rw [hlast, Option.all_some] at hrecord
  cases v with
  | record fields => exact hmap fields
  | _ => cases hrecord

/-- What the defaults are before anything is laid over them. -/
def lowest : Value := (write ({} : Settings)).sorted

theorem isLayer_lowest : lowest.IsLayer := isLayer_sorted (by decide +kernel)

end Settings

namespace Leaf

/-- What a record sets a leaf to, if of several values the last counts. -/
def last? (leaf : Leaf) (v : Value) : Option Value :=
  (v.last? leaf.part).bind (·.last? leaf.name)

theorem value?_sorted (leaf : Leaf) (v : Value) :
    leaf.value? v.sorted = (leaf.last? v).map Value.sorted := by
  rw [value?, last?, Value.field?_sorted]
  cases v.last? leaf.part with
  | none => rfl
  | some w => exact Value.field?_sorted leaf.name w

theorem map_read_sorted (leaf : Leaf) (v : Value) :
    (leaf.value? v.sorted).map (read : Value → Option leaf.Content) =
      (leaf.last? v).map read := by
  have hread : (read : Value → Option leaf.Content) ∘ Value.sorted = read :=
    funext (read_sorted leaf)
  rw [value?_sorted, Option.map_map, hread]

theorem map_read_lowest (leaf : Leaf) : (leaf.value? Settings.lowest).map read =
    some (some (({} : Settings).get leaf)) := by
  rw [Settings.lowest, map_read_sorted]
  cases leaf <;> decide +kernel

end Leaf

namespace Settings

variable {layers : List Value}

theorem orElse_coverAll (h : ∀ u ∈ layers, u.IsLayer) (leaf : Leaf) :
    orElse (({} : Settings).get leaf) (leaf.value? (lowest.coverAll layers)) =
      orElse (({} : Settings).get leaf) (layers.reverse.findSome? leaf.value?) := by
  have hmap := leaf.map_read_coverAll isLayer_lowest h
  cases htop : layers.reverse.findSome? leaf.value? with
  | none =>
    rw [htop, Option.none_or, leaf.map_read_lowest] at hmap
    obtain ⟨v, hv, hread⟩ := Option.map_eq_some_iff.1 hmap
    rw [hv]
    exact hread
  | some v =>
    rw [htop, Option.some_or] at hmap
    exact orElse_congr hmap

theorem ofLayers_eq_check (h : ∀ u ∈ layers, u.IsLayer) {s : Settings}
    (hs : ∀ leaf, orElse (({} : Settings).get leaf) (layers.reverse.findSome? leaf.value?) =
      some (s.get leaf)) : ofLayers layers = check s := by
  have hread := (read_eq_some (isLayer_lowest.coverAll h)).2 fun leaf =>
    (orElse_coverAll h leaf).trans (hs leaf)
  rw [lowest] at hread
  rw [ofLayers, hread]

theorem ofLayers_eq_unreadable (h : ∀ u ∈ layers, u.IsLayer) {leaf : Leaf}
    (hleaf : orElse (({} : Settings).get leaf) (layers.reverse.findSome? leaf.value?) = none) :
    ofLayers layers = .error .unreadable := by
  have hread := (read_eq_none (isLayer_lowest.coverAll h)).2
    ⟨leaf, (orElse_coverAll h leaf).trans hleaf⟩
  rw [lowest] at hread
  rw [ofLayers, hread]

end Settings

end Exploration
