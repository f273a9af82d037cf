import Mathlib
import Exploration.Proofs.Columns
import Exploration.Proofs.RecordRoundTrip

/-!
# Ways to write a record

A record can be written in many ways: with its fields in any order, with fields that nobody asks
for, as the list of its fields, and with its sets listed in any order (`Restated`). It can also be
written wrongly, by leaving out a field, by repeating one or by giving null (`Faulty`). What the
parts of a record are is its `Shape`. A reader for a shape is one to which the first makes no
difference and that reads nothing of the second (`Reads`). The readers of lists, sets, maps and
arguments are such.
-/

namespace Exploration

inductive Shape where
  /-- What has no parts. -/
  | whole
  /-- The arguments of a call, which may be any value and also null. -/
  | any
  /-- A set of texts, which is written as a list. -/
  | set
  | list (item : Shape)
  /-- A record with any keys. -/
  | map (item : Shape)
  /-- A record with these fields in their declared order. Some may be left out. -/
  | record (fields : List (String × Shape)) (optional : List String)

/-- The two values differ in one respect that says nothing. -/
inductive Restated : Shape → Value → Value → Prop where
  /-- The fields stand in another order. -/
  | order {fields optional entries entries'} (h : entries.Perm entries') :
    Restated (.record fields optional) (.record entries) (.record entries')
  /-- There is a field that the record does not have. -/
  | unknown {fields optional entries key v} (h : key ∉ fields.map (·.1)) :
    Restated (.record fields optional) (.record entries) (.record ((key, v) :: entries))
  /-- The fields are listed in their declared order. -/
  | places {fields optional values} (h : values.length = fields.length) :
    Restated (.record fields optional) (.record ((fields.map (·.1)).zip values)) (.list values)
  /-- A field is restated. -/
  | field {fields optional before after key shape v w} (hkey : (key, shape) ∈ fields)
    (h : Restated shape v w) :
    Restated (.record fields optional) (.record (before ++ (key, v) :: after))
      (.record (before ++ (key, w) :: after))
  | item {shape before after v w} (h : Restated shape v w) :
    Restated (.list shape) (.list (before ++ v :: after)) (.list (before ++ w :: after))
  /-- A set is listed in another order or with other repetitions. -/
  | elements {xs ys : List String} (h : ∀ x, x ∈ xs ↔ x ∈ ys) :
    Restated .set (.list (xs.map .text)) (.list (ys.map .text))
  /-- Two fields of a map change places. Of a repeated key the last value counts. -/
  | swap {shape before after} {e f : String × Value} (h : e.1 ≠ f.1) :
    Restated (.map shape) (.record (before ++ e :: f :: after))
      (.record (before ++ f :: e :: after))
  | entry {shape before after key v w} (h : Restated shape v w) :
    Restated (.map shape) (.record (before ++ (key, v) :: after))
      (.record (before ++ (key, w) :: after))
  /-- A list among arguments is restated. -/
  | anyList {v w} (h : Restated (.list .any) v w) : Restated .any v w
  /-- A record among arguments is restated. -/
  | anyMap {v w} (h : Restated (.map .any) v w) : Restated .any v w

/-- Parts are restated any number of times within a value. -/
theorem eqvGen_within {shape shape' : Shape} {f : Value → Value}
    (hf : ∀ {v w}, Restated shape v w → Restated shape' (f v) (f w)) {v w : Value}
    (h : Relation.EqvGen (Restated shape) v w) : Relation.EqvGen (Restated shape') (f v) (f w) := by
  induction h with
  | rel v w h => exact .rel _ _ (hf h)
  | refl v => exact .refl _
  | symm v w _ ih => exact .symm _ _ ih
  | trans u v w _ _ ih₁ ih₂ => exact .trans _ _ _ ih₁ ih₂

/-- Something in the value is missing, repeated or null that may not be. -/
inductive Faulty : Shape → Value → Prop where
  | null {shape} (h : shape ≠ .any) : Faulty shape .null
  | missing {fields optional entries key} (hkey : key ∈ fields.map (·.1))
    (hrequired : key ∉ optional) (h : key ∉ entries.map (·.1)) :
    Faulty (.record fields optional) (.record entries)
  | repeated {fields optional entries key} (hkey : key ∈ fields.map (·.1))
    (h : 2 ≤ (entries.map (·.1)).count key) :
    Faulty (.record fields optional) (.record entries)
  | field {fields optional entries key shape v} (hkey : (key, shape) ∈ fields)
    (hentry : (key, v) ∈ entries) (h : Faulty shape v) :
    Faulty (.record fields optional) (.record entries)
  /-- What is wrong is in a list of the fields. -/
  | places {fields optional values}
    (h : Faulty (.record fields optional) (.record ((fields.map (·.1)).zip values))) :
    Faulty (.record fields optional) (.list values)
  | item {shape items v} (hitem : v ∈ items) (h : Faulty shape v) :
    Faulty (.list shape) (.list items)
  | entry {shape entries key v} (hentry : (key, v) ∈ entries) (h : Faulty shape v) :
    Faulty (.map shape) (.record entries)

/-- A reader of values of this shape. -/
structure Reads {α : Type} (shape : Shape) (read : Value → Option α) : Prop where
  restated : ∀ {v w}, Restated shape v w → read v = read w
  faulty : ∀ {v}, Faulty shape v → read v = none

theorem Reads.eqvGen {α : Type} {shape : Shape} {read : Value → Option α} (h : Reads shape read)
    {v w : Value} (hvw : Relation.EqvGen (Restated shape) v w) : read v = read w := by
  induction hvw with
  | rel v w hvw => exact h.restated hvw
  | refl v => rfl
  | symm v w _ ih => exact ih.symm
  | trans u v w _ _ ih₁ ih₂ => exact ih₁.trans ih₂

theorem reads_whole {α : Type} {read : Value → Option α} (h : read .null = none) :
    Reads .whole read where
  restated hvw := by cases hvw
  faulty hv := by
    cases hv
    exact h

/-! ## Lists, maps and sets -/

theorem mapM_eq_none {α β : Type} {f : α → Option β} {x : α} (h : f x = none) :
    ∀ {xs : List α}, x ∈ xs → xs.mapM f = none
  | y :: xs, hx => by
    rw [List.mapM_cons]
    rcases List.mem_cons.1 hx with rfl | hx
    · rw [h]
      rfl
    · rw [mapM_eq_none h hx]
      cases f y <;> rfl

theorem mapM_congr_at {α β : Type} {f : α → Option β} {x y : α} (h : f x = f y)
    (before after : List α) :
    (before ++ x :: after).mapM f = (before ++ y :: after).mapM f := by
  simp only [List.mapM_append, List.mapM_cons, h]

section Containers

variable {α : Type} [Readable α] {shape : Shape}

theorem reads_list (h : Reads shape (read : Value → Option α)) :
    Reads (.list shape) (read : Value → Option (List α)) where
  restated hvw := by
    cases hvw with
    | item hvw => exact mapM_congr_at (h.restated hvw) _ _
  faulty hv := by
    cases hv with
    | null => rfl
    | item hitem hv => exact mapM_eq_none (h.faulty hv) hitem

/-- How a map reads one of its entries. -/
def readEntry (e : String × Value) : Option (String × α) := (read e.2).map (e.1, ·)

omit [Readable α] in
theorem ofList_swap {e f : String × α} (h : e.1 ≠ f.1) (before after : List (String × α)) :
    StringMap.ofList (before ++ e :: f :: after) =
      StringMap.ofList (before ++ f :: e :: after) := by
  simp only [StringMap.ofList, List.foldl_append, List.foldl_cons, StringMap.insert]
  rw [StringMap.update_right_comm _ fun heq => absurd heq h]

theorem reads_map (h : Reads shape (read : Value → Option α)) :
    Reads (.map shape) (read : Value → Option (StringMap α)) where
  restated {v w} hvw := by
    have hread : ∀ entries, (read (.record entries) : Option (StringMap α)) =
        (entries.mapM readEntry).map StringMap.ofList := fun _ => rfl
    cases hvw with
    | @swap _ before after e f hne =>
      rw [hread, hread]
      simp only [List.mapM_append, List.mapM_cons]
      have hkey : ∀ {e : String × Value} {e' : String × α}, readEntry e = some e' → e'.1 = e.1 := by
        intro e e' he
        obtain ⟨x, -, rfl⟩ := Option.map_eq_some_iff.1 he
        rfl
      cases before.mapM (readEntry (α := α)) with
      | none => rfl
      | some before' =>
        cases he : readEntry (α := α) e with
        | none => cases readEntry (α := α) f <;> rfl
        | some e' =>
          cases hf : readEntry (α := α) f with
          | none => rfl
          | some f' =>
            cases after.mapM (readEntry (α := α)) with
            | none => rfl
            | some after' =>
              exact congrArg some (ofList_swap (by rwa [hkey he, hkey hf]) before' after')
    | entry hvw =>
      rw [hread, hread, mapM_congr_at]
      rw [readEntry, readEntry, h.restated hvw]
  faulty hv := by
    cases hv with
    | null => rfl
    | @entry _ entries key v hentry hv =>
      have hnone : (readEntry (key, v) : Option (String × α)) = none := by
        rw [readEntry, h.faulty hv]
        rfl
      have hread : (read (.record entries) : Option (StringMap α)) =
        (entries.mapM readEntry).map StringMap.ofList := rfl
      rw [hread, mapM_eq_none hnone hentry]
      rfl

end Containers

/-! ## Arguments -/

namespace Value

/-- Arguments are the same if these are. -/
structure Alike (v w : Value) : Prop where
  depth : v.depth = w.depth
  sorted : v.sorted = w.sorted
  isReadable : v.isReadable = w.isReadable

variable {v w : Value}

theorem Alike.items {xs ys : List Value} (h : (list xs).Alike (list ys)) :
    ∀ before, (list (before ++ xs)).Alike (list (before ++ ys))
  | [] => h
  | x :: before => by
    obtain ⟨hdepth, hsorted, hreadable⟩ := Alike.items h before
    simp only [Value.depth, Value.sorted, Value.isReadable, Nat.add_right_cancel_iff,
      list.injEq] at hdepth hsorted hreadable
    exact ⟨by simp [Value.depth, depthItems, hdepth], by simp [Value.sorted, sortedItems, hsorted],
      by simp [Value.isReadable, areReadable, hreadable]⟩

theorem Alike.item (h : v.Alike w) (before after : List Value) :
    (list (before ++ v :: after)).Alike (list (before ++ w :: after)) :=
  Alike.items ⟨by simp [Value.depth, depthItems, h.depth],
    by simp [Value.sorted, sortedItems, h.sorted],
    by simp [Value.isReadable, areReadable, h.isReadable]⟩ before

theorem Alike.fields {xs ys : List (String × Value)} (h : (record xs).Alike (record ys)) :
    ∀ before, (record (before ++ xs)).Alike (record (before ++ ys))
  | [] => h
  | x :: before => by
    obtain ⟨hdepth, hsorted, hreadable⟩ := Alike.fields h before
    simp only [Value.depth, Value.sorted, Value.isReadable, Nat.add_right_cancel_iff,
      record.injEq] at hdepth hsorted hreadable
    exact ⟨by simp [Value.depth, depthFields, hdepth],
      by simp [Value.sorted, sortedFields, hsorted],
      by simp [Value.isReadable, areReadableFields, hreadable]⟩

theorem Alike.field (h : v.Alike w) (key : String) (before after : List (String × Value)) :
    (record (before ++ (key, v) :: after)).Alike (record (before ++ (key, w) :: after)) :=
  Alike.fields ⟨by simp [Value.depth, depthFields, h.depth],
    by simp [Value.sorted, sortedFields, h.sorted],
    by simp [Value.isReadable, areReadableFields, h.isReadable]⟩ before

theorem alike_swap {e f : String × Value} (h : e.1 ≠ f.1) (before after : List (String × Value)) :
    (record (before ++ e :: f :: after)).Alike (record (before ++ f :: e :: after)) := by
  have hsorted := StringMap.update_right_comm ⟨_, ascending_sortedFields after⟩
    (j := f.1) (k := e.1) (f := (·.getD f.2.sorted)) (g := (·.getD e.2.sorted))
    fun heq => absurd heq.symm h
  refine Alike.fields ⟨?_, ?_, ?_⟩ before
  · simp only [Value.depth, depthFields]
    omega
  · simp only [Value.sorted, sortedFields]
    exact congrArg (fun m => record m.entries) hsorted
  · simp only [Value.isReadable, areReadableFields, Bool.and_left_comm]

/-- In arguments there are lists and records of any keys only. -/
theorem alike_of_restated {shape : Shape} (h : Restated shape v w)
    (hshape : shape = .any ∨ shape = .list .any ∨ shape = .map .any) : v.Alike w := by
  induction h with
  | order | unknown | places | field | elements => simp at hshape
  | item _ ih =>
    obtain rfl : _ = Shape.any := by simpa using hshape
    exact (ih (.inl rfl)).item _ _
  | swap hne => exact alike_swap hne _ _
  | entry _ ih =>
    obtain rfl : _ = Shape.any := by simpa using hshape
    exact (ih (.inl rfl)).field _ _ _
  | anyList _ ih => exact ih (.inr (.inl rfl))
  | anyMap _ ih => exact ih (.inr (.inr rfl))

end Value

theorem reads_any : Reads .any (read : Value → Option Canonical) where
  restated {v w} hvw := by
    have h := Value.alike_of_restated hvw (.inl rfl)
    simp only [read, Value.canonical?, h.depth, h.sorted, h.isReadable]
  faulty hv := by
    cases hv
    contradiction

/-! ## Sets -/

theorem StringSet.ofList_congr {xs ys : List String} (h : ∀ x, x ∈ xs ↔ x ∈ ys) :
    StringSet.ofList xs = StringSet.ofList ys := by
  refine StringMap.ext_get? fun key => ?_
  have hmem : ∀ zs : List String,
      key ∈ zs ↔ ((StringSet.ofList zs).get? key).isSome = true := fun zs => by
    rw [← StringSet.mem_toList, StringSet.mem_ofList]
  have hkey := h key
  rw [hmem, hmem] at hkey
  revert hkey
  cases (StringSet.ofList xs).get? key <;> cases (StringSet.ofList ys).get? key <;> simp

theorem reads_set : Reads .set (read : Value → Option StringSet) where
  restated hvw := by
    cases hvw with
    | @elements xs ys h =>
      have hread : ∀ xs : List String, (read (.list (xs.map .text)) : Option StringSet) =
          some (StringSet.ofList xs) := fun xs =>
        congrArg (Option.map StringSet.ofList) (survives_strings xs).1
      rw [hread, hread, StringSet.ofList_congr h]
  faulty hv := by
    cases hv
    rfl

end Exploration
