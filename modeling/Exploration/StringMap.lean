/-!
# Maps with text keys

Association lists in strictly ascending order of their keys, so that a map has one representation
and lists its keys in order. A set of texts is a map to `Unit`.
-/

namespace Exploration

/-- `key` gets the value `f` makes of its present one, at its place in the order. -/
def updateEntries {α : Type} (key : String) (f : Option α → α) :
    List (String × α) → List (String × α)
  | [] => [(key, f none)]
  | (k, v) :: rest =>
    if key < k then (key, f none) :: (k, v) :: rest
    else if key = k then (key, f (some v)) :: rest
    else (k, v) :: updateEntries key f rest

theorem key_of_mem_updateEntries {α : Type} {key : String} {f : Option α → α} :
    ∀ {entries : List (String × α)} {e : String × α}, e ∈ updateEntries key f entries →
      e.1 = key ∨ ∃ e' ∈ entries, e'.1 = e.1
  | [], e, h => by simp [updateEntries] at h; simp [h]
  | (k, v) :: rest, e, h => by
    simp only [updateEntries] at h
    split at h
    · rcases List.mem_cons.1 h with rfl | h
      · exact .inl rfl
      · exact .inr ⟨e, h, rfl⟩
    · split at h
      · rcases List.mem_cons.1 h with rfl | h
        · exact .inl rfl
        · exact .inr ⟨e, List.mem_cons_of_mem _ h, rfl⟩
      · rcases List.mem_cons.1 h with rfl | h
        · exact .inr ⟨_, List.mem_cons_self, rfl⟩
        · rcases key_of_mem_updateEntries h with h | ⟨e', he', h⟩
          · exact .inl h
          · exact .inr ⟨e', List.mem_cons_of_mem _ he', h⟩

theorem updateEntries_ascending {α : Type} (key : String) (f : Option α → α) :
    ∀ {entries : List (String × α)}, entries.Pairwise (·.1 < ·.1) →
      (updateEntries key f entries).Pairwise (·.1 < ·.1)
  | [], _ => by simp [updateEntries]
  | (k, v) :: rest, h => by
    have hk := List.pairwise_cons.1 h
    simp only [updateEntries]
    split
    · rename_i hlt
      refine List.pairwise_cons.2 ⟨fun e he => ?_, h⟩
      rcases List.mem_cons.1 he with rfl | he
      · exact hlt
      · exact String.lt_trans hlt (hk.1 e he)
    · rename_i hlt
      split
      · rename_i heq
        subst heq
        exact List.pairwise_cons.2 ⟨hk.1, hk.2⟩
      · rename_i hne
        refine List.pairwise_cons.2 ⟨fun e he => ?_, updateEntries_ascending key f hk.2⟩
        rcases key_of_mem_updateEntries he with h | ⟨e', he', h⟩
        · simp only [h]
          exact Classical.byContradiction fun hge => hne (String.le_antisymm (String.not_lt.1 hge)
            (String.not_lt.1 hlt))
        · exact h ▸ hk.1 e' he'

structure StringMap (α : Type) where
  entries : List (String × α)
  ascending : entries.Pairwise (·.1 < ·.1)

namespace StringMap

variable {α β : Type}

theorem ext_entries {m n : StringMap α} (h : m.entries = n.entries) : m = n := by
  cases m; cases n; simp_all

def empty : StringMap α := ⟨[], .nil⟩

instance : EmptyCollection (StringMap α) := ⟨empty⟩

instance : Inhabited (StringMap α) := ⟨empty⟩

def update (m : StringMap α) (key : String) (f : Option α → α) : StringMap α :=
  ⟨updateEntries key f m.entries, updateEntries_ascending key f m.ascending⟩

/-- A key that is there already gets the new value. -/
def insert (m : StringMap α) (key : String) (value : α) : StringMap α :=
  m.update key fun _ => value

/-- Of the values given for one key the last one stays. -/
def ofList (entries : List (String × α)) : StringMap α :=
  entries.foldl (fun m e => m.insert e.1 e.2) empty

def get? (m : StringMap α) (key : String) : Option α := m.entries.lookup key

def keys (m : StringMap α) : List String := m.entries.map (·.1)

def isEmpty (m : StringMap α) : Bool := m.entries.isEmpty

def map (f : α → β) (m : StringMap α) : StringMap β :=
  ⟨m.entries.map fun e => (e.1, f e.2), List.pairwise_map.2 m.ascending⟩

end StringMap

abbrev StringSet := StringMap Unit

namespace StringSet

def ofList (xs : List String) : StringSet := StringMap.ofList (xs.map (·, ()))

/-- The elements in ascending order. -/
def toList (s : StringSet) : List String := s.keys

def insertAll (s : StringSet) (xs : List String) : StringSet :=
  xs.foldl (fun s x => StringMap.insert s x ()) s

def size (s : StringSet) : Nat := s.entries.length

end StringSet

end Exploration
