import Mathlib
import Exploration.Proofs.Presentations

/-!
# Ways to write the fields of a record

The fields of a record are looked up by their names or taken by their places. Either way the reader
of the record is a reader for its shape if those of its fields are for theirs (`ReadsFields.reads`).
-/

namespace Exploration

/-! ## Columns -/

/-- A reader of the column of this field. -/
structure ReadsColumn {α : Type} (optional : List String) (f : String × Shape)
    (read : Option Value → Option α) : Prop where
  restated : ∀ {v w}, Restated f.2 v w → read (some v) = read (some w)
  faulty : ∀ {v}, Faulty f.2 v → read (some v) = none
  missing : f.1 ∉ optional → read none = none

/-- A record is made column by column: the next one is looked at if there is something to read in
those before it. -/
inductive ReadsColumns {α : Type} (optional : List String) :
    List (String × Shape) → ((String → Option Value) → Option α) → Prop where
  | done (x : Option α) : ReadsColumns optional [] fun _ => x
  | column {β : Type} {f fields} {read : Option Value → Option β}
    {next : β → (String → Option Value) → Option α} (h : ReadsColumn optional f read)
    (hnext : ∀ y, ReadsColumns optional fields (next y)) :
    ReadsColumns optional (f :: fields) fun column => do next (← read (column f.1)) column

namespace ReadsColumns

variable {α : Type} {fields : List (String × Shape)} {optional : List String}

section Next

variable {β : Type} [Readable β] {shape : Shape} {key : String}
  {next : β → (String → Option Value) → Option α}

theorem required (h : Reads shape (read : Value → Option β))
    (hnext : ∀ y, ReadsColumns optional fields (next y)) :
    ReadsColumns optional ((key, shape) :: fields)
      (fun column => do next (← Exploration.required (column key)) column) :=
  .column ⟨fun hvw => h.restated hvw, fun hv => h.faulty hv, fun _ => rfl⟩ hnext

theorem whole (h : (read .null : Option β) = none)
    (hnext : ∀ y, ReadsColumns optional fields (next y)) :
    ReadsColumns optional ((key, .whole) :: fields)
      (fun column => do next (← Exploration.required (column key)) column) :=
  .required (reads_whole h) hnext

theorem orElse (h : Reads shape (read : Value → Option β)) (hkey : key ∈ optional) {d : β}
    (hnext : ∀ y, ReadsColumns optional fields (next y)) :
    ReadsColumns optional ((key, shape) :: fields)
      (fun column => do next (← Exploration.orElse d (column key)) column) :=
  .column ⟨fun hvw => h.restated hvw, fun hv => h.faulty hv, fun h => absurd hkey h⟩ hnext

end Next

variable {make : (String → Option Value) → Option α}

theorem congr (h : ReadsColumns optional fields make)
    (column column' : String → Option Value)
    (hcolumn : ∀ f ∈ fields, ∀ {β : Type} {read : Option Value → Option β},
      ReadsColumn optional f read → read (column f.1) = read (column' f.1)) :
    make column = make column' := by
  induction h with
  | done => rfl
  | column h _ ih =>
    beta_reduce
    rw [hcolumn _ List.mem_cons_self h]
    exact bind_congr fun y => ih y fun f hf => hcolumn f (List.mem_cons_of_mem _ hf)

theorem eq_none (h : ReadsColumns optional fields make)
    (column : String → Option Value) {f : String × Shape} (hf : f ∈ fields)
    (hcolumn : ∀ {β : Type} {read : Option Value → Option β}, ReadsColumn optional f read →
      read (column f.1) = none) : make column = none := by
  induction h with
  | done => cases hf
  | @column _ f' _ read _ h _ ih =>
    beta_reduce
    rcases List.mem_cons.1 hf with rfl | hf
    · rw [hcolumn h]
      rfl
    · cases read (column f'.1) with
      | none => rfl
      | some y => exact ih y hf

end ReadsColumns

/-- A reader that makes a record of its columns. -/
structure ReadsFields {α : Type} (fields : List (String × Shape)) (optional : List String)
    (read : Value → Option α) : Prop where
  nodup : (fields.map (·.1)).Nodup
  make : ∃ make : List (Option Value) → Option α,
    (∀ v, read v = (v.columns (fields.map (·.1))).bind make) ∧
      ReadsColumns optional fields fun column => make (fields.map fun f => column f.1)

namespace ReadsFields

variable {α : Type} {fields : List (String × Shape)} {optional : List String}
  {read : Value → Option α} {entries : List (String × Value)}

theorem congr (h : ReadsFields fields optional read) {entries' : List (String × Value)}
    (hcount : ∀ f ∈ fields, (entries.map (·.1)).count f.1 = (entries'.map (·.1)).count f.1)
    (hcolumn : ∀ f ∈ fields, (entries.map (·.1)).count f.1 ≤ 1 →
      ∀ {β : Type} {read : Option Value → Option β}, ReadsColumn optional f read →
        read (entries.lookup f.1) = read (entries'.lookup f.1)) :
    read (.record entries) = read (.record entries') := by
  obtain ⟨make, hread, hmake⟩ := h.make
  rw [hread, hread, Value.columns_entries, Value.columns_entries]
  simp only [List.forall_mem_map]
  have honce : (∀ f ∈ fields, (entries.map (·.1)).count f.1 ≤ 1) ↔
      ∀ f ∈ fields, (entries'.map (·.1)).count f.1 ≤ 1 :=
    forall₂_congr fun f hf => by rw [hcount f hf]
  simp only [← honce]
  split_ifs with hle
  · have hcongr := hmake.congr (entries.lookup ·) (entries'.lookup ·) fun f hf =>
      hcolumn f hf (hle f hf)
    simpa only [Option.bind_some, List.map_map, Function.comp_def] using hcongr
  · rfl

theorem eq_none (h : ReadsFields fields optional read) {f : String × Shape} (hf : f ∈ fields)
    (hcolumn : (entries.map (·.1)).count f.1 ≤ 1 → ∀ {β : Type} {read : Option Value → Option β},
      ReadsColumn optional f read → read (entries.lookup f.1) = none) :
    read (.record entries) = none := by
  obtain ⟨make, hread, hmake⟩ := h.make
  rw [hread, Value.columns_entries]
  split_ifs with honce
  · have hnone := hmake.eq_none (entries.lookup ·) hf
      (hcolumn (honce _ (List.mem_map_of_mem hf)))
    simpa only [Option.bind_some, List.map_map, Function.comp_def] using hnone
  · rfl

theorem record_restated (h : ReadsFields fields optional read) {entries' : List (String × Value)}
    (hentries : Restated (.record fields optional) (.record entries) (.record entries')) :
    read (.record entries) = read (.record entries') := by
  cases hentries with
  | order hperm =>
    have hcount := fun key => (hperm.map (·.1)).count_eq key
    refine h.congr (fun f _ => hcount f.1) fun f _ honce _ _ _ => ?_
    have hlookup : entries.lookup f.1 = entries'.lookup f.1 := by
      refine Option.ext fun v => ?_
      rw [Value.lookup_iff_mem honce, Value.lookup_iff_mem (hcount f.1 ▸ honce), hperm.mem_iff]
    rw [hlookup]
  | @unknown _ _ _ key v hkey =>
    have hne : ∀ f ∈ fields, f.1 ≠ key := fun f hf =>
      ne_of_mem_of_not_mem (List.mem_map_of_mem hf) hkey
    refine h.congr (fun f hf => ?_) fun f hf _ _ _ _ => ?_
    · rw [List.map_cons, List.count_cons_of_ne (hne f hf).symm]
    · rw [StringMap.lookup_cons, if_neg (hne f hf)]
  | @field _ _ before after key shape v w hkey hvw =>
    have hcount : ∀ q, ((before ++ (key, v) :: after).map (·.1)).count q =
        ((before ++ (key, w) :: after).map (·.1)).count q := by simp
    refine h.congr (fun f _ => hcount f.1) fun f hf honce _ _ hread => ?_
    by_cases hf' : f.1 = key
    · obtain rfl : f = (key, shape) := List.inj_on_of_nodup_map h.nodup hf hkey hf'
      have hv : (before ++ (key, v) :: after).lookup key = some v :=
        (Value.lookup_iff_mem honce).2 (by simp)
      have hw : (before ++ (key, w) :: after).lookup key = some w :=
        (Value.lookup_iff_mem (hcount key ▸ honce)).2 (by simp)
      rw [hv, hw, hread.restated hvw]
    · have hlookup : (before ++ (key, v) :: after).lookup f.1 =
          (before ++ (key, w) :: after).lookup f.1 := by
        simp only [List.lookup_append, StringMap.lookup_cons, if_neg hf']
      rw [hlookup]

theorem record_faulty (h : ReadsFields fields optional read)
    (hentries : Faulty (.record fields optional) (.record entries)) :
    read (.record entries) = none := by
  cases hentries with
  | missing hkey hrequired hentries =>
    obtain ⟨f, hf, rfl⟩ := List.mem_map.1 hkey
    refine h.eq_none hf fun _ _ _ hread => ?_
    have hnone : entries.lookup f.1 = none := by
      refine List.lookup_eq_none_iff.2 fun e he => bne_iff_ne.2 fun heq => hentries ?_
      exact List.mem_map.2 ⟨e, he, heq.symm⟩
    rw [hnone, hread.missing hrequired]
  | repeated hkey htwice =>
    obtain ⟨f, hf, rfl⟩ := List.mem_map.1 hkey
    exact h.eq_none hf fun honce => absurd honce (by omega)
  | field hkey hentry hv =>
    refine h.eq_none hkey fun honce _ _ hread => ?_
    rw [(Value.lookup_iff_mem honce).2 hentry, hread.faulty hv]

theorem list_eq_record (h : ReadsFields fields optional read) {values : List Value}
    (hlength : values.length ≤ fields.length) :
    read (.list values) = read (.record ((fields.map (·.1)).zip values)) := by
  obtain ⟨make, hread, -⟩ := h.make
  rw [hread, hread, Value.columns_list h.nodup (by rwa [List.length_map])]

theorem reads (h : ReadsFields fields optional read) : Reads (.record fields optional) read where
  restated hvw := by
    cases hvw with
    | order hperm => exact h.record_restated (.order hperm)
    | unknown hkey => exact h.record_restated (.unknown hkey)
    | field hkey hvw => exact h.record_restated (.field hkey hvw)
    | places hlength => exact (h.list_eq_record hlength.le).symm
  faulty hv := by
    obtain ⟨make, hread, -⟩ := h.make
    cases hv with
    | null =>
      rw [hread]
      rfl
    | missing hkey hrequired hv => exact h.record_faulty (.missing hkey hrequired hv)
    | repeated hkey htwice => exact h.record_faulty (.repeated hkey htwice)
    | field hkey hentry hv => exact h.record_faulty (.field hkey hentry hv)
    | @places _ _ values hv =>
      by_cases hlength : values.length ≤ fields.length
      · rw [h.list_eq_record hlength, h.record_faulty hv]
      · rw [hread, Value.columns, if_neg (by rwa [List.length_map])]
        rfl

end ReadsFields

end Exploration
