import Mathlib
import Exploration.Proofs.Canonical
import Exploration.Proofs.JsonRoundTrip
import Exploration.Strategy.Record
import Exploration.Trace.Record

/-!
# Records read back

A trace or strategy is decoded from its own file text, if the text of each of its doubles stands for
that double and no arguments are nested deeper than a text may nest them (`Trace.decode_encode`,
`Strategy.decode_encode`). Everything else about them survives for any value.
-/

namespace Exploration

open Json (ReadsBack)

/-- What is written of `x` is read as `x`, and a text can hold it. -/
def Survives {α : Type} [Readable α] [Writable α] (x : α) : Prop :=
  read (write x) = some x ∧ (write x).Lossless

/-! ## Single values -/

theorem survives_string (s : String) : Survives s := ⟨rfl, trivial⟩

theorem survives_bool (b : Bool) : Survives b := ⟨rfl, trivial⟩

theorem isWord_natCast {n : Nat} (h : n < 2 ^ 64) : Value.isWord n = true := by
  have hlow : (Nat.pow 2 63 : Int) = 9223372036854775808 := rfl
  have hhigh : (Nat.pow 2 64 : Int) = 18446744073709551616 := rfl
  simp only [Value.isWord, hlow, hhigh, Bool.and_eq_true, decide_eq_true_eq]
  omega

theorem survives_uint32 (n : UInt32) : Survives n := by
  have h := n.toNat_lt
  refine ⟨?_, isWord_natCast (by omega)⟩
  simp [write, read, readBelow, UInt32.size, h]

theorem survives_uint64 (n : UInt64) : Survives n := by
  have h := n.toNat_lt
  refine ⟨?_, isWord_natCast h⟩
  simp [write, read, readBelow, UInt64.size, h]

theorem survives_float {x : Float} (h : ReadsBack x) : Survives x :=
  ⟨rfl, by simpa only [write, Value.Lossless] using h⟩

theorem survives_canonical {v : Canonical} (hd : v.1.depth ≤ argsDepth)
    (hx : ∀ x ∈ v.1.doubles, ReadsBack x) : Survives v := by
  refine ⟨?_, Value.lossless_of_isCanonical v.2 hx⟩
  show (if v.1.depth ≤ argsDepth then v.1.canonical? else none) = some v
  rw [if_pos hd, Value.canonical?_val]

section Containers

variable {α : Type} [Readable α] [Writable α]

theorem survives_list {xs : List α} (h : ∀ x ∈ xs, Survives x) : Survives xs := by
  refine ⟨?_, ?_⟩
  · show (xs.map write).mapM read = some xs
    induction xs with
    | nil => rfl
    | cons x xs ih =>
      rw [List.map_cons, List.mapM_cons, (h x List.mem_cons_self).1,
        ih fun y hy => h y (List.mem_cons_of_mem _ hy)]
      rfl
  · show Value.AllLossless (xs.map write)
    simpa [Value.allLossless_iff] using fun x hx => (h x hx).2

theorem survives_stringMap {m : StringMap α} (h : ∀ e ∈ m.entries, Survives e.2) :
    Survives m := by
  refine ⟨?_, ?_⟩
  · have hm : ∀ entries : List (String × α), (∀ e ∈ entries, Survives e.2) →
        (entries.map fun e => (e.1, write e.2)).mapM
          (fun field : String × Value => (read field.2).map (field.1, ·)) = some entries := by
      intro entries h
      induction entries with
      | nil => rfl
      | cons e entries ih =>
        rw [List.map_cons, List.mapM_cons, (h e List.mem_cons_self).1,
          ih fun y hy => h y (List.mem_cons_of_mem _ hy)]
        rfl
    have hr : read (write m) = (List.mapM (fun field : String × Value =>
        (read field.2).map (field.1, ·)) (m.entries.map fun e => (e.1, write e.2))).map
        (StringMap.ofList (α := α)) := rfl
    rw [hr, hm _ h, Option.map_some, StringMap.ofList_entries]
  · show Value.AllFieldsLossless (m.entries.map fun e => (e.1, write e.2))
    rw [Value.allFieldsLossless_iff]
    rintro f hf
    obtain ⟨e, he, rfl⟩ := List.mem_map.1 hf
    exact (h e he).2

theorem survives_stringSet (s : StringSet) : Survives s := by
  have h : Survives s.toList := survives_list fun x _ => survives_string x
  refine ⟨?_, h.2⟩
  show (read (write s.toList) : Option (List String)).map StringSet.ofList = some s
  rw [h.1, Option.map_some, StringSet.ofList_toList]

end Containers

/-! ## Records -/

theorem columns_record {fields : List (String × Value)} (h : (fields.map (·.1)).Nodup) :
    (Value.record fields).columns (fields.map (·.1)) = some (fields.map fun f => some f.2) := by
  have hcount : ∀ f ∈ fields, (fields.filter (·.1 = f.1)).length ≤ 1 := by
    intro f hf
    have := List.nodup_iff_count_le_one.1 h f.1
    rw [List.count, List.countP_map, List.countP_eq_length_filter] at this
    refine le_of_eq_of_le ?_ this
    congr 1
  have hlookup : ∀ f ∈ fields, fields.lookup f.1 = some f.2 := by
    intro f hf
    obtain ⟨before, after, rfl⟩ := List.append_of_mem hf
    refine List.lookup_eq_some_iff.2 ⟨before, after, rfl, fun p hp => ?_⟩
    rw [List.map_append, List.map_cons] at h
    have hne := (List.nodup_append.1 h).2.2 p.1 (List.mem_map_of_mem hp) f.1 List.mem_cons_self
    simpa using Ne.symm hne
  have hall : ((fields.map (·.1)).all fun name =>
      decide ((fields.filter (·.1 = name)).length ≤ 1)) = true := by
    simpa using fun n v hv => hcount (n, v) hv
  simp only [Value.columns, hall, if_true, List.map_map]
  exact congrArg some (List.map_congr_left hlookup)

section Fields

variable {α : Type}

/-- A record that lists its fields in their declared order is read from their values. -/
theorem survives_record [Readable α] [Writable α] {x : α} {names : List String}
    {fields : List (String × Value)} {make : List (Option Value) → Option α}
    (hr : ∀ v : Value, read v = (v.columns names).bind make) (hw : write x = .record fields)
    (hn : fields.map (·.1) = names) (hd : names.Nodup)
    (hm : make (fields.map fun f => some f.2) = some x) (hl : ∀ f ∈ fields, f.2.Lossless) :
    Survives x := by
  subst hn
  refine ⟨?_, ?_⟩
  · rw [hr, hw, columns_record hd]
    exact hm
  · rw [hw]
    simpa only [Value.Lossless, Value.allFieldsLossless_iff] using hl

variable [Readable α] [Writable α] {x : α}

theorem required_write (h : Survives x) : required (some (write x)) = some x := h.1

theorem orElse_write (d : α) (h : Survives x) : orElse d (some (write x)) = some x := h.1

end Fields

/-! ## Traces -/

theorem survives_searchTool (t : SearchTool) : Survives t := by
  cases t <;> exact ⟨rfl, trivial⟩

theorem survives_toolCall {c : ToolCall} (hd : c.args.1.depth ≤ argsDepth)
    (hx : ∀ x ∈ c.args.1.doubles, ReadsBack x) : Survives c := by
  have hargs := survives_canonical hd hx
  refine survives_record (fun _ => rfl) rfl rfl (by decide) ?_ ?_
  · simp only [List.map_cons, List.map_nil, required_write hargs,
      required_write (survives_string _), required_write (survives_bool _),
      required_write (survives_uint64 _), Option.bind_eq_bind, Option.bind_some]
  · simp only [List.forall_mem_cons]
    exact ⟨trivial, hargs.2, (survives_uint64 _).2, trivial, (survives_uint64 _).2, by simp⟩

theorem survives_search (s : Search) : Survives s := by
  refine survives_record (fun _ => rfl) rfl rfl (by decide) ?_ ?_
  · simp only [List.map_cons, List.map_nil, required_write (survives_string _),
      required_write (survives_searchTool _), required_write (survives_bool _),
      required_write (survives_uint64 _), Option.bind_eq_bind, Option.bind_some]
  · simp only [List.forall_mem_cons]
    exact ⟨trivial, (survives_searchTool _).2, trivial, (survives_uint64 _).2, by simp⟩

theorem survives_crossReference (c : CrossReference) : Survives c := by
  refine survives_record (fun _ => rfl) rfl rfl (by decide) ?_ ?_
  · simp only [List.map_cons, List.map_nil, required_write (survives_string _),
      required_write (survives_stringSet _), required_write (survives_uint64 _),
      Option.bind_eq_bind, Option.bind_some]
  · simp only [List.forall_mem_cons]
    exact ⟨trivial, (survives_stringSet _).2, (survives_uint64 _).2, by simp⟩

theorem survives_connection (c : Connection) : Survives c := by
  refine survives_record (fun _ => rfl) rfl rfl (by decide) ?_ ?_
  · simp only [List.map_cons, List.map_nil, required_write (survives_string _),
      required_write (survives_stringSet _), required_write (survives_uint64 _),
      Option.bind_eq_bind, Option.bind_some]
  · simp only [List.forall_mem_cons]
    exact ⟨trivial, (survives_stringSet _).2, (survives_uint64 _).2, by simp⟩

theorem survives_strings (xs : List String) : Survives xs :=
  survives_list fun x _ => survives_string x

namespace Trace

/-- The doubles in a trace, those in the arguments of its calls included. -/
def doubles (t : Trace) : List Float :=
  t.profileScore :: t.cost :: t.duration :: t.toolCalls.flatMap fun c => c.args.1.doubles

/-- A file can hold the trace as it is. -/
structure Storable (t : Trace) : Prop where
  doubles : ∀ x ∈ t.doubles, ReadsBack x
  depth : ∀ c ∈ t.toolCalls, c.args.1.depth ≤ argsDepth

theorem Storable.survives {t : Trace} (h : t.Storable) : Survives t := by
  have hd := h.doubles
  simp only [Trace.doubles, List.forall_mem_cons, List.mem_flatMap] at hd
  obtain ⟨hscore, hcost, hduration, hargs⟩ := hd
  have hcalls : Survives t.toolCalls := survives_list fun c hc =>
    survives_toolCall (h.depth c hc) fun x hx => hargs x ⟨c, hc, hx⟩
  have hsearches : Survives t.searches := survives_list fun s _ => survives_search s
  have hreferences : Survives t.crossReferences :=
    survives_list fun c _ => survives_crossReference c
  have hconnections : Survives t.connections := survives_list fun c _ => survives_connection c
  refine survives_record (fun _ => rfl) rfl rfl (by simp [fieldNames]) ?_ ?_
  · simp only [List.map_cons, List.map_nil, required_write (survives_string _),
      required_write (survives_uint32 _), required_write hcalls, required_write hsearches,
      required_write hreferences, orElse_write _ (survives_strings _),
      orElse_write _ hconnections, required_write (survives_float hscore),
      required_write (survives_float hcost), required_write (survives_float hduration),
      Option.bind_eq_bind, Option.bind_some]
  · simp only [List.forall_mem_cons]
    exact ⟨trivial, trivial, (survives_uint32 _).2, hcalls.2, hsearches.2, hreferences.2,
      (survives_strings _).2, (survives_strings _).2, hconnections.2, (survives_float hscore).2,
      (survives_float hcost).2, (survives_float hduration).2, by simp⟩

theorem decode_encode {t : Trace} (h : t.Storable) : decode t.encode = some t := by
  obtain ⟨hread, hloss⟩ := h.survives
  rw [decode, encode, Json.parse_prettyText hloss, Option.bind_some, hread]

end Trace

/-! ## Strategies -/

theorem survives_productiveSearch {s : ProductiveSearch} (hrate : ReadsBack s.hitRate)
    (hrelevance : ReadsBack s.relevance) : Survives s := by
  refine survives_record (fun _ => rfl) rfl rfl (by decide) ?_ ?_
  · simp only [List.map_cons, List.map_nil, required_write (survives_string _),
      required_write (survives_float hrate), required_write (survives_float hrelevance),
      Option.bind_eq_bind, Option.bind_some]
  · simp only [List.forall_mem_cons]
    exact ⟨trivial, (survives_float hrate).2, (survives_float hrelevance).2, by simp⟩

theorem survives_sharedTopic {t : SharedTopic} (h : ReadsBack t.strength) : Survives t := by
  refine survives_record (fun _ => rfl) rfl rfl (by decide) ?_ ?_
  · simp only [List.map_cons, List.map_nil, required_write (survives_string _),
      required_write (survives_strings _), required_write (survives_float h),
      Option.bind_eq_bind, Option.bind_some]
  · simp only [List.forall_mem_cons]
    exact ⟨trivial, (survives_strings _).2, (survives_float h).2, by simp⟩

namespace Strategy

/-- The doubles in a strategy. -/
def doubles (s : Strategy) : List Float :=
  s.totalCost :: (s.productiveSearches.flatMap (fun p => [p.hitRate, p.relevance]) ++
    s.sourcePriorities.entries.map (·.2) ++ s.sharedTopics.map (·.strength))

/-- A file can hold the strategy as it is. -/
def Storable (s : Strategy) : Prop := ∀ x ∈ s.doubles, ReadsBack x

theorem Storable.survives {s : Strategy} (h : s.Storable) : Survives s := by
  simp only [Storable, doubles, List.forall_mem_cons, List.forall_mem_append,
    List.forall_mem_flatMap, List.forall_mem_map] at h
  obtain ⟨hcost, ⟨hsearches, hpriorities⟩, htopics⟩ := h
  have hs : Survives s.productiveSearches := survives_list fun p hp => by
    obtain ⟨hrate, hrelevance, -⟩ := hsearches p hp
    exact survives_productiveSearch hrate hrelevance
  have hp : Survives s.sourcePriorities :=
    survives_stringMap fun e he => survives_float (hpriorities e he)
  have ht : Survives s.sharedTopics := survives_list fun t h => survives_sharedTopic (htopics t h)
  refine survives_record (fun _ => rfl) rfl rfl (by simp [fieldNames]) ?_ ?_
  · simp only [List.map_cons, List.map_nil, required_write (survives_uint32 _),
      required_write hs, required_write (survives_strings _), required_write hp,
      required_write ht, required_write (survives_uint64 _),
      required_write (survives_float hcost), Option.bind_eq_bind, Option.bind_some]
  · simp only [List.forall_mem_cons]
    exact ⟨(survives_uint32 _).2, hs.2, (survives_strings _).2, hp.2, ht.2,
      (survives_strings _).2, (survives_uint64 _).2, (survives_float hcost).2, by simp⟩

theorem decode_encode {s : Strategy} (h : s.Storable) : decode s.encode = some s := by
  obtain ⟨hread, hloss⟩ := h.survives
  rw [decode, encode, Json.parse_prettyText hloss, Option.bind_some, hread]

end Strategy

end Exploration
