import Mathlib
import Exploration.Proofs.FiniteDoubles
import Exploration.Proofs.RecordRoundTrip

/-!
# Decoded numbers

A JSON text stands for finite doubles only: what is beyond them is unreadable. So a record that is
decoded from a text has finite numbers only (`Trace.isFinite_of_decode`,
`Strategy.isFinite_of_decode`).
-/

namespace Exploration

/-! ## Values -/

theorem forall_mem_of_mapM {α β : Type} {f : α → Option β} {P : β → Prop} :
    ∀ {xs : List α} {ys : List β}, xs.mapM f = some ys →
      (∀ x ∈ xs, ∀ y, f x = some y → P y) → ∀ y ∈ ys, P y
  | [], ys, h, _ => by
    obtain rfl : ys = [] := by simpa using h.symm
    simp
  | x :: xs, ys, h, hP => by
    rw [List.mapM_cons] at h
    obtain ⟨y, hy, h⟩ := Option.bind_eq_some_iff.1 h
    obtain ⟨rest, hrest, h⟩ := Option.bind_eq_some_iff.1 h
    obtain rfl : y :: rest = ys := Option.some.inj h
    exact List.forall_mem_cons.2 ⟨hP x List.mem_cons_self y hy,
      forall_mem_of_mapM hrest fun x' hx' => hP x' (List.mem_cons_of_mem x hx')⟩

namespace Value

/-- All doubles in a value are finite. -/
def AllFinite (v : Value) : Prop := ∀ x ∈ v.doubles, Double.isFinite x = true

theorem mem_doublesOfItems {x : Float} : ∀ {items : List Value},
    x ∈ doublesOfItems items ↔ ∃ v ∈ items, x ∈ v.doubles
  | [] => by simp [doublesOfItems]
  | v :: rest => by simp [doublesOfItems, mem_doublesOfItems]

theorem mem_doublesOfFields {x : Float} : ∀ {fields : List (String × Value)},
    x ∈ doublesOfFields fields ↔ ∃ f ∈ fields, x ∈ f.2.doubles
  | [] => by simp [doublesOfFields]
  | (key, v) :: rest => by simp [doublesOfFields, mem_doublesOfFields]

theorem allFinite_list {items : List Value} :
    (Value.list items).AllFinite ↔ ∀ v ∈ items, v.AllFinite := by
  simp only [AllFinite, doubles, mem_doublesOfItems]
  exact ⟨fun h v hv x hx => h x ⟨v, hv, hx⟩, fun h x ⟨v, hv, hx⟩ => h v hv x hx⟩

theorem allFinite_record {fields : List (String × Value)} :
    (Value.record fields).AllFinite ↔ ∀ f ∈ fields, f.2.AllFinite := by
  simp only [AllFinite, doubles, mem_doublesOfFields]
  exact ⟨fun h f hf x hx => h x ⟨f, hf, hx⟩, fun h x ⟨f, hf, hx⟩ => h f hf x hx⟩

theorem allFinite_of_doubles {v : Value} (h : v.doubles = []) : v.AllFinite := by
  rw [AllFinite, h]
  exact fun x hx => absurd hx List.not_mem_nil

end Value

namespace Value

mutual

theorem allFinite_of_isCanonical : ∀ {v : Value}, v.isCanonical = true → v.AllFinite
  | .null, _ | .flag _, _ | .int _, _ | .text _, _ | .unreadable, _ =>
    allFinite_of_doubles (by simp [doubles])
  | .double x, h => by
    intro y hy
    obtain rfl : y = x := by simpa [doubles] using hy
    simpa [isCanonical] using h
  | .list items, h => by
    rw [isCanonical] at h
    exact allFinite_list.2 (allFinite_of_areCanonical h)
  | .record fields, h => by
    rw [isCanonical] at h
    exact allFinite_record.2 (allFinite_of_areCanonicalFields h)

theorem allFinite_of_areCanonical : ∀ {items : List Value}, areCanonical items = true →
    ∀ v ∈ items, v.AllFinite
  | [], _ => by simp
  | v :: rest, h => by
    rw [areCanonical, Bool.and_eq_true] at h
    exact List.forall_mem_cons.2 ⟨allFinite_of_isCanonical h.1, allFinite_of_areCanonical h.2⟩

theorem allFinite_of_areCanonicalFields : ∀ {fields : List (String × Value)},
    areCanonicalFields fields = true → ∀ f ∈ fields, f.2.AllFinite
  | [], _ => by simp
  | (key, v) :: rest, h => by
    simp only [areCanonicalFields, Bool.and_eq_true] at h
    exact List.forall_mem_cons.2
      ⟨allFinite_of_isCanonical h.1.2, allFinite_of_areCanonicalFields h.2⟩

end

end Value

/-! ## Texts -/

namespace Json

open Value (allFinite_list allFinite_record allFinite_of_doubles)

theorem allFinite_doubleValue (l : Decimal.Literal) : (doubleValue l).AllFinite := by
  unfold doubleValue
  dsimp only
  split_ifs with h
  · intro x hx
    obtain rfl : x = l.toDouble := by simpa [Value.doubles] using hx
    exact h
  · exact allFinite_of_doubles (by simp [Value.doubles])

theorem allFinite_numberValue (negative : Bool) (ds : List Char) (f : Option (List Char))
    (e : Option Int) : (numberValue negative ds f e).AllFinite := by
  unfold numberValue
  split
  · dsimp only
    generalize (if negative = true then -(Decimal.ofDigits ds : Int) else Decimal.ofDigits ds) = n
    split_ifs
    · exact allFinite_of_doubles (by simp [Value.doubles])
    · exact allFinite_doubleValue _
  · exact allFinite_doubleValue _

theorem allFinite_number {cs rest : List Char} {v : Value} (h : number cs = some (v, rest)) :
    v.AllFinite := by
  have hunsigned : ∀ negative cs, unsignedNumber negative cs = some (v, rest) → v.AllFinite := by
    intro negative cs h
    simp only [unsignedNumber, Option.bind_eq_bind, Option.bind_eq_some_iff, Option.some.injEq,
      Prod.mk.injEq] at h
    obtain ⟨-, -, -, -, -, -, rfl, -⟩ := h
    exact allFinite_numberValue _ _ _ _
  unfold number at h
  split at h
  · exact hunsigned _ _ h
  · exact hunsigned _ _ h

theorem allFinite_recordValue {fields : List (Option String × Value)}
    (h : ∀ f ∈ fields, f.2.AllFinite) : (recordValue fields).AllFinite := by
  unfold recordValue
  split
  · rename_i fields' hfields
    refine allFinite_record.2 (forall_mem_of_mapM hfields fun f hf f' hf' => ?_)
    obtain ⟨key, -, rfl⟩ := Option.map_eq_some_iff.1 hf'
    exact h f hf
  · exact allFinite_of_doubles (by simp [Value.doubles])

/-- The three readers of values, by their common fuel. -/
theorem allFinite_readers : ∀ fuel : Nat,
    (∀ cs v rest, value fuel cs = some (v, rest) → v.AllFinite) ∧
    (∀ cs vs rest, items fuel cs = some (vs, rest) → ∀ v ∈ vs, v.AllFinite) ∧
    (∀ cs fs rest, fields fuel cs = some (fs, rest) → ∀ f ∈ fs, f.2.AllFinite)
  | 0 => by
    refine ⟨fun cs v rest h => ?_, fun cs vs rest h => ?_, fun cs fs rest h => ?_⟩
    · unfold value at h; cases h
    · unfold items at h; cases h
    · unfold fields at h; cases h
  | fuel + 1 => by
    obtain ⟨hvalue, hitems, hfields⟩ := allFinite_readers fuel
    refine ⟨fun cs v rest h => ?_, fun cs vs rest h => ?_, fun cs fs rest h => ?_⟩
    · unfold value at h
      split at h
      · obtain ⟨rfl, -⟩ := Prod.mk.inj (Option.some.inj h)
        exact allFinite_of_doubles (by simp [Value.doubles])
      · obtain ⟨rfl, -⟩ := Prod.mk.inj (Option.some.inj h)
        exact allFinite_of_doubles (by simp [Value.doubles])
      · obtain ⟨rfl, -⟩ := Prod.mk.inj (Option.some.inj h)
        exact allFinite_of_doubles (by simp [Value.doubles])
      · obtain ⟨⟨s, rest'⟩, -, h⟩ := Option.map_eq_some_iff.1 h
        obtain ⟨rfl, -⟩ := Prod.mk.inj h
        cases s <;> exact allFinite_of_doubles (by simp [Value.doubles])
      · split at h
        · obtain ⟨rfl, -⟩ := Prod.mk.inj (Option.some.inj h)
          exact allFinite_list.2 (by simp)
        · obtain ⟨⟨vs, rest'⟩, hvs, h⟩ := Option.map_eq_some_iff.1 h
          obtain ⟨rfl, -⟩ := Prod.mk.inj h
          exact allFinite_list.2 (hitems _ _ _ hvs)
      · split at h
        · obtain ⟨rfl, -⟩ := Prod.mk.inj (Option.some.inj h)
          exact allFinite_record.2 (by simp)
        · obtain ⟨⟨fs, rest'⟩, hfs, h⟩ := Option.map_eq_some_iff.1 h
          obtain ⟨rfl, -⟩ := Prod.mk.inj h
          exact allFinite_recordValue (hfields _ _ _ hfs)
      · exact allFinite_number h
    · unfold items at h
      obtain ⟨⟨v, rest'⟩, hv, h⟩ := Option.bind_eq_some_iff.1 h
      have hfirst := hvalue _ _ _ hv
      dsimp only at h
      split at h
      · obtain ⟨⟨vs', rest₂⟩, hvs, h⟩ := Option.map_eq_some_iff.1 h
        obtain ⟨rfl, -⟩ := Prod.mk.inj h
        exact List.forall_mem_cons.2 ⟨hfirst, hitems _ _ _ hvs⟩
      · obtain ⟨rfl, -⟩ := Prod.mk.inj (Option.some.inj h)
        simpa using hfirst
      · cases h
    · unfold fields at h
      split at h
      · obtain ⟨⟨key, rest'⟩, -, h⟩ := Option.bind_eq_some_iff.1 h
        dsimp only at h
        split at h
        · obtain ⟨⟨v, rest₂⟩, hv, h⟩ := Option.bind_eq_some_iff.1 h
          have hfirst := hvalue _ _ _ hv
          dsimp only at h
          split at h
          · obtain ⟨⟨fs', rest₃⟩, hfs, h⟩ := Option.map_eq_some_iff.1 h
            obtain ⟨rfl, -⟩ := Prod.mk.inj h
            exact List.forall_mem_cons.2 ⟨hfirst, hfields _ _ _ hfs⟩
          · obtain ⟨rfl, -⟩ := Prod.mk.inj (Option.some.inj h)
            simpa using hfirst
          · cases h
        · cases h
      · cases h

theorem allFinite_of_parse {text : String} {v : Value} (h : parse text = some v) :
    v.AllFinite := by
  unfold parse parseChars at h
  split at h
  · rename_i v' rest hv
    split_ifs at h
    obtain rfl := Option.some.inj h
    exact (allFinite_readers _).1 _ _ _ hv
  · cases h

end Json

/-! ## Records -/

theorem isFinite_ofInt {n : Int} (h : Value.isWord n = true) :
    Double.isFinite (Float.ofInt n) = true := by
  have hlow : (Nat.pow 2 63 : Int) = 9223372036854775808 := rfl
  have hhigh : (Nat.pow 2 64 : Int) = 18446744073709551616 := rfl
  simp only [Value.isWord, hlow, hhigh, Bool.and_eq_true, decide_eq_true_eq] at h
  cases n with
  | ofNat n =>
    rw [Int.ofNat_eq_natCast] at h
    exact Double.isFinite_ofNat (by omega)
  | negSucc n =>
    have hneg : Float.ofInt (.negSucc n) = -Float.ofNat (n + 1) := rfl
    rw [hneg, Double.isFinite_neg]
    exact Double.isFinite_ofNat (by omega)

/-- Whatever is read of a value with finite doubles only has the property `P`. -/
def ReadsOnly {α : Type} [Readable α] (P : α → Prop) : Prop :=
  ∀ ⦃v : Value⦄ ⦃x : α⦄, v.AllFinite → read v = some x → P x

theorem readsOnly_float : ReadsOnly fun x : Float => Double.isFinite x = true := by
  intro v x hv hx
  cases v with
  | double y =>
    obtain rfl : y = x := Option.some.inj hx
    exact hv y (by simp [Value.doubles])
  | int n =>
    simp only [read, Option.ite_none_right_eq_some, Option.some.injEq] at hx
    obtain ⟨hword, rfl⟩ := hx
    exact isFinite_ofInt hword
  | _ => cases hx

section Containers

variable {α : Type} [Readable α] {P : α → Prop}

theorem ReadsOnly.list (h : ReadsOnly P) : ReadsOnly fun xs : List α => ∀ x ∈ xs, P x := by
  intro v xs hv hxs
  cases v with
  | list items =>
    exact forall_mem_of_mapM hxs fun w hw x hx => h (Value.allFinite_list.1 hv w hw) hx
  | _ => cases hxs

theorem ReadsOnly.stringMap (h : ReadsOnly P) :
    ReadsOnly fun m : StringMap α => ∀ e ∈ m.entries, P e.2 := by
  intro v m hv hm
  cases v with
  | record fields =>
    obtain ⟨entries, hentries, rfl⟩ := Option.map_eq_some_iff.1 hm
    have hall : ∀ e ∈ entries, P e.2 := forall_mem_of_mapM hentries fun f hf e he => by
      obtain ⟨x, hx, rfl⟩ := Option.map_eq_some_iff.1 he
      exact h (Value.allFinite_record.1 hv f hf) hx
    exact StringMap.forall_mem_ofList hall
  | _ => cases hm

/-- The values in the fields of a record are parts of it. -/
theorem allFinite_of_columns {v : Value} {names : List String} {columns : List (Option Value)}
    (hv : v.AllFinite) (h : v.columns names = some columns) :
    ∀ c ∈ columns, ∀ w ∈ c, w.AllFinite := by
  cases v with
  | record fields =>
    simp only [Value.columns, Option.ite_none_right_eq_some, Option.some.injEq] at h
    obtain ⟨-, rfl⟩ := h
    intro c hc w hw
    obtain ⟨name, -, rfl⟩ := List.mem_map.1 hc
    obtain ⟨before, after, rfl, -⟩ := List.lookup_eq_some_iff.1 hw
    exact Value.allFinite_record.1 hv (name, w) (by simp)
  | list items =>
    simp only [Value.columns, Option.ite_none_right_eq_some, Option.some.injEq] at h
    obtain ⟨-, rfl⟩ := h
    intro c hc w hw
    rcases List.mem_append.1 hc with hc | hc
    · obtain ⟨w', hw', rfl⟩ := List.mem_map.1 hc
      obtain rfl : w' = w := Option.some.inj hw
      exact Value.allFinite_list.1 hv w' hw'
    · rw [List.eq_of_mem_replicate hc] at hw
      cases hw
  | _ => cases h

theorem ReadsOnly.required (h : ReadsOnly P) {column : Option Value}
    (hc : ∀ w ∈ column, w.AllFinite) {x : α} (hx : required column = some x) : P x := by
  obtain ⟨w, hw, hx⟩ := Option.bind_eq_some_iff.1 hx
  exact h (hc w hw) hx

end Containers

theorem readsOnly_productiveSearch : ReadsOnly fun p : ProductiveSearch =>
    Double.isFinite p.hitRate = true ∧ Double.isFinite p.relevance = true := by
  intro v p hv hp
  obtain ⟨columns, hcolumns, hp⟩ := Option.bind_eq_some_iff.1 hp
  have hall := allFinite_of_columns hv hcolumns
  split at hp
  · simp only [List.forall_mem_cons] at hall
    obtain ⟨-, hrate, hrelevance, -⟩ := hall
    simp only [Option.bind_eq_bind, Option.bind_eq_some_iff, Option.some.injEq] at hp
    obtain ⟨query, -, rate, hrate', relevance, hrelevance', rfl⟩ := hp
    exact ⟨readsOnly_float.required hrate hrate',
      readsOnly_float.required hrelevance hrelevance'⟩
  · cases hp

theorem readsOnly_sharedTopic :
    ReadsOnly fun t : SharedTopic => Double.isFinite t.strength = true := by
  intro v t hv ht
  obtain ⟨columns, hcolumns, ht⟩ := Option.bind_eq_some_iff.1 ht
  have hall := allFinite_of_columns hv hcolumns
  split at ht
  · simp only [List.forall_mem_cons] at hall
    obtain ⟨-, -, hstrength, -⟩ := hall
    simp only [Option.bind_eq_bind, Option.bind_eq_some_iff, Option.some.injEq] at ht
    obtain ⟨topic, -, sources, -, strength, hstrength', rfl⟩ := ht
    exact readsOnly_float.required hstrength hstrength'
  · cases ht

theorem readsOnly_strategy : ReadsOnly fun s : Strategy =>
    ∀ x ∈ s.doubles, Double.isFinite x = true := by
  intro v s hv hs
  obtain ⟨columns, hcolumns, hs⟩ := Option.bind_eq_some_iff.1 hs
  have hall := allFinite_of_columns hv hcolumns
  split at hs
  · simp only [List.forall_mem_cons] at hall
    obtain ⟨-, hproductive, -, hpriorities, htopics, -, -, hcost, -⟩ := hall
    simp only [Option.bind_eq_bind, Option.bind_eq_some_iff, Option.some.injEq] at hs
    obtain ⟨version, -, productive, hproductive', deadEnds, -, priorities, hpriorities', topics,
      htopics', tools, -, runs, -, cost, hcost', rfl⟩ := hs
    simp only [Strategy.doubles, List.forall_mem_cons, List.forall_mem_append,
      List.forall_mem_flatMap, List.forall_mem_map]
    refine ⟨readsOnly_float.required hcost hcost', ⟨fun p hp => ?_, ?_⟩, ?_⟩
    · have hp := readsOnly_productiveSearch.list.required hproductive hproductive' p hp
      exact ⟨hp.1, hp.2, by simp⟩
    · exact readsOnly_float.stringMap.required hpriorities hpriorities'
    · exact readsOnly_sharedTopic.list.required htopics htopics'
  · cases hs

/-- A trace has finite numbers, and its calls have what all calls have that are read. -/
theorem ReadsOnly.trace {P : ToolCall → Prop} (hP : ReadsOnly P) : ReadsOnly fun t : Trace =>
    (∀ x ∈ t.doubles, Double.isFinite x = true) ∧ ∀ c ∈ t.toolCalls, P c := by
  intro v t hv ht
  obtain ⟨columns, hcolumns, ht⟩ := Option.bind_eq_some_iff.1 ht
  have hall := allFinite_of_columns hv hcolumns
  split at ht
  · simp only [List.forall_mem_cons] at hall
    obtain ⟨-, -, -, hcalls, -, -, -, -, -, hscore, hcost, hduration, -⟩ := hall
    simp only [Option.bind_eq_bind, Option.bind_eq_some_iff, Option.some.injEq] at ht
    obtain ⟨runId, -, timestamp, -, version, -, calls, hcalls', searches, -, references, -,
      useful, -, wasted, -, connections, -, score, hscore', cost, hcost', duration, hduration',
      rfl⟩ := ht
    simp only [Trace.doubles, List.forall_mem_cons, List.forall_mem_flatMap]
    exact ⟨⟨readsOnly_float.required hscore hscore', readsOnly_float.required hcost hcost',
      readsOnly_float.required hduration hduration',
      fun c _ => Value.allFinite_of_isCanonical c.args.2⟩, hP.list.required hcalls hcalls'⟩
  · cases ht

theorem Trace.isFinite_of_decode {text : String} {t : Trace} (h : Trace.decode text = some t) :
    ∀ x ∈ t.doubles, Double.isFinite x = true := by
  obtain ⟨v, hv, ht⟩ := Option.bind_eq_some_iff.1 h
  have hcalls : ReadsOnly fun _ : ToolCall => True := fun _ _ _ _ => trivial
  exact (hcalls.trace (Json.allFinite_of_parse hv) ht).1

theorem Strategy.isFinite_of_decode {text : String} {s : Strategy}
    (h : Strategy.decode text = some s) : ∀ x ∈ s.doubles, Double.isFinite x = true := by
  obtain ⟨v, hv, hs⟩ := Option.bind_eq_some_iff.1 h
  exact readsOnly_strategy (Json.allFinite_of_parse hv) hs

end Exploration
