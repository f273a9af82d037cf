import Mathlib
import Exploration.Proofs.DecodedNumbers
import Exploration.Proofs.DoubleText
import Exploration.Proofs.Loading

/-!
# Texts of records

A trace or strategy has two texts, with line breaks and without. It is decoded from either just if
its numbers are finite and no arguments of a call are nested too deep (`storable_iff`). Decoding
yields no other record (`storable_of_decode`), so a record that was decoded once comes back from its
own texts.
-/

namespace Exploration

namespace Value

theorem depthFields_updateEntries_le (key : String) (v : Value) :
    ∀ fields : List (String × Value),
      depthFields (updateEntries key (·.getD v) fields) ≤ max v.depth (depthFields fields)
  | [] => by simp [updateEntries, depthFields]
  | (k, w) :: rest => by
    have ih := depthFields_updateEntries_le key v rest
    unfold updateEntries
    split_ifs <;> simp only [depthFields, Option.getD_none, Option.getD_some] <;> omega

mutual

theorem depth_sorted_le : ∀ v : Value, v.sorted.depth ≤ v.depth
  | .null | .flag _ | .int _ | .double _ | .text _ | .unreadable => by simp [sorted]
  | .list items => by
    have h := depthItems_sortedItems_le items
    simp only [sorted, depth]
    omega
  | .record fields => by
    have h := depthFields_sortedFields_le fields
    simp only [sorted, depth]
    omega

theorem depthItems_sortedItems_le : ∀ items : List Value,
    depthItems (sortedItems items) ≤ depthItems items
  | [] => by simp [sortedItems]
  | v :: rest => by
    have hv := depth_sorted_le v
    have hrest := depthItems_sortedItems_le rest
    simp only [sortedItems, depthItems]
    omega

theorem depthFields_sortedFields_le : ∀ fields : List (String × Value),
    depthFields (sortedFields fields) ≤ depthFields fields
  | [] => by simp [sortedFields]
  | (key, v) :: rest => by
    have hv := depth_sorted_le v
    have hrest := depthFields_sortedFields_le rest
    have hupdate := depthFields_updateEntries_le key v.sorted (sortedFields rest)
    simp only [sortedFields, depthFields]
    omega

end

theorem depth_of_canonical? {v : Value} {c : Canonical} (h : v.canonical? = some c) :
    c.1.depth ≤ v.depth := by
  simp only [canonical?, Option.dite_none_right_eq_some, Option.some.injEq] at h
  obtain ⟨-, rfl⟩ := h
  exact depth_sorted_le v

end Value

theorem readsOnly_args : ReadsOnly fun c : Canonical => c.1.depth ≤ argsDepth := by
  intro v c _ hc
  simp only [read, Option.ite_none_right_eq_some] at hc
  exact (Value.depth_of_canonical? hc.2).trans hc.1

theorem readsOnly_toolCall : ReadsOnly fun c : ToolCall => c.args.1.depth ≤ argsDepth := by
  intro v c hv hc
  obtain ⟨columns, hcolumns, hc⟩ := Option.bind_eq_some_iff.1 hc
  have hall := allFinite_of_columns hv hcolumns
  split at hc
  · simp only [List.forall_mem_cons] at hall
    obtain ⟨-, hargs, -⟩ := hall
    simp only [Option.bind_eq_bind, Option.bind_eq_some_iff, Option.some.injEq] at hc
    obtain ⟨name, -, args, hargs', size, -, wasEmpty, -, elapsed, -, rfl⟩ := hc
    exact readsOnly_args.required hargs hargs'
  · cases hc

namespace Trace

/-- The texts of a trace: that of its file, and the one without blanks. -/
def texts (t : Trace) : List String := [t.encode, Json.compactText (write t)]

theorem Storable.decode_text {t : Trace} (h : t.Storable) :
    ∀ text ∈ t.texts, decode text = some t := by
  obtain ⟨hread, hlossless⟩ := h.survives
  simp only [texts, List.forall_mem_cons]
  refine ⟨decode_encode h, ?_, by simp⟩
  rw [decode, Json.parse_compactText hlossless, Option.bind_some, hread]

theorem storable_of_decode {text : String} {t : Trace} (h : decode text = some t) :
    t.Storable := by
  refine ⟨fun x hx => Json.readsBack_iff.2 (isFinite_of_decode h x hx), ?_⟩
  obtain ⟨v, hv, ht⟩ := Option.bind_eq_some_iff.1 h
  exact (readsOnly_toolCall.trace (Json.allFinite_of_parse hv) ht).2

theorem storable_iff {t : Trace} : t.Storable ↔
    (Double.isFinite t.profileScore = true ∧ Double.isFinite t.cost = true ∧
      Double.isFinite t.duration = true) ∧ ∀ c ∈ t.toolCalls, c.args.1.depth ≤ argsDepth := by
  have hdoubles : (∀ x ∈ t.doubles, Json.ReadsBack x) ↔ Double.isFinite t.profileScore = true ∧
      Double.isFinite t.cost = true ∧ Double.isFinite t.duration = true := by
    simp only [doubles, Json.readsBack_iff, List.forall_mem_cons, List.forall_mem_flatMap]
    have hargs : ∀ c ∈ t.toolCalls, ∀ x ∈ c.args.1.doubles, Double.isFinite x = true :=
      fun c _ => Value.allFinite_of_isCanonical c.args.2
    tauto
  rw [← hdoubles]
  exact ⟨fun h => ⟨h.doubles, h.depth⟩, fun h => ⟨h.1, h.2⟩⟩

end Trace

namespace Strategy

/-- The texts of a strategy: that of its file, and the one without blanks. -/
def texts (s : Strategy) : List String := [s.encode, Json.compactText (write s)]

theorem Storable.decode_text {s : Strategy} (h : s.Storable) :
    ∀ text ∈ s.texts, decode text = some s := by
  obtain ⟨hread, hlossless⟩ := h.survives
  simp only [texts, List.forall_mem_cons]
  refine ⟨decode_encode h, ?_, by simp⟩
  rw [decode, Json.parse_compactText hlossless, Option.bind_some, hread]

theorem storable_of_decode {text : String} {s : Strategy} (h : decode text = some s) :
    s.Storable :=
  fun x hx => Json.readsBack_iff.2 (isFinite_of_decode h x hx)

theorem storable_iff {s : Strategy} :
    s.Storable ↔ ∀ x ∈ s.doubles, Double.isFinite x = true := by
  simp only [Storable, Json.readsBack_iff]

end Strategy

/-- What has been decoded comes back from its texts, whatever text it was decoded from. -/
theorem decode_texts :
    (∀ (t : Trace), ∀ text ∈ t.texts, Trace.decode text = some t ↔
      (Double.isFinite t.profileScore = true ∧ Double.isFinite t.cost = true ∧
        Double.isFinite t.duration = true) ∧ ∀ c ∈ t.toolCalls, c.args.1.depth ≤ 124) ∧
    (∀ (s : Strategy), ∀ text ∈ s.texts, Strategy.decode text = some s ↔
      ∀ x ∈ s.doubles, Double.isFinite x = true) ∧
    (∀ (first : String) (t : Trace), Trace.decode first = some t →
      ∀ text ∈ t.texts, Trace.decode text = some t) ∧
    ∀ (first : String) (s : Strategy), Strategy.decode first = some s →
      ∀ text ∈ s.texts, Strategy.decode text = some s := by
  refine ⟨fun t text htext => ?_, fun s text htext => ?_,
    fun first t h => (Trace.storable_of_decode h).decode_text,
    fun first s h => (Strategy.storable_of_decode h).decode_text⟩
  · refine Iff.trans ⟨Trace.storable_of_decode, fun h => ?_⟩ Trace.storable_iff
    exact Trace.Storable.decode_text h text htext
  · refine Iff.trans ⟨Strategy.storable_of_decode, fun h => ?_⟩ Strategy.storable_iff
    exact Strategy.Storable.decode_text h text htext

/-- A record with the greatest integer and a negative zero, in as many lists. -/
def nested : Nat → Value
  | 0 => .record [("from", .int 18446744073709551615), ("to", .double (-0.0))]
  | n + 1 => .list [nested n]

theorem isCanonical_nested (n : Nat) : (nested n).isCanonical = true := by
  induction n with
  | zero => decide
  | succ n ih => simp [nested, Value.isCanonical, Value.areCanonical, ih]

theorem depth_nested (n : Nat) : (nested n).depth = n + 1 := by
  induction n with
  | zero => rfl
  | succ n ih => simp [nested, Value.depth, Value.depthItems, ih]

def nestedTrace (n : Nat) : Trace :=
  { Trace.fresh "caf\u00e9" Time.epoch 4294967295 with
    toolCalls := [⟨"browse \"all\"", ⟨nested n, isCanonical_nested n⟩, 0, true, 5⟩]
    cost := -0.0 }

/-- Arguments of 124 lists and records come back, and those of 125 do not. -/
theorem decode_texts_nestedTrace :
    (∀ text ∈ (nestedTrace 123).texts, Trace.decode text = some (nestedTrace 123)) ∧
      ∀ text ∈ (nestedTrace 124).texts, Trace.decode text ≠ some (nestedTrace 124) := by
  obtain ⟨htrace, -⟩ := decode_texts
  have hdepth : ∀ n, (∀ c ∈ (nestedTrace n).toolCalls, c.args.1.depth ≤ 124) ↔ n + 1 ≤ 124 := by
    intro n
    rw [← depth_nested n]
    exact List.forall_mem_singleton
  refine ⟨fun text htext => (htrace _ text htext).2 ⟨⟨rfl, rfl, rfl⟩, (hdepth 123).2 (by omega)⟩,
    fun text htext h => ?_⟩
  have hle := (hdepth 124).1 ((htrace _ text htext).1 h).2
  omega

end Exploration
