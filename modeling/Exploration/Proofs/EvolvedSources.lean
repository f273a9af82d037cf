import Mathlib
import Exploration.Proofs.Canonical
import Exploration.Proofs.Tallies

/-!
# The sources of an evolved strategy

A trace explores a source if a call browses it or a cross-reference matched it
(`mem_exploredSources`). Each trace adds its score once to the tally of every source that it
explored, so the tally has the sum of these scores and their number (`get?_tallySources`).
-/

namespace Exploration

/-! ## What a trace explores -/

/-- The name of the call starts with `browse`, and its arguments are a record with the source as a
text in the field `source`. -/
def ToolCall.Browses (call : ToolCall) (source : String) : Prop :=
  "browse".toList <+: call.name.toList ∧
    ∃ fields, call.args.1 = .record fields ∧ ("source", .text source) ∈ fields

/-- A call of the trace browses the source, or one of its cross-references matched it. -/
def Trace.Explores (t : Trace) (source : String) : Prop :=
  (∃ call ∈ t.toolCalls, call.Browses source) ∨
    ∃ c ∈ t.crossReferences, source ∈ c.sourcesMatched.toList

namespace Value

theorem ascending_of_areCanonicalFields {fields : List (String × Value)}
    (h : areCanonicalFields fields = true) : fields.Pairwise (·.1 < ·.1) := by
  induction fields with
  | nil => exact .nil
  | cons field rest ih =>
    simp only [areCanonicalFields, Bool.and_eq_true, List.all_eq_true, decide_eq_true_eq] at h
    exact List.pairwise_cons.2 ⟨h.1.1, ih h.2⟩

/-- No field of a canonical record hides another one. -/
theorem field?_eq_some {v w : Value} (h : v.isCanonical = true) {key : String} :
    v.field? key = some w ↔ ∃ fields, v = .record fields ∧ (key, w) ∈ fields := by
  cases v with
  | record fields =>
    rw [isCanonical] at h
    let entries : StringMap Value := ⟨fields, ascending_of_areCanonicalFields h⟩
    simp only [record.injEq, exists_eq_left']
    exact (StringMap.mem_entries (m := entries)).symm
  | _ => simp [field?]

end Value

theorem ToolCall.browses_iff {call : ToolCall} {source : String} :
    call.Browses source ↔ call.browsedSource = some source := by
  unfold Browses browsedSource
  rw [← Value.field?_eq_some call.args.2, ← List.isPrefixOf_iff_prefix]
  by_cases hname : "browse".toList.isPrefixOf call.name.toList = true
  · rw [if_pos hname, and_iff_right hname]
    split
    · rename_i browsed hfield
      simp [hfield]
    · rename_i hfield
      exact iff_of_false (hfield source) nofun
  · rw [if_neg hname]
    exact iff_of_false (fun h => hname h.1) nofun

namespace Trace

theorem mem_exploredSources {t : Trace} {source : String} :
    source ∈ t.exploredSources.toList ↔ t.Explores source := by
  rw [exploredSources, StringSet.mem_ofList, List.mem_append, List.mem_filterMap, List.mem_flatMap]
  simp only [Explores, ToolCall.browses_iff]

instance (t : Trace) (source : String) : Decidable (t.Explores source) :=
  decidable_of_iff _ mem_exploredSources

end Trace

/-! ## Mean scores -/

namespace EvolutionSettings

variable {traces : List Trace}

/-- The runs that explored a source, in order. -/
def exploring (traces : List Trace) (source : String) : List Trace :=
  traces.filter (·.Explores source)

/-- A tally has the sum of the scores that were added to it and their number. -/
theorem SourceTally.foldl_add (xs : List Float) :
    xs.foldl (fun o x => some (SourceTally.add x o)) none =
      if xs = [] then none else some ⟨xs.foldl (· + ·) 0, xs.length⟩ := by
  induction xs using List.reverseRecOn with
  | nil => rfl
  | append_singleton xs x ih =>
    have hsome : xs ++ [x] ≠ [] := List.append_ne_nil_of_right_ne_nil xs (List.cons_ne_nil x [])
    rw [if_neg hsome, List.foldl_append, ih, List.foldl_append, List.length_append]
    by_cases hnone : xs = []
    · rw [if_pos hnone, hnone]
      rfl
    · rw [if_neg hnone]
      rfl

theorem get?_tallySources (source : String) :
    (traces.foldl tallySources ∅).get? source =
      if exploring traces source = [] then none else
        some ⟨((exploring traces source).map (·.profileScore)).foldl (· + ·) 0,
          (exploring traces source).length⟩ := by
  have hscores : scores traces source = (exploring traces source).map (·.profileScore) := by
    simp only [scores, exploring, Trace.mem_exploredSources]
  refine (measure_tallySources (f := id) (g := fun x o => some (SourceTally.add x o))
    (fun _ _ => rfl) source).trans ?_
  rw [hscores, id, SourceTally.foldl_add, List.length_map]
  simp only [List.map_eq_nil_iff]

/-- The sources of a strategy are those that a run explored, each with the mean score of these
runs. -/
theorem evolve_sourcePriorities (s : EvolutionSettings) (traces : List Trace) (version : UInt32) :
    let priorities := (s.evolve traces version).sourcePriorities
    ∀ source,
      (source ∈ priorities.keys ↔ ∃ t ∈ traces, t.Explores source) ∧
      ∀ mean, priorities.get? source = some mean ↔
        0 < (exploring traces source).length ∧
          mean = ((exploring traces source).map (·.profileScore)).foldl (· + ·) 0 /
            Float.ofNat (exploring traces source).length := by
  intro priorities source
  have hpriorities : priorities = sourcePriorities traces := by
    cases traces <;> rfl
  rw [hpriorities]
  constructor
  · rw [StringMap.mem_keys, sourcePriorities, StringMap.get?_map, Option.isSome_map,
      isSome_tallySources]
    simp only [Trace.mem_exploredSources]
  · intro mean
    rw [sourcePriorities, StringMap.get?_map, get?_tallySources, List.length_pos_iff]
    by_cases hnone : exploring traces source = []
    · rw [if_pos hnone]
      exact iff_of_false nofun fun h => h.1 hnone
    · rw [if_neg hnone, and_iff_right hnone, Option.map_some, Option.some.injEq, eq_comm]

/-- The first run names its source twice and counts once for it. -/
example :
    let github : Canonical := ⟨.record [("source", .text "github")], by decide⟩
    let browsing : Trace := { Trace.fresh "dawn" Time.epoch 0 with
      toolCalls := [⟨"browse", github, 0, false, 0⟩, ⟨"browse_all", github, 0, true, 0⟩]
      profileScore := 0.25 }
    let matching : Trace := { Trace.fresh "night" Time.epoch 0 with
      crossReferences := [⟨"rust", StringSet.ofList ["github", "reddit"], 3⟩]
      profileScore := 0.75 }
    ((({} : EvolutionSettings).evolve [browsing, matching] 1).sourcePriorities).entries =
      [("github", 0.5), ("reddit", 0.75)] := by
  decide +kernel

end EvolutionSettings

end Exploration
