import Mathlib
import Exploration.Evolution
import Exploration.Proofs.DoubleValue
import Exploration.Proofs.Loading

/-!
# The opening sequence of a strategy

A strategy recommends the tools of one trace: the first of those that no other scores higher than
(`best?_firstBest`). It is the first among the traces with the highest score, so it does not matter
what traces with lower scores stand between them (`Inserted.eq_of_firstBest`).
-/

namespace Exploration

/-- The score of a trace as a number. -/
def Trace.mark (t : Trace) : ℚ := Double.number t.profileScore

namespace EvolutionSettings

variable {traces others longer : List Trace} {b t : Trace}

/-! ## The first best trace -/

/-- All traces before this one score lower, and none after it scores higher. -/
def FirstBest (traces : List Trace) (b : Trace) : Prop :=
  ∃ before after, traces = before ++ b :: after ∧ (∀ u ∈ before, u.mark < b.mark) ∧
    ∀ u ∈ after, u.mark ≤ b.mark

namespace FirstBest

theorem mem (h : FirstBest traces b) : b ∈ traces := by
  obtain ⟨before, after, rfl, -, -⟩ := h
  simp

theorem le (h : FirstBest traces b) : ∀ u ∈ traces, u.mark ≤ b.mark := by
  obtain ⟨before, after, rfl, hbefore, hafter⟩ := h
  intro u hu
  rcases List.mem_append.1 hu with hu | hu
  · exact (hbefore u hu).le
  · rcases List.mem_cons.1 hu with rfl | hu
    · exact le_rfl
    · exact hafter u hu

theorem concat_lower (h : FirstBest traces b) (ht : t.mark ≤ b.mark) :
    FirstBest (traces ++ [t]) b := by
  obtain ⟨before, after, rfl, hbefore, hafter⟩ := h
  refine ⟨before, after ++ [t], by simp, hbefore, fun u hu => ?_⟩
  rcases List.mem_append.1 hu with hu | hu
  · exact hafter u hu
  · rwa [List.mem_singleton.1 hu]

theorem concat_higher (h : ∀ u ∈ traces, u.mark < t.mark) : FirstBest (traces ++ [t]) t :=
  ⟨traces, [], rfl, h, by simp⟩

/-- It is the first of the traces that score as high as it does. -/
theorem find?_eq (h : FirstBest traces b) :
    traces.find? (fun u => b.mark ≤ u.mark) = some b := by
  obtain ⟨before, after, rfl, hbefore, -⟩ := h
  refine List.find?_eq_some_iff_append.2 ⟨by simp, before, after, rfl, fun u hu => ?_⟩
  simpa using hbefore u hu

end FirstBest

theorem best?_concat (hb : best? traces = some b)
    (hfinite : Double.isFinite b.profileScore = true)
    (ht : Double.isFinite t.profileScore = true) :
    best? (traces ++ [t]) = if b.mark < t.mark then some t else some b := by
  unfold best? at hb ⊢
  rw [List.foldl_concat, hb]
  exact if_congr (Double.lt_iff_number hfinite ht) rfl rfl

/-- What takes the place of the best trace so far scores higher than all before it. -/
theorem best?_firstBest (hne : traces ≠ [])
    (hfinite : ∀ t ∈ traces, Double.isFinite t.profileScore = true) :
    ∃ b, best? traces = some b ∧ FirstBest traces b := by
  induction traces using List.reverseRecOn with
  | nil => exact absurd rfl hne
  | append_singleton traces t ih =>
    rw [List.forall_mem_append] at hfinite
    obtain ⟨hfinite, ht⟩ := hfinite
    have ht := ht t (List.mem_singleton_self t)
    by_cases hnone : traces = []
    · subst hnone
      exact ⟨t, rfl, .concat_higher (by simp)⟩
    · obtain ⟨b, hb, hfirst⟩ := ih hnone hfinite
      rw [best?_concat hb (hfinite b hfirst.mem) ht]
      by_cases hlt : b.mark < t.mark
      · refine ⟨t, if_pos hlt, .concat_higher fun u hu => ?_⟩
        exact (hfirst.le u hu).trans_lt hlt
      · exact ⟨b, if_neg hlt, hfirst.concat_lower (not_lt.1 hlt)⟩

/-! ## Other traces between them -/

/-- `longer` is made of the traces and the others, each of the two in their order. -/
inductive Inserted : List Trace → List Trace → List Trace → Prop
  | nil : Inserted [] [] []
  | kept {traces others longer : List Trace} (t : Trace) (h : Inserted traces others longer) :
    Inserted (t :: traces) others (t :: longer)
  | added {traces others longer : List Trace} (t : Trace) (h : Inserted traces others longer) :
    Inserted traces (t :: others) (t :: longer)

namespace Inserted

theorem mem_iff (h : Inserted traces others longer) :
    t ∈ longer ↔ t ∈ traces ∨ t ∈ others := by
  induction h with
  | nil => simp
  | kept u h ih => simp [ih, or_assoc]
  | added u h ih => simp [ih, or_left_comm]

theorem find?_eq (h : Inserted traces others longer) {p : Trace → Bool}
    (hothers : ∀ u ∈ others, p u = false) : longer.find? p = traces.find? p := by
  induction h with
  | nil => rfl
  | kept u h ih => rw [List.find?_cons, List.find?_cons, ih hothers]
  | added u h ih =>
    rw [List.forall_mem_cons] at hothers
    rw [List.find?_cons_of_neg (by simp [hothers.1]), ih hothers.2]

/-- None of the traces with the highest score is among the others. -/
theorem eq_of_firstBest {b' : Trace} (h : Inserted traces others longer)
    (hlower : ∀ u ∈ others, ∃ t ∈ traces, u.mark < t.mark) (hb : FirstBest traces b)
    (hb' : FirstBest longer b') : b' = b := by
  have hothers : ∀ u ∈ others, u.mark < b.mark := by
    intro u hu
    obtain ⟨t, ht, hlt⟩ := hlower u hu
    exact hlt.trans_le (hb.le t ht)
  have hmark : b'.mark = b.mark := by
    refine le_antisymm ?_ (hb'.le b (h.mem_iff.2 (Or.inl hb.mem)))
    rcases h.mem_iff.1 hb'.mem with hmem | hmem
    · exact hb.le b' hmem
    · exact (hothers b' hmem).le
  have hfind := hb'.find?_eq
  rw [h.find?_eq fun u hu => by simpa [hmark] using hothers u hu, hmark, hb.find?_eq] at hfind
  exact (Option.some.inj hfind).symm

end Inserted

/-! ## The sequence -/

/-- The places of the traces that no trace scores higher than. -/
def unsurpassed (traces : List Trace) : Set ℕ :=
  {i | ∃ t, traces[i]? = some t ∧ ∀ u ∈ traces, u.mark ≤ t.mark}

theorem FirstBest.isLeast (h : FirstBest traces b) :
    ∃ i, IsLeast (unsurpassed traces) i ∧ traces[i]? = some b := by
  have hle := h.le
  obtain ⟨before, after, rfl, hbefore, -⟩ := h
  refine ⟨before.length, ⟨⟨b, by simp, hle⟩, ?_⟩, by simp⟩
  rintro j ⟨u, hu, hhighest⟩
  by_contra hlt
  rw [List.getElem?_append_left (not_le.1 hlt)] at hu
  exact (hbefore u (List.mem_of_getElem? hu)).not_ge (hhighest b (by simp))

theorem evolve_toolSequence_of_best? {s : EvolutionSettings} (h : best? traces = some b)
    (version : UInt32) : (s.evolve traces version).toolSequence = b.toolSequence := by
  have hne : traces.isEmpty = false := by
    cases traces with
    | nil => cases h
    | cons t traces => rfl
  simp [evolve, hne, h]

/-- A strategy recommends the tools of the first trace that none scores higher than, all of them in
their order. Traces that score lower than another one never matter, and one that comes last only if
it scores higher than all. -/
theorem evolve_toolSequence (s : EvolutionSettings) {traces : List Trace} (hne : traces ≠ [])
    (hfinite : ∀ t ∈ traces, Double.isFinite t.profileScore = true) :
    (∃ i t, IsLeast (unsurpassed traces) i ∧ traces[i]? = some t ∧
      ∀ version, (s.evolve traces version).toolSequence = t.toolCalls.map (·.name)) ∧
    (∀ others longer, Inserted traces others longer →
      (∀ u ∈ others, Double.isFinite u.profileScore = true ∧ ∃ t ∈ traces, u.mark < t.mark) →
      ∀ version version', (s.evolve longer version').toolSequence =
        (s.evolve traces version).toolSequence) ∧
    ∀ t : Trace, Double.isFinite t.profileScore = true → ∀ version version',
      ((∀ u ∈ traces, u.mark < t.mark) →
        (s.evolve (traces ++ [t]) version').toolSequence = t.toolCalls.map (·.name)) ∧
      ((s.evolve (traces ++ [t]) version').toolSequence ≠ (s.evolve traces version).toolSequence →
        ∀ u ∈ traces, u.mark < t.mark) := by
  obtain ⟨b, hbest, hb⟩ := best?_firstBest hne hfinite
  refine ⟨?_, fun others longer h hothers version version' => ?_, fun t ht version version' => ?_⟩
  · obtain ⟨i, hi, hplace⟩ := hb.isLeast
    exact ⟨i, b, hi, hplace, evolve_toolSequence_of_best? hbest⟩
  · have hlonger : ∀ t ∈ longer, Double.isFinite t.profileScore = true := fun t ht =>
      (h.mem_iff.1 ht).elim (hfinite t) fun ht => (hothers t ht).1
    have hne' : longer ≠ [] := List.ne_nil_of_mem (h.mem_iff.2 (Or.inl hb.mem))
    obtain ⟨b', hbest', hb'⟩ := best?_firstBest hne' hlonger
    obtain rfl := h.eq_of_firstBest (fun u hu => (hothers u hu).2) hb hb'
    rw [evolve_toolSequence_of_best? hbest, evolve_toolSequence_of_best? hbest']
  · have hlast := best?_concat hbest (hfinite b hb.mem) ht
    by_cases hlt : b.mark < t.mark
    · have hhigher : ∀ u ∈ traces, u.mark < t.mark := fun u hu => (hb.le u hu).trans_lt hlt
      rw [if_pos hlt] at hlast
      exact ⟨fun _ => evolve_toolSequence_of_best? hlast version', fun _ => hhigher⟩
    · rw [if_neg hlt] at hlast
      rw [evolve_toolSequence_of_best? hlast, evolve_toolSequence_of_best? hbest]
      exact ⟨fun hhigher => absurd (hhigher b hb.mem) hlt, fun hne => absurd rfl hne⟩

/-- A run with this score that called the tools of these names. -/
def toolTrace (runId : String) (score : Float) (tools : List String) : Trace :=
  { Trace.fresh runId Time.epoch 0 with
    toolCalls := tools.map fun name => ⟨name, ⟨.null, by decide⟩, 0, false, 0⟩
    profileScore := score }

/-- The zeros are equal, so the first of the two runs counts, which called no tool. -/
theorem evolve_toolSequence_zeros :
    let s : EvolutionSettings := {}
    let silent := toolTrace "silent" (-0.0) []
    let busy := toolTrace "busy" 0 ["overview", "search"]
    let dull := toolTrace "dull" (-1) ["search"]
    let keen := toolTrace "keen" 1 ["search", "browse"]
    (s.evolve [silent, busy] 1).toolSequence = [] ∧
      (s.evolve [dull, silent, dull, busy] 2).toolSequence = [] ∧
      (s.evolve [silent, busy, keen] 3).toolSequence = ["search", "browse"] := by
  intro s silent busy dull keen
  have hmarks : silent.mark = 0 ∧ busy.mark = 0 ∧ dull.mark = -1 ∧ keen.mark = 1 := by
    have hparts : Double.parts (-0.0) = .finite true 0 Double.leastExponent ∧
        Double.parts (-1) = .finite true (2 ^ 52) (-52) := ⟨rfl, rfl⟩
    have hsilent : Double.number (-0.0) = 0 := by
      simp [Double.number, hparts.1, Double.Parts.number]
    have hdull : Double.number (-1) = -1 := by
      rw [Double.number, hparts.2, Double.Parts.number]
      norm_num
    exact ⟨hsilent, Double.number_zero, hdull, Double.number_one⟩
  obtain ⟨hsilent, hbusy, hdull, hkeen⟩ := hmarks
  obtain ⟨⟨i, t, hleast, ht, hfirst⟩, hinserted, happended⟩ :=
    @evolve_toolSequence s [silent, busy] (by simp) (by decide)
  have hzero : 0 ∈ unsurpassed [silent, busy] := ⟨silent, rfl, by simp [hsilent, hbusy]⟩
  obtain rfl : i = 0 := Nat.le_zero.1 (hleast.2 hzero)
  obtain rfl : silent = t := Option.some.inj ht
  have hlower : Inserted [silent, busy] [dull, dull] [dull, silent, dull, busy] :=
    .added dull (.kept silent (.added dull (.kept busy .nil)))
  have hdullFinite : Double.isFinite dull.profileScore = true := by decide
  have hkeenFinite : Double.isFinite keen.profileScore = true := by decide
  refine ⟨hfirst 1, (hinserted _ _ hlower ?_ 1 2).trans (hfirst 1),
    (happended keen hkeenFinite 1 3).1 ?_⟩
  · simp [hdullFinite, hsilent, hbusy, hdull]
  · simp [hsilent, hbusy, hkeen]

end EvolutionSettings

end Exploration
