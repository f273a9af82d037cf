import Mathlib
import Exploration.Proofs.StringMap
import Exploration.Proofs.Words
import Exploration.Reflection

/-!
# The labels of a trace

Each query of a trace gets one label, in the order of its first search. The verdicts can be reached
search by search: the first search for a query opens its verdict, and a later one can only turn it
(`verdicts_add`).
-/

namespace Exploration

/-! ## Distinct queries -/

theorem eraseDups_concat {α : Type} [BEq α] [LawfulBEq α] (xs : List α) (x : α) :
    (xs ++ [x]).eraseDups = if x ∈ xs then xs.eraseDups else xs.eraseDups ++ [x] := by
  rw [List.eraseDups_append]
  by_cases hx : x ∈ xs <;> simp [List.removeAll, List.eraseDups_cons, hx]

/-- Without its repetitions a list is in the order of first occurrences. -/
theorem pairwise_idxOf_eraseDups {α : Type} [BEq α] [LawfulBEq α] (xs : List α) :
    xs.eraseDups.Pairwise (xs.idxOf · < xs.idxOf ·) := by
  induction xs using List.reverseRecOn with
  | nil => exact .nil
  | append_singleton xs x ih =>
    have hkeep : xs.eraseDups.Pairwise ((xs ++ [x]).idxOf · < (xs ++ [x]).idxOf ·) := by
      refine ih.imp_of_mem fun ha hb hlt => ?_
      rwa [List.idxOf_append_of_mem (List.mem_eraseDups.1 ha),
        List.idxOf_append_of_mem (List.mem_eraseDups.1 hb)]
    rw [eraseDups_concat]
    by_cases hx : x ∈ xs
    · rwa [if_pos hx]
    · rw [if_neg hx]
      refine List.pairwise_append.2 ⟨hkeep, List.pairwise_singleton _ _, fun a ha b hb => ?_⟩
      have ha := List.mem_eraseDups.1 ha
      rw [List.mem_singleton.1 hb, List.idxOf_append_of_mem ha, List.idxOf_append_of_notMem hx]
      exact Nat.lt_add_right _ (List.idxOf_lt_length_of_mem ha)

theorem nodup_eraseDups {α : Type} [BEq α] [LawfulBEq α] (xs : List α) : xs.eraseDups.Nodup := by
  refine (pairwise_idxOf_eraseDups xs).imp fun hlt heq => ?_
  rw [heq] at hlt
  exact Nat.lt_irrefl _ hlt

/-! ## Verdicts -/

/-- What a walk over the searches knows of the queries. -/
structure Verdicts where
  /-- The queries in the order of their first search. -/
  order : List String
  useful : StringMap Bool

namespace Verdicts

/-- One search more. A verdict that is there already stays good only if this search is. -/
def add (output : List Char) (v : Verdicts) (s : Search) : Verdicts :=
  let good := !s.wasEmpty && mentionsWord output s.query
  match v.useful.get? s.query with
  | some verdict => { v with useful := v.useful.insert s.query (verdict && good) }
  | none => ⟨v.order ++ [s.query], v.useful.insert s.query good⟩

def ofSearches (output : List Char) (searches : List Search) : Verdicts :=
  searches.foldl (add output) ⟨[], ∅⟩

def isUseful (v : Verdicts) (query : String) : Bool := (v.useful.get? query).getD false

def usefulQueries (v : Verdicts) : List String := v.order.filter v.isUseful

def wastedQueries (v : Verdicts) : List String := v.order.filter fun q => !v.isUseful q

/-- The queries are those of the searches, and the verdict on one is that on all its searches. -/
structure Follow (v : Verdicts) (output : List Char) (searches : List Search) : Prop where
  order : v.order = (searches.map (·.query)).eraseDups
  useful : ∀ q, v.useful.get? q = if q ∈ searches.map (·.query) then
    some (alwaysFound searches q && mentionsWord output q) else none

variable {v : Verdicts} {output : List Char} {searches : List Search}

theorem alwaysFound_concat (searches : List Search) (s : Search) (q : String) :
    alwaysFound (searches ++ [s]) q = (alwaysFound searches q && !(s.query = q && s.wasEmpty)) := by
  simp [alwaysFound]

theorem alwaysFound_of_notMem {q : String} (h : q ∉ searches.map (·.query)) :
    alwaysFound searches q = true := by
  refine List.all_eq_true.2 fun s hs => ?_
  have hne : s.query ≠ q := fun heq => h (List.mem_map.2 ⟨s, hs, heq⟩)
  simp [hne]

theorem follow_nil (output : List Char) : Follow ⟨[], ∅⟩ output [] :=
  ⟨rfl, fun q => by simp [StringMap.get?_empty]⟩

theorem Follow.add (h : v.Follow output searches) (s : Search) :
    (v.add output s).Follow output (searches ++ [s]) := by
  have hs := h.useful s.query
  by_cases hmem : s.query ∈ searches.map (·.query)
  · rw [if_pos hmem] at hs
    simp only [Verdicts.add, hs]
    constructor
    · rw [List.map_append, List.map_singleton, eraseDups_concat, if_pos hmem, h.order]
    · intro q
      rw [StringMap.insert, StringMap.get?_update, h.useful q, alwaysFound_concat]
      by_cases hq : q = s.query
      · subst hq
        rw [if_pos rfl, if_pos (by simp)]
        cases mentionsWord output s.query <;> simp
      · simp [hq, Ne.symm hq]
  · rw [if_neg hmem] at hs
    simp only [Verdicts.add, hs]
    constructor
    · rw [List.map_append, List.map_singleton, eraseDups_concat, if_neg hmem, h.order]
    · intro q
      rw [StringMap.insert, StringMap.get?_update, h.useful q, alwaysFound_concat]
      by_cases hq : q = s.query
      · subst hq
        simp [alwaysFound_of_notMem hmem]
      · simp [hq, Ne.symm hq]

theorem follow_ofSearches (output : List Char) (searches : List Search) :
    (ofSearches output searches).Follow output searches := by
  induction searches using List.reverseRecOn with
  | nil => exact follow_nil output
  | append_singleton searches s ih =>
    rw [ofSearches, List.foldl_concat]
    exact ih.add s

end Verdicts

theorem alwaysFound_iff {searches : List Search} {q : String} : alwaysFound searches q = true ↔
    ∀ s ∈ searches, s.query = q → s.wasEmpty = false := by
  simp [alwaysFound, imp_iff_not_or]

theorem mentionsWord_iff {output : List Char} {q : String} : mentionsWord output q = true ↔
    ∃ word, Text.StandsBetween Text.isBlank word q.toList ∧ 3 ≤ word.length ∧
      Text.lowercase word <:+: output := by
  simp only [mentionsWord, List.any_eq_true, Text.mem_words_iff, Bool.and_eq_true,
    decide_eq_true_eq, Text.occursIn_iff]
  constructor
  · rintro ⟨word, ⟨-, hword⟩, hlong, hin⟩
    exact ⟨word, hword, hlong, hin⟩
  · rintro ⟨word, hword, hlong, hin⟩
    exact ⟨word, ⟨List.ne_nil_of_length_pos (by omega), hword⟩, hlong, hin⟩

/-! ## Labels -/

namespace Trace

variable {t : Trace} {output q : String}

theorem mem_queries : q ∈ t.queries ↔ ∃ s ∈ t.searches, s.query = q := by
  rw [queries, List.mem_eraseDups, List.mem_map]

theorem nodup_queries (t : Trace) : t.queries.Nodup := nodup_eraseDups _

theorem mem_usefulSearches : q ∈ (t.reflect output).usefulSearches ↔
    q ∈ t.queries ∧ t.isUseful (Text.lowercase output.toList) q = true := List.mem_filter

theorem mem_wastedSearches : q ∈ (t.reflect output).wastedSearches ↔
    q ∈ t.queries ∧ t.isUseful (Text.lowercase output.toList) q = false := by
  rw [← Bool.not_eq_true']
  exact List.mem_filter

theorem nodup_usefulSearches : (t.reflect output).usefulSearches.Nodup :=
  (nodup_eraseDups _).filter _

theorem nodup_wastedSearches : (t.reflect output).wastedSearches.Nodup :=
  (nodup_eraseDups _).filter _

/-- Each query of the trace has one of the two labels. -/
theorem count_labels : (t.reflect output).usefulSearches.count q +
    (t.reflect output).wastedSearches.count q = t.queries.count q := by
  rw [nodup_usefulSearches.count, nodup_wastedSearches.count, (nodup_queries t).count]
  simp only [mem_usefulSearches, mem_wastedSearches]
  by_cases hq : q ∈ t.queries <;> cases t.isUseful (Text.lowercase output.toList) q <;> simp [hq]

/-- A query that came back empty is wasted. -/
theorem mem_wastedSearches_of_wasEmpty {s : Search} (hs : s ∈ t.searches) (hempty : s.wasEmpty) :
    s.query ∈ (t.reflect output).wastedSearches := by
  refine mem_wastedSearches.2 ⟨mem_queries.2 ⟨s, hs, rfl⟩, ?_⟩
  have hfound : alwaysFound t.searches s.query = false := by
    refine List.all_eq_false.2 ⟨s, hs, ?_⟩
    simp [hempty]
  rw [isUseful, hfound, Bool.false_and]

/-- The labels are those the walk over the searches ends with. -/
theorem labels_eq_verdicts (t : Trace) (output : String) :
    (t.reflect output).usefulSearches =
        (Verdicts.ofSearches (Text.lowercase output.toList) t.searches).usefulQueries ∧
      (t.reflect output).wastedSearches =
        (Verdicts.ofSearches (Text.lowercase output.toList) t.searches).wastedQueries := by
  have hv := Verdicts.follow_ofSearches (Text.lowercase output.toList) t.searches
  have hsame : ∀ q ∈ t.queries, t.isUseful (Text.lowercase output.toList) q =
      (Verdicts.ofSearches (Text.lowercase output.toList) t.searches).isUseful q := by
    intro q hq
    rw [Verdicts.isUseful, hv.useful q, if_pos (List.mem_eraseDups.1 hq)]
    rfl
  rw [Verdicts.usefulQueries, Verdicts.wastedQueries, hv.order]
  exact ⟨List.filter_congr hsame, List.filter_congr fun q hq => congrArg _ (hsame q hq)⟩

/-- What two lists are that share out the queries among them: each is in one of them, once, and both
are in the order of first searches. -/
structure SharesOut (asked useful wasted : List String) : Prop where
  count : ∀ q, useful.count q + wasted.count q = if q ∈ asked then 1 else 0
  useful : useful.Pairwise (asked.idxOf · < asked.idxOf ·)
  wasted : wasted.Pairwise (asked.idxOf · < asked.idxOf ·)

theorem sharesOut_reflect (t : Trace) (output : String) :
    SharesOut (t.searches.map (·.query)) (t.reflect output).usefulSearches
      (t.reflect output).wastedSearches where
  count q := by
    rw [count_labels, (nodup_queries t).count, queries]
    simp only [List.mem_eraseDups]
  useful := (pairwise_idxOf_eraseDups _).filter _
  wasted := (pairwise_idxOf_eraseDups _).filter _

theorem isUseful_iff {lowered : List Char} : t.isUseful lowered q = true ↔
    (∀ s ∈ t.searches, s.query = q → s.wasEmpty = false) ∧
      ∃ word, Text.StandsBetween Text.isBlank word q.toList ∧ 3 ≤ word.length ∧
        Text.lowercase word <:+: lowered := by
  rw [isUseful, Bool.and_eq_true, alwaysFound_iff, mentionsWord_iff]

/-- A cross-reference of two sources, as a connection. -/
structure Joins (c : CrossReference) (joined : Connection) : Prop where
  topic : joined.topic = c.topic
  sources : joined.sources = c.sourcesMatched
  totalMatches : joined.totalMatches = c.totalMatches

theorem connections_reflect (t : Trace) (output : String) :
    List.Forall₂ Joins
      (t.crossReferences.filter fun c => 2 ≤ c.sourcesMatched.toList.toFinset.card)
      (t.reflect output).connections := by
  simp only [StringSet.card_toFinset]
  exact List.forall₂_map_right_iff.2 (List.forall₂_same.2 fun c _ => ⟨rfl, rfl, rfl⟩)

/-- The lists that the trace came with are not looked at, so reflection on a second text is as if
there had been no first one. -/
theorem reflect_labels (t : Trace) (output : String) :
    SharesOut (t.searches.map (·.query)) (t.reflect output).usefulSearches
      (t.reflect output).wastedSearches ∧
    (∀ q, q ∈ (t.reflect output).usefulSearches ↔ q ∈ t.searches.map (·.query) ∧
      (∀ s ∈ t.searches, s.query = q → s.wasEmpty = false) ∧
      ∃ word, Text.StandsBetween Text.isBlank word q.toList ∧ 3 ≤ word.length ∧
        Text.lowercase word <:+: Text.lowercase output.toList) ∧
    ((t.reflect output).usefulSearches =
        (Verdicts.ofSearches (Text.lowercase output.toList) t.searches).usefulQueries ∧
      (t.reflect output).wastedSearches =
        (Verdicts.ofSearches (Text.lowercase output.toList) t.searches).wastedQueries) ∧
    List.Forall₂ Joins
      (t.crossReferences.filter fun c => 2 ≤ c.sourcesMatched.toList.toFinset.card)
      (t.reflect output).connections ∧
    (∃ useful wasted connections, t.reflect output =
      { t with usefulSearches := useful, wastedSearches := wasted, connections := connections }) ∧
    (∀ useful wasted connections,
      { t with usefulSearches := useful, wastedSearches := wasted, connections := connections
        }.reflect output = t.reflect output) ∧
    ∀ later, (t.reflect output).reflect later = t.reflect later := by
  refine ⟨sharesOut_reflect t output, fun q => ?_, labels_eq_verdicts t output,
    connections_reflect t output, ⟨_, _, _, rfl⟩, fun _ _ _ => rfl, fun _ => rfl⟩
  rw [mem_usefulSearches, isUseful_iff, queries, List.mem_eraseDups]

example : (let t := { Trace.fresh "dawn" ⟨0, 0, by decide⟩ 0 with
      searches := [⟨"To JAZZ clubs", .search, false, 3⟩, ⟨"knit", .search, false, 3⟩,
        ⟨"knit", .search, true, 0⟩] }.reflect "Jazz and knitting."
    (t.usefulSearches, t.wastedSearches)) = (["To JAZZ clubs"], ["knit"]) := by
  decide +kernel

end Trace

end Exploration
