import Mathlib
import Exploration.Text.Words
import Exploration.Text.Lowercase

/-!
# The words of a text

A part of a split text is a stretch without separators that cannot be made longer
(`mem_split_iff`); so a word is such a stretch between blanks (`mem_words_iff`).
-/

namespace Exploration.Text

theorem occursIn_iff {part : List Char} : ∀ {cs : List Char},
    occursIn part cs = true ↔ part <:+: cs
  | [] => by simp [occursIn]
  | c :: rest => by
    rw [occursIn, Bool.or_eq_true, List.isPrefixOf_iff_prefix, occursIn_iff, List.infix_cons_iff]

variable {separates : Char → Bool} {part cs : List Char}

/-- `part` has no separator, and if anything stands `after` it, that is one. -/
def Stretches (separates : Char → Bool) (part after : List Char) : Prop :=
  (∀ c ∈ part, separates c = false) ∧ ∀ c ∈ after.head?, separates c = true

/-- `part` stands in `cs` between separators or ends of the text, and has none itself. -/
def StandsBetween (separates : Char → Bool) (part cs : List Char) : Prop :=
  ∃ before after, cs = before ++ part ++ after ∧
    (∀ c ∈ before.getLast?, separates c = true) ∧ Stretches separates part after

theorem eq_takeWhile_iff : part = cs.takeWhile (!separates ·) ↔
    ∃ after, cs = part ++ after ∧ Stretches separates part after := by
  constructor
  · rintro rfl
    refine ⟨cs.dropWhile (!separates ·), List.takeWhile_append_dropWhile.symm,
      fun c hc => by simpa using List.mem_takeWhile_imp hc, fun c hc => ?_⟩
    have hstop := List.head?_dropWhile_not (!separates ·) cs
    rw [Option.mem_def.1 hc] at hstop
    simpa using hstop
  · rintro ⟨after, rfl, hpart, hafter⟩
    rw [List.takeWhile_append_of_pos fun c hc => by simp [hpart c hc]]
    cases after with
    | nil => simp
    | cons c rest => simp [hafter c rfl]

theorem split_eq_cons (separates : Char → Bool) : ∀ cs : List Char,
    split separates cs = cs.takeWhile (!separates ·) :: (split separates cs).tail
  | [] => rfl
  | c :: rest => by
    cases hc : separates c
    · rw [split, split_eq_cons separates rest]
      simp [hc]
    · simp [split, hc]

/-- The parts after the first are those that come after a separator. -/
theorem mem_tail_split_iff : ∀ {cs : List Char}, part ∈ (split separates cs).tail ↔
    ∃ before c after, cs = before ++ c :: (part ++ after) ∧ separates c = true ∧
      Stretches separates part after
  | [] => by simp [split]
  | c :: rest => by
    cases hc : separates c
    · have htail : (split separates (c :: rest)).tail = (split separates rest).tail := by
        rw [split, split_eq_cons separates rest]
        simp [hc]
      rw [htail, mem_tail_split_iff]
      constructor
      · rintro ⟨before, d, after, rfl, h⟩
        exact ⟨c :: before, d, after, rfl, h⟩
      · rintro ⟨_ | ⟨b, before⟩, d, after, heq, hd, h⟩ <;> obtain ⟨rfl, rfl⟩ := List.cons.inj heq
        · rw [hc] at hd
          cases hd
        · exact ⟨before, d, after, rfl, hd, h⟩
    · have htail : (split separates (c :: rest)).tail = split separates rest := by simp [split, hc]
      rw [htail, split_eq_cons, List.mem_cons, mem_tail_split_iff, eq_takeWhile_iff]
      constructor
      · rintro (⟨after, rfl, h⟩ | ⟨before, d, after, rfl, h⟩)
        · exact ⟨[], c, after, rfl, hc, h⟩
        · exact ⟨c :: before, d, after, rfl, h⟩
      · rintro ⟨_ | ⟨b, before⟩, d, after, heq, hd, h⟩ <;> obtain ⟨rfl, rfl⟩ := List.cons.inj heq
        · exact .inl ⟨after, rfl, h⟩
        · exact .inr ⟨before, d, after, rfl, hd, h⟩

theorem mem_split_iff : part ∈ split separates cs ↔ StandsBetween separates part cs := by
  rw [split_eq_cons, List.mem_cons, eq_takeWhile_iff, mem_tail_split_iff]
  constructor
  · rintro (⟨after, rfl, h⟩ | ⟨before, c, after, rfl, hc, h⟩)
    · exact ⟨[], after, rfl, by simp, h⟩
    · exact ⟨before ++ [c], after, by simp, by simpa using hc, h⟩
  · rintro ⟨before, after, rfl, hbefore, h⟩
    rcases List.eq_nil_or_concat before with rfl | ⟨before, c, rfl⟩
    · exact .inl ⟨after, rfl, h⟩
    · exact .inr ⟨before, c, after, by simp, by simpa using hbefore, h⟩

theorem mem_words_iff : part ∈ words cs ↔ part ≠ [] ∧ StandsBetween isBlank part cs := by
  rw [words, List.mem_filter, mem_split_iff, and_comm, decide_eq_true_eq]

end Exploration.Text
