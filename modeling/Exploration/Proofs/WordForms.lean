import Mathlib
import Exploration.Proofs.Labels
import Exploration.Proofs.Loading

/-!
# The forms that a word takes in lowercase

The lowercase of a word in a text is that of the word alone but for its capital sigmas, whose form
depends on whether a word ends there (`lowerBetween_eq_iff`). So a word that stands in a text as it
is gets lost if one of its sigmas ends a word in only one of the two. Whether that can happen is
decided by the word itself (`Settled`, `literal_words`).
-/

namespace Exploration

namespace Text

/-! ## Lowercase within a text -/

/-- Whether a capital sigma ends a word, given what comes before it, nearest first, and what
follows. -/
def endsWord (before after : List Char) : Bool := meetsCased before && !meetsCased after

/-- The lowercase of a part of a text, given what comes before it, nearest first, and what
follows. -/
def lowerBetween (before : List Char) : List Char → List Char → List Char
  | [], _ => []
  | c :: rest, after => lowerIn before c (rest ++ after) ++ lowerBetween (c :: before) rest after

/-- What stands before and after each capital sigma of a text; `before` is what stands before the
text, nearest first. -/
def sigmas (before : List Char) : List Char → List (List Char × List Char)
  | [] => []
  | c :: rest => (if c = 'Σ' then [(before, rest)] else []) ++ sigmas (c :: before) rest

theorem lowerIn_of_ne {c : Char} (h : c ≠ 'Σ') (before before' after after' : List Char) :
    lowerIn before c after = lowerIn before' c after' := by
  rw [lowerIn, lowerIn, if_neg h, if_neg h]

theorem lowerIn_sigma (before after : List Char) :
    lowerIn before 'Σ' after = if endsWord before after then ['ς'] else ['σ'] := if_pos rfl

theorem length_lowerIn (before before' : List Char) (c : Char) (after after' : List Char) :
    (lowerIn before c after).length = (lowerIn before' c after').length := by
  by_cases h : c = 'Σ'
  · rw [h, lowerIn_sigma, lowerIn_sigma]
    split_ifs <;> rfl
  · rw [lowerIn_of_ne h before before' after after']

theorem lowerAfter_eq : ∀ before cs : List Char, lowerAfter before cs = lowerBetween before cs []
  | _, [] => rfl
  | before, c :: rest => by
    rw [lowerAfter, lowerBetween, lowerAfter_eq (c :: before) rest, List.append_nil]

theorem lowerBetween_append (ys after : List Char) : ∀ xs before : List Char,
    lowerBetween before (xs ++ ys) after =
      lowerBetween before xs (ys ++ after) ++ lowerBetween (xs.reverse ++ before) ys after
  | [], _ => rfl
  | c :: xs, before => by
    rw [List.cons_append, lowerBetween, lowerBetween, lowerBetween_append ys after xs]
    simp only [List.append_assoc, List.reverse_cons, List.singleton_append]

/-- The lowercase of a text has that of each part in its place. -/
theorem lowercase_append (before part after : List Char) :
    lowercase (before ++ part ++ after) = lowerBetween [] before (part ++ after) ++
      lowerBetween before.reverse part after ++
        lowerBetween (part.reverse ++ before.reverse) after [] := by
  rw [lowercase, lowerAfter_eq, lowerBetween_append, lowerBetween_append]
  simp only [List.append_nil, List.reverse_append]

theorem lowerIn_eq_iff {before before' after after' : List Char} {c : Char} :
    lowerIn before c after = lowerIn before' c after' ↔
      (c = 'Σ' → endsWord before after = endsWord before' after') := by
  by_cases h : c = 'Σ'
  · rw [h, lowerIn_sigma, lowerIn_sigma]
    cases endsWord before after <;> cases endsWord before' after' <;> simp
  · exact iff_of_true (lowerIn_of_ne h _ _ _ _) fun hc => absurd hc h

variable {before before' after after' : List Char}

/-- A part has the same lowercase in two places just if each capital sigma in it ends a word in both
or in neither. -/
theorem lowerBetween_eq_iff : ∀ cs x : List Char,
    lowerBetween (x ++ before) cs after = lowerBetween (x ++ before') cs after' ↔
      ∀ p ∈ sigmas x cs,
        endsWord (p.1 ++ before) (p.2 ++ after) = endsWord (p.1 ++ before') (p.2 ++ after')
  | [], _ => by simp [lowerBetween, sigmas]
  | c :: rest, x => by
    have hlength := length_lowerIn (x ++ before) (x ++ before') c (rest ++ after) (rest ++ after')
    have hrest := lowerBetween_eq_iff rest (c :: x)
    rw [lowerBetween, lowerBetween, sigmas, List.forall_mem_append, ← hrest]
    have hfirst : (∀ p ∈ if c = 'Σ' then [(x, rest)] else [],
        endsWord (p.1 ++ before) (p.2 ++ after) = endsWord (p.1 ++ before') (p.2 ++ after')) ↔
          lowerIn (x ++ before) c (rest ++ after) = lowerIn (x ++ before') c (rest ++ after') := by
      rw [lowerIn_eq_iff]
      split_ifs with h <;> simp [h]
    rw [hfirst]
    exact ⟨fun h => List.append_inj h hlength, fun ⟨h, h'⟩ => congrArg₂ (· ++ ·) h h'⟩

/-! ## Words that keep their forms -/

theorem meetsCased_append (xs ys : List Char) : meetsCased (xs ++ ys) =
    if xs.all (inRanges caseIgnorableRanges) then meetsCased ys else meetsCased xs := by
  by_cases h : xs.all (inRanges caseIgnorableRanges) = true
  · have hnil : xs.dropWhile (inRanges caseIgnorableRanges) = [] :=
      List.dropWhile_eq_nil_iff.2 (List.all_eq_true.1 h)
    rw [if_pos h, meetsCased, List.dropWhile_append, hnil]
    rfl
  · rw [if_neg h, meetsCased, List.dropWhile_append, meetsCased]
    cases hdrop : xs.dropWhile (inRanges caseIgnorableRanges) with
    | nil => exact absurd (List.all_eq_true.2 (List.dropWhile_eq_nil_iff.1 hdrop)) h
    | cons c rest => rfl

theorem meetsCased_of_all {xs : List Char} (h : xs.all (inRanges caseIgnorableRanges) = true) :
    meetsCased xs = false := by
  have happend := meetsCased_append xs []
  rw [List.append_nil, if_pos h] at happend
  exact happend

/-- The word itself decides the form of each of its capital sigmas. If all that comes before the
sigma is passed over, then a cased letter follows; if all that follows is, then none comes
before. -/
def Settled (word : List Char) : Prop :=
  ∀ p ∈ sigmas [] word,
    (p.1.all (inRanges caseIgnorableRanges) = true → meetsCased p.2 = true) ∧
      (p.2.all (inRanges caseIgnorableRanges) = true → meetsCased p.1 = false)

instance (word : List Char) : Decidable (Settled word) :=
  inferInstanceAs (Decidable (∀ p ∈ sigmas [] word, _ ∧ _))

/-- Around a settled word may stand what will. -/
theorem Settled.endsWord_eq {word : List Char} (h : Settled word) :
    ∀ p ∈ sigmas [] word, endsWord (p.1 ++ before) (p.2 ++ after) = endsWord p.1 p.2 := by
  rintro ⟨front, back⟩ hp
  obtain ⟨hfront, hback⟩ := h _ hp
  simp only [endsWord, meetsCased_append] at hfront hback ⊢
  split_ifs with hleft hright hright
  · rw [meetsCased_of_all hright] at hfront
    cases hfront hleft
  · rw [hfront hleft, Bool.not_true, Bool.and_false, Bool.and_false]
  · rw [hback hright, Bool.false_and, Bool.false_and]
  · rfl

/-- Of two characters of lowercase texts either both are the same, or the second is a sigma in its
final form. -/
def Finals (x y : Char) : Prop := x = y ∨ x = 'σ' ∧ y = 'ς'

theorem forall₂_lowerBetween : ∀ cs x : List Char, (∀ p ∈ sigmas x cs,
    endsWord (p.1 ++ before) (p.2 ++ after) = true →
      endsWord (p.1 ++ before') (p.2 ++ after') = true) →
    List.Forall₂ Finals (lowerBetween (x ++ before) cs after)
      (lowerBetween (x ++ before') cs after')
  | [], _, _ => .nil
  | c :: rest, x, h => by
    rw [sigmas, List.forall_mem_append] at h
    refine List.rel_append ?_ (forall₂_lowerBetween rest (c :: x) h.2)
    by_cases hc : c = 'Σ'
    · have hfirst := h.1 (x, rest) (by simp [hc])
      rw [hc, lowerIn_sigma, lowerIn_sigma]
      split_ifs with hends hends' hends'
      · exact .cons (.inl rfl) .nil
      · exact absurd (hfirst hends) hends'
      · exact .cons (.inr ⟨rfl, rfl⟩) .nil
      · exact .cons (.inl rfl) .nil
    · rw [lowerIn_of_ne hc _ (x ++ before') _ (rest ++ after')]
      exact List.forall₂_same.2 fun _ _ => .inl rfl

/-- More final sigmas in a text are fewer others. -/
theorem eq_or_count_lt {xs ys : List Char} (h : List.Forall₂ Finals xs ys) :
    xs = ys ∨ xs.count 'ς' < ys.count 'ς' ∧ ys.count 'σ' < xs.count 'σ' := by
  induction h with
  | nil => exact .inl rfl
  | cons hhead _ ih =>
    rcases hhead with rfl | ⟨rfl, rfl⟩ <;> rcases ih with rfl | ⟨hfinal, hother⟩
    · exact .inl rfl
    · refine .inr ⟨?_, ?_⟩ <;> simp only [List.count_cons] <;> omega
    · refine .inr ⟨?_, ?_⟩ <;> simp
    · refine .inr ⟨?_, ?_⟩ <;> simp <;> omega

/-! ## Words that are lost

One letter beside a word changes the form of a sigma that is not settled. The other sigmas can only
change in the same way, and so the text has fewer sigmas of one form than the word alone.
-/

theorem lowerIn_letter (before after : List Char) : lowerIn before 'a' after = ['a'] := by
  have hletter : lowerChar 'a' = 'a' := by decide +kernel
  rw [lowerIn, if_neg (by decide), if_neg (by decide), hletter]

theorem meetsCased_letter (xs : List Char) : meetsCased (xs ++ ['a']) =
    (xs.all (inRanges caseIgnorableRanges) || meetsCased xs) := by
  have hletter : meetsCased ['a'] = true := by decide +kernel
  rw [meetsCased_append, hletter]
  cases xs.all (inRanges caseIgnorableRanges) <;> rfl

variable {word front back : List Char}

/-- A letter in front makes a sigma end a word. -/
theorem lost_after_letter (hp : (front, back) ∈ sigmas [] word)
    (hfront : front.all (inRanges caseIgnorableRanges) = true) (hback : meetsCased back = false) :
    ¬ lowercase word <:+: lowercase ('a' :: word) := by
  have htext : lowercase ('a' :: word) = 'a' :: lowerBetween ['a'] word [] := by
    rw [lowercase, lowerAfter, lowerIn_letter, lowerAfter_eq]
    rfl
  have hforms : List.Forall₂ Finals (lowercase word) (lowerBetween ['a'] word []) := by
    rw [lowercase, lowerAfter_eq]
    refine forall₂_lowerBetween word [] fun p _ hends => ?_
    simp only [endsWord, List.append_nil, meetsCased_letter, Bool.and_eq_true,
      Bool.or_eq_true] at hends ⊢
    exact ⟨.inr hends.1, hends.2⟩
  have hne : lowercase word ≠ lowerBetween ['a'] word [] := by
    intro heq
    rw [lowercase, lowerAfter_eq] at heq
    have hends := (lowerBetween_eq_iff word []).1 heq _ hp
    simp only [endsWord, List.append_nil, meetsCased_letter, meetsCased_of_all hfront, hfront,
      hback] at hends
    cases hends
  intro hin
  have hcount := hin.sublist.count_le 'σ'
  rw [htext, List.count_cons_of_ne (by decide)] at hcount
  exact absurd hcount (((eq_or_count_lt hforms).resolve_left hne).2.not_ge)

/-- A letter behind keeps a sigma from ending a word. -/
theorem lost_before_letter (hp : (front, back) ∈ sigmas [] word)
    (hback : back.all (inRanges caseIgnorableRanges) = true) (hfront : meetsCased front = true) :
    ¬ lowercase word <:+: lowercase (word ++ ['a']) := by
  have htext : lowercase (word ++ ['a']) = lowerBetween [] word ['a'] ++ ['a'] := by
    have happend := lowercase_append [] word ['a']
    simp only [List.nil_append, List.reverse_nil, List.append_nil, lowerBetween,
      lowerIn_letter] at happend
    exact happend
  have hforms : List.Forall₂ Finals (lowerBetween [] word ['a']) (lowercase word) := by
    rw [lowercase, lowerAfter_eq]
    refine forall₂_lowerBetween word [] fun p _ hends => ?_
    simp only [endsWord, List.append_nil, meetsCased_letter, Bool.and_eq_true, Bool.not_or,
      Bool.not_eq_true'] at hends ⊢
    exact ⟨hends.1, hends.2.2⟩
  have hne : lowerBetween [] word ['a'] ≠ lowercase word := by
    intro heq
    rw [lowercase, lowerAfter_eq] at heq
    have hends := (lowerBetween_eq_iff word []).1 heq _ hp
    simp only [endsWord, List.append_nil, meetsCased_letter, meetsCased_of_all hback, hback,
      hfront] at hends
    cases hends
  intro hin
  have hcount := hin.sublist.count_le 'ς'
  rw [htext, List.count_append, List.count_singleton, if_neg (by decide)] at hcount
  exact absurd hcount (((eq_or_count_lt hforms).resolve_left hne).1.not_ge)

theorem exists_text_of_not_settled (h : ¬ Settled word) :
    ∃ text, word <:+: text ∧ ¬ lowercase word <:+: lowercase text := by
  simp only [Settled, not_forall, not_and_or] at h
  obtain ⟨⟨front, back⟩, hp, ⟨hfront, hback⟩ | ⟨hback, hfront⟩⟩ := h
  · exact ⟨'a' :: word, (List.suffix_cons _ _).isInfix,
      lost_after_letter hp hfront (Bool.eq_false_of_not_eq_true hback)⟩
  · exact ⟨word ++ ['a'], (List.prefix_append _ _).isInfix,
      lost_before_letter hp hback (Bool.eq_true_of_not_eq_false hfront)⟩

/-- A text without separators is its only part. -/
theorem eq_of_standsBetween {separates : Char → Bool} {part cs : List Char}
    (hcs : cs.any separates = false) (h : StandsBetween separates part cs) : part = cs := by
  have hcs := List.any_eq_false.1 hcs
  obtain ⟨before, after, rfl, hbefore, -, hafter⟩ := h
  have hnone : before = [] := by
    refine List.getLast?_eq_none_iff.1 (Option.eq_none_iff_forall_not_mem.2 fun c hc => ?_)
    exact hcs c (by simp [List.mem_of_getLast? hc]) (hbefore c hc)
  have hnone' : after = [] := by
    refine List.head?_eq_none_iff.1 (Option.eq_none_iff_forall_not_mem.2 fun c hc => ?_)
    exact hcs c (by simp [List.mem_of_head? hc]) (hafter c hc)
  rw [hnone, hnone', List.nil_append, List.append_nil]

end Text

/-! ## Queries that are found again -/

namespace Trace

open Text

/-- A query of the trace that never came back empty, and a word of it that is long enough to be
looked for. -/
structure LooksFor (t : Trace) (q : String) (word : List Char) : Prop where
  asked : q ∈ t.searches.map (·.query)
  found : ∀ s ∈ t.searches, s.query = q → s.wasEmpty = false
  stands : StandsBetween isBlank word q.toList
  long : 3 ≤ word.length

theorem LooksFor.useful {t : Trace} {q output : String} {word : List Char} (h : t.LooksFor q word)
    (hin : lowercase word <:+: lowercase output.toList) :
    q ∈ (t.reflect output).usefulSearches :=
  mem_usefulSearches.2 ⟨List.mem_eraseDups.2 h.asked,
    isUseful_iff.2 ⟨h.found, word, h.stands, h.long, hin⟩⟩

/-- A query of one word is useful only if its lowercase is found. -/
theorem not_useful_of_word {t : Trace} {output : String} {word : List Char}
    (hword : word.any isBlank = false)
    (hin : ¬ lowercase word <:+: lowercase output.toList) :
    String.ofList word ∉ (t.reflect output).usefulSearches := by
  intro huseful
  obtain ⟨-, part, hpart, -, hfound⟩ := isUseful_iff.1 (mem_usefulSearches.1 huseful).2
  rw [String.toList_ofList] at hpart
  obtain rfl := eq_of_standsBetween hword hpart
  exact hin hfound

/-- A trace with one search, which is for one word and finds something. -/
def searchFor (word : List Char) : Trace :=
  { fresh "dawn" Time.epoch 0 with
    searches := [⟨String.ofList word, .search, false, 1⟩] }

theorem looksFor_searchFor {word : List Char} (hlong : 3 ≤ word.length)
    (hword : word.any isBlank = false) :
    (searchFor word).LooksFor (String.ofList word) word := by
  refine ⟨List.mem_singleton_self _, by simp [searchFor], ?_, hlong⟩
  rw [String.toList_ofList]
  exact ⟨[], [], by simp, by simp, by simpa using hword, by simp⟩

/-- A word that stands in the text as it is makes its query useful if its capital sigmas end words
there just where they do in the word alone. That is so in all texts just for the settled words; of
any other there is a text that has it and yet is searched for it in vain. -/
theorem literal_words {word : List Char} (hlong : 3 ≤ word.length)
    (hword : word.any isBlank = false) :
    (∀ (t : Trace) (q output : String) (before after : List Char), t.LooksFor q word →
      output.toList = before ++ word ++ after →
      (∀ p ∈ sigmas [] word,
        endsWord (p.1 ++ before.reverse) (p.2 ++ after) = endsWord p.1 p.2) →
      q ∈ (t.reflect output).usefulSearches) ∧
    ((∀ (t : Trace) (q output : String), t.LooksFor q word → word <:+: output.toList →
      q ∈ (t.reflect output).usefulSearches) ↔ Settled word) := by
  have hplace : ∀ (t : Trace) (q output : String) (before after : List Char), t.LooksFor q word →
      output.toList = before ++ word ++ after →
      (∀ p ∈ sigmas [] word,
        endsWord (p.1 ++ before.reverse) (p.2 ++ after) = endsWord p.1 p.2) →
      q ∈ (t.reflect output).usefulSearches := by
    intro t q output before after hlooks houtput hforms
    have hsame : lowerBetween before.reverse word after = lowercase word := by
      rw [lowercase, lowerAfter_eq]
      refine (lowerBetween_eq_iff word []).2 fun p hp => ?_
      rw [List.append_nil, List.append_nil]
      exact hforms p hp
    refine hlooks.useful ?_
    rw [houtput, lowercase_append, hsame]
    exact List.infix_append _ _ _
  refine ⟨hplace, fun hall => ?_, fun hsettled => ?_⟩
  · by_contra hsettled
    obtain ⟨text, htext, hlost⟩ := exists_text_of_not_settled hsettled
    have huseful := hall _ _ (String.ofList text) (looksFor_searchFor hlong hword)
      (by rwa [String.toList_ofList])
    refine not_useful_of_word hword ?_ huseful
    rwa [String.toList_ofList]
  · rintro t q output hlooks ⟨before, after, houtput⟩
    exact hplace t q output before after hlooks houtput.symm fun p hp =>
      hsettled.endsWord_eq p hp

/-- The sigmas inside a word are settled. One at its end is found where a word ends in the text. -/
theorem literal_words_odyssey :
    (Settled "ΟΔΥΣΣΕΙΑ".toList ∧ "ΟΔΥΣΣΕΙΑ" ∈
      ((searchFor "ΟΔΥΣΣΕΙΑ".toList).reflect "Η ΟΔΥΣΣΕΙΑΣ").usefulSearches) ∧
    ¬ Settled "ΟΔΟΣ".toList ∧ "ΟΔΟΣ" ∈
      ((searchFor "ΟΔΟΣ".toList).reflect "Η ΟΔΟΣ, εδώ").usefulSearches := by
  obtain ⟨hlong, hword, hsettled⟩ : 3 ≤ "ΟΔΥΣΣΕΙΑ".toList.length ∧
      "ΟΔΥΣΣΕΙΑ".toList.any isBlank = false ∧ Settled "ΟΔΥΣΣΕΙΑ".toList := by decide +kernel
  obtain ⟨hlong', hword', hunsettled⟩ : 3 ≤ "ΟΔΟΣ".toList.length ∧
      "ΟΔΟΣ".toList.any isBlank = false ∧ ¬ Settled "ΟΔΟΣ".toList := by decide +kernel
  obtain ⟨houtput, hforms⟩ : "Η ΟΔΟΣ, εδώ".toList = "Η ".toList ++ "ΟΔΟΣ".toList ++ ", εδώ".toList ∧
      ∀ p ∈ sigmas [] "ΟΔΟΣ".toList,
        endsWord (p.1 ++ ("Η ".toList).reverse) (p.2 ++ ", εδώ".toList) = endsWord p.1 p.2 := by
    decide +kernel
  obtain ⟨-, hall⟩ := literal_words hlong hword
  obtain ⟨hplace, -⟩ := literal_words hlong' hword'
  refine ⟨⟨hsettled, ?_⟩, hunsettled, ?_⟩
  · exact hall.2 hsettled _ _ _ (looksFor_searchFor hlong hword)
      ⟨"Η ".toList, "Σ".toList, by decide +kernel⟩
  · exact hplace _ _ _ _ _ (looksFor_searchFor hlong' hword') houtput hforms

/-- A word in the midst of a longer one is lost if its last sigma has its final form only alone. -/
theorem lost_odos :
    (searchFor "ΟΔΟΣ".toList).LooksFor "ΟΔΟΣ" "ΟΔΟΣ".toList ∧
      "ΟΔΟΣ".toList <:+: "ΟΔΟΣΗΜΑ".toList ∧
      "ΟΔΟΣ" ∉ ((searchFor "ΟΔΟΣ".toList).reflect "ΟΔΟΣΗΜΑ").usefulSearches ∧
      "ΟΔΟΣ" ∈ ((searchFor "ΟΔΟΣ".toList).reflect "ΟΔΟΣΗΜΑ").wastedSearches :=
  ⟨looksFor_searchFor (by decide +kernel) (by decide +kernel),
    ⟨[], "ΗΜΑ".toList, by decide +kernel⟩, by decide +kernel, by decide +kernel⟩

end Trace

end Exploration
