import Mathlib
import Exploration.Json.Reader
import Exploration.Json.Writer
import Exploration.Proofs.Digits

/-!
# Numbers in a JSON text

A number is read alike wherever it stands, as long as what follows does not go on with it
(`number_append`). Every integer that is kept as one reads back (`number_ofInt`); of a double this
is a property of its own (`ReadsBack`).
-/

namespace Exploration.Json

open Decimal (isDigit)

/-- Nothing at the head of what follows a number belongs to it. -/
def EndsNumber (rest : List Char) : Prop :=
  ∀ c ∈ rest.head?, isDigit c = false ∧ c ≠ '.' ∧ c ≠ 'e' ∧ c ≠ 'E'

/-- The text of a double stands for that double. -/
def ReadsBack (x : Float) : Prop := number (double x) = some (.double x, [])

theorem endsNumber_nil : EndsNumber [] := by simp [EndsNumber]

theorem endsNumber_cons {c : Char} {rest : List Char} (hd : isDigit c = false)
    (hc : c ≠ '.' ∧ c ≠ 'e' ∧ c ≠ 'E') : EndsNumber (c :: rest) := by
  intro d h
  simp only [List.head?_cons, Option.mem_some_iff] at h
  exact h ▸ ⟨hd, hc⟩

theorem digits_eq_some {cs ds r : List Char} :
    digits cs = some (ds, r) ↔
      cs = ds ++ r ∧ ds ≠ [] ∧ (∀ c ∈ ds, isDigit c = true) ∧ ∀ c ∈ r.head?, isDigit c = false := by
  unfold digits
  rw [List.span_eq_takeWhile_dropWhile]
  constructor
  · intro h
    rcases hs : cs.takeWhile isDigit with _ | ⟨d, ds'⟩ <;> rw [hs] at h
    · cases h
    · simp only [Option.some.injEq, Prod.mk.injEq] at h
      obtain ⟨rfl, rfl⟩ := h
      refine ⟨?_, by simp, fun c hc => ?_, fun c hc => ?_⟩
      · rw [← hs, List.takeWhile_append_dropWhile]
      · rw [← hs] at hc
        exact List.mem_takeWhile_imp hc
      · have := List.head?_dropWhile_not isDigit cs
        rw [hc] at this
        simpa using this
  · rintro ⟨rfl, hne, hds, hr⟩
    have htake : (ds ++ r).takeWhile isDigit = ds := by
      rw [List.takeWhile_append_of_pos hds]
      rcases r with _ | ⟨c, r⟩
      · simp
      · simp [hr c (by simp)]
    have hdrop : (ds ++ r).dropWhile isDigit = r := by
      rw [List.dropWhile_append_of_pos hds]
      rcases r with _ | ⟨c, r⟩
      · simp
      · simp [hr c (by simp)]
    rw [htake, hdrop]
    rcases ds with _ | ⟨d, ds⟩
    · exact absurd rfl hne
    · rfl

theorem whole_append_of_digits {ds rest : List Char} (hne : ds ≠ [])
    (hds : ∀ c ∈ ds, isDigit c = true) (hhead : ds.head? ≠ some '0')
    (hrest : ∀ c ∈ rest.head?, isDigit c = false) : whole (ds ++ rest) = some (ds, rest) := by
  have hdigits : digits (ds ++ rest) = some (ds, rest) :=
    digits_eq_some.2 ⟨rfl, hne, hds, hrest⟩
  unfold whole
  split
  · rename_i heq
    obtain ⟨d, ds, rfl⟩ := List.exists_cons_of_ne_nil hne
    rw [List.cons_append, List.cons.injEq] at heq
    exact absurd (congrArg some heq.1) hhead
  · exact hdigits

theorem digits_of_forall {ds : List Char} (hne : ds ≠ []) (hds : ∀ c ∈ ds, isDigit c = true) :
    digits ds = some (ds, []) :=
  digits_eq_some.2 ⟨(List.append_nil ds).symm, hne, hds, by simp⟩

section Append

variable {rest : List Char} (hr : EndsNumber rest)

include hr

theorem digits_append {cs ds r : List Char} (h : digits cs = some (ds, r)) :
    digits (cs ++ rest) = some (ds, r ++ rest) := by
  obtain ⟨rfl, hne, hds, hhead⟩ := digits_eq_some.1 h
  refine digits_eq_some.2 ⟨List.append_assoc .., hne, hds, fun c hc => ?_⟩
  rcases r with _ | ⟨d, r⟩
  · exact (hr c hc).1
  · exact hhead c hc

theorem whole_append {cs ds r : List Char} (h : whole cs = some (ds, r)) :
    whole (cs ++ rest) = some (ds, r ++ rest) := by
  rcases cs with _ | ⟨c, cs⟩
  · cases h
  · by_cases hc : c = '0'
    · subst hc
      simp only [whole, Option.some.injEq, Prod.mk.injEq] at h
      obtain ⟨rfl, rfl⟩ := h
      rfl
    · have hw : ∀ xs, whole (c :: xs) = digits (c :: xs) := by
        intro xs
        unfold whole
        split
        · rename_i heq
          simp only [List.cons.injEq] at heq
          exact absurd heq.1 hc
        · rfl
      rw [hw] at h
      rw [List.cons_append, hw]
      exact digits_append hr h

theorem fraction_append {cs r : List Char} {f : Option (List Char)}
    (h : fraction cs = some (f, r)) : fraction (cs ++ rest) = some (f, r ++ rest) := by
  have hnone : ∀ xs : List Char, xs.head? ≠ some '.' → fraction xs = some (none, xs) := by
    intro xs hx
    unfold fraction
    split
    · simp at hx
    · rfl
  rcases cs with _ | ⟨c, cs⟩
  · simp only [fraction, Option.some.injEq, Prod.mk.injEq] at h
    obtain ⟨rfl, rfl⟩ := h
    exact hnone _ fun hx => (hr '.' hx).2.1 rfl
  · by_cases hc : c = '.'
    · subst hc
      simp only [fraction, Option.map_eq_some_iff, Prod.exists, Prod.mk.injEq] at h
      obtain ⟨ds, r', hds, rfl, rfl⟩ := h
      simp [fraction, digits_append hr hds]
    · rw [hnone _ (by simpa using hc)] at h
      simp only [Option.some.injEq, Prod.mk.injEq] at h
      obtain ⟨rfl, rfl⟩ := h
      exact hnone _ (by simpa using hc)

theorem exponentDigits_append {negative : Bool} {cs r : List Char} {e : Option Int}
    (h : exponentDigits negative cs = some (e, r)) :
    exponentDigits negative (cs ++ rest) = some (e, r ++ rest) := by
  simp only [exponentDigits, Option.map_eq_some_iff, Prod.exists, Prod.mk.injEq] at h
  obtain ⟨ds, r', hds, rfl, rfl⟩ := h
  simp [exponentDigits, digits_append hr hds]

theorem exponent_append {cs r : List Char} {e : Option Int}
    (h : exponent cs = some (e, r)) : exponent (cs ++ rest) = some (e, r ++ rest) := by
  rcases cs with _ | ⟨c, cs⟩
  · simp only [exponent, Option.some.injEq, Prod.mk.injEq] at h
    obtain ⟨rfl, rfl⟩ := h
    rcases rest with _ | ⟨c, rest⟩
    · rfl
    · obtain ⟨-, -, he, hE⟩ := hr c rfl
      simp [exponent, he, hE]
  · simp only [exponent, List.cons_append] at h ⊢
    split_ifs at h ⊢ with hc
    · split at h
      · exact exponentDigits_append hr h
      · exact exponentDigits_append hr h
      · rename_i hplus hminus
        rcases cs with _ | ⟨d, cs⟩
        · cases h
        · have hp : d ≠ '+' := fun hd => hplus cs (hd ▸ rfl)
          have hm : d ≠ '-' := fun hd => hminus cs (hd ▸ rfl)
          have := exponentDigits_append hr h
          split
          · rename_i heq
            simp only [List.cons_append, List.cons.injEq] at heq
            exact absurd heq.1 hp
          · rename_i heq
            simp only [List.cons_append, List.cons.injEq] at heq
            exact absurd heq.1 hm
          · exact this
    · simp only [Option.some.injEq, Prod.mk.injEq] at h
      obtain ⟨rfl, rfl⟩ := h
      rfl

theorem unsignedNumber_append {negative : Bool} {cs r : List Char} {v : Value}
    (h : unsignedNumber negative cs = some (v, r)) :
    unsignedNumber negative (cs ++ rest) = some (v, r ++ rest) := by
  simp only [unsignedNumber, Option.bind_eq_bind, Option.bind_eq_some_iff, Prod.exists] at h ⊢
  obtain ⟨ds, r₁, hw, f, r₂, hf, e, r₃, he, hv⟩ := h
  simp only [Option.some.injEq, Prod.mk.injEq] at hv
  exact ⟨ds, _, whole_append hr hw, f, _, fraction_append hr hf, e, _, exponent_append hr he,
    by rw [hv.1, hv.2]⟩

/-- What follows a number does not change it. -/
theorem number_append {cs r : List Char} {v : Value} (h : number cs = some (v, r)) :
    number (cs ++ rest) = some (v, r ++ rest) := by
  rcases cs with _ | ⟨c, cs⟩
  · cases h
  · by_cases hc : c = '-'
    · subst hc
      exact unsignedNumber_append hr h
    · have hn : ∀ xs, number (c :: xs) = unsignedNumber false (c :: xs) := by
        intro xs
        unfold number
        split
        · rename_i heq
          simp only [List.cons.injEq] at heq
          exact absurd heq.1 hc
        · rfl
      rw [hn] at h
      rw [List.cons_append, hn]
      exact unsignedNumber_append hr h

end Append

theorem head_of_digits {cs ds r : List Char} (h : digits cs = some (ds, r)) :
    ∃ c cs', cs = c :: cs' ∧ isDigit c = true := by
  obtain ⟨rfl, hne, hds, -⟩ := digits_eq_some.1 h
  rcases ds with _ | ⟨d, ds⟩
  · exact absurd rfl hne
  · exact ⟨d, ds ++ r, rfl, hds d List.mem_cons_self⟩

theorem head_of_unsignedNumber {negative : Bool} {cs r : List Char} {v : Value}
    (h : unsignedNumber negative cs = some (v, r)) :
    ∃ c cs', cs = c :: cs' ∧ isDigit c = true := by
  simp only [unsignedNumber, Option.bind_eq_bind, Option.bind_eq_some_iff, Prod.exists] at h
  obtain ⟨ds, r₁, hw, -⟩ := h
  unfold whole at hw
  split at hw
  · exact ⟨'0', _, rfl, by decide⟩
  · exact head_of_digits hw

/-- A number starts with a sign or a digit. -/
theorem head_of_number {cs r : List Char} {v : Value} (h : number cs = some (v, r)) :
    ∃ c cs', cs = c :: cs' ∧ (c = '-' ∨ isDigit c = true) := by
  unfold number at h
  split at h
  · exact ⟨'-', _, rfl, Or.inl rfl⟩
  · obtain ⟨c, cs', rfl, hc⟩ := head_of_unsignedNumber h
    exact ⟨c, cs', rfl, Or.inr hc⟩

theorem number_of_unsignedNumber {cs r : List Char} {v : Value}
    (h : unsignedNumber false cs = some (v, r)) : number cs = some (v, r) := by
  obtain ⟨c, cs, rfl, hc⟩ := head_of_unsignedNumber h
  unfold number
  split
  · rename_i heq
    obtain ⟨rfl, -⟩ := List.cons.inj heq
    cases hc
  · exact h

/-! ## Integers -/

theorem whole_digits (n : Nat) : whole (Decimal.digits n) = some (Decimal.digits n, []) := by
  rcases Nat.eq_zero_or_pos n with rfl | hn
  · rw [Decimal.digits_zero]
    rfl
  · have h := whole_append_of_digits (Decimal.digits_ne_nil n)
      (fun _ => Decimal.isDigit_of_mem_digits) (Decimal.head_digits_ne_zero hn)
      (show ∀ c ∈ [].head?, isDigit c = false by simp)
    rwa [List.append_nil] at h

theorem unsignedNumber_digits (negative : Bool) (n : Nat) :
    unsignedNumber negative (Decimal.digits n)
      = some (numberValue negative (Decimal.digits n) none none, []) := by
  simp [unsignedNumber, whole_digits, fraction, exponent]

theorem number_ofInt {n : Int} (hn : Value.isWord n = true) :
    number (Decimal.ofInt n) = some (.int n, []) := by
  rcases n with n | n
  · have hu := number_of_unsignedNumber (unsignedNumber_digits false n)
    have hw : Value.isWord (n : Int) = true := hn
    simp [Decimal.ofInt, hu, numberValue, Decimal.ofDigits_digits, hw]
  · have hs : -((n + 1 : Nat) : Int) = Int.negSucc n := rfl
    have hz : Int.negSucc n ≠ 0 := by simp
    simp only [Decimal.ofInt, number, unsignedNumber_digits, numberValue, Decimal.ofDigits_digits,
      if_true, hs, hn, decide_eq_false hz]
    rfl

end Exploration.Json
