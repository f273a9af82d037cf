import Mathlib
import Exploration.Text.Numeral

/-!
# Digits read back

The digits of a number stand for it, and only those of zero start with a zero.
-/

namespace Exploration.Decimal

theorem isDigit_of_mem_digits {n : Nat} {c : Char} (h : c ∈ digits n) : isDigit c = true :=
  Nat.isDigit_of_mem_toDigits (by omega) (by omega) h

theorem digits_ne_nil (n : Nat) : digits n ≠ [] := Nat.toDigits_ne_nil

theorem ofDigits_digits (n : Nat) : ofDigits (digits n) = n := Nat.ofDigitChars_ten_toDigits

theorem ofDigits?_digits (n : Nat) : ofDigits? (digits n) = some n := by
  rw [ofDigits?, if_pos ⟨digits_ne_nil n, List.all_eq_true.2 fun c => isDigit_of_mem_digits⟩,
    ofDigits_digits]

theorem head_digits_ne_zero : ∀ {n : Nat}, 0 < n → (digits n).head? ≠ some '0'
  | n, hn => by
    unfold digits
    rcases Nat.lt_or_ge n 10 with h | h
    · rw [Nat.toDigits_of_lt_base h]
      have hd : ∀ d < 10, 0 < d → Nat.digitChar d ≠ '0' := by decide
      simpa using hd n h hn
    · rw [Nat.toDigits_of_base_le (by omega) h, List.head?_append_of_ne_nil _ Nat.toDigits_ne_nil]
      exact head_digits_ne_zero (n := n / 10) (by omega)

theorem pow_length_digits : ∀ {n : Nat}, 0 < n →
    10 ^ ((digits n).length - 1) ≤ n ∧ n < 10 ^ (digits n).length
  | n, hn => by
    unfold digits
    rcases Nat.lt_or_ge n 10 with h | h
    · rw [Nat.toDigits_of_lt_base h]
      exact ⟨hn, h⟩
    · obtain ⟨hlow, hhigh⟩ := pow_length_digits (n := n / 10) (by omega)
      have hlength : 0 < (digits (n / 10)).length := List.length_pos_iff.2 (digits_ne_nil _)
      rw [Nat.toDigits_of_base_le (by omega) h, List.length_append, List.length_singleton]
      unfold digits at hlow hhigh hlength
      generalize (Nat.toDigits 10 (n / 10)).length = k at hlow hhigh hlength
      obtain ⟨k, rfl⟩ : ∃ j, k = j + 1 := ⟨k - 1, by omega⟩
      rw [Nat.add_sub_cancel] at hlow ⊢
      rw [pow_succ, pow_succ] at *
      omega

theorem ofDigits_append (cs ds : List Char) :
    ofDigits (cs ++ ds) = ofDigits cs * 10 ^ ds.length + ofDigits ds := by
  have hfold : ∀ (ds : List Char) (n : Nat),
      ds.foldl (fun n c => 10 * n + digitValue c) n = n * 10 ^ ds.length + ofDigits ds := by
    intro ds
    induction ds with
    | nil => intro n; simp [ofDigits]
    | cons d ds ih =>
      intro n
      unfold ofDigits at ih ⊢
      rw [List.foldl_cons, List.foldl_cons, ih, ih (10 * 0 + digitValue d), List.length_cons,
        pow_succ]
      ring
  unfold ofDigits at hfold ⊢
  rw [List.foldl_append, hfold]

theorem ofDigits_zeros (k : Nat) : ofDigits (List.replicate k '0') = 0 := by
  induction k with
  | zero => rfl
  | succ k ih => rw [List.replicate_succ', ofDigits_append, ih]; rfl

theorem isDigit_of_mem_zeros {k : Nat} {c : Char} (h : c ∈ List.replicate k '0') :
    isDigit c = true := by
  obtain rfl := List.eq_of_mem_replicate h
  rfl

theorem digits_zero : digits 0 = ['0'] := Nat.toDigits_zero 10

/-! ## Digits with zeros before them -/

section Padded

variable {width n : Nat}

theorem length_padded (hwidth : 0 < width) (h : n < 10 ^ width) :
    (padded width n).length = width := by
  have hlength : (digits n).length ≤ width := by
    rcases n.eq_zero_or_pos with rfl | hn
    · rwa [digits_zero]
    · have hlt := (pow_length_digits hn).1.trans_lt h
      rw [Nat.pow_lt_pow_iff_right (by decide)] at hlt
      omega
  rw [padded, List.length_append, List.length_replicate]
  omega

theorem ofDigits_padded (width n : Nat) : ofDigits (padded width n) = n := by
  rw [padded, ofDigits_append, ofDigits_zeros, ofDigits_digits, Nat.zero_mul, Nat.zero_add]

theorem isDigit_of_mem_padded {c : Char} (h : c ∈ padded width n) : isDigit c = true :=
  (List.mem_append.1 h).elim isDigit_of_mem_zeros isDigit_of_mem_digits

end Padded

end Exploration.Decimal
