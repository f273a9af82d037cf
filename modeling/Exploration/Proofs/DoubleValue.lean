import Mathlib
import Exploration.Proofs.DoubleSum

/-!
# The numbers that doubles stand for

Each finite double stands for one rational number (`number`), and finite doubles are ordered as
these numbers are (`lt_iff_number`, `le_iff_number`). The two zeros stand for the same number. A
double between zero and another finite one is finite itself (`isFinite_of_between`).
-/

namespace Exploration.Double

open Float.Model (UnpackedFloat)
open Float.Model.UnpackedFloat

def Parts.number : Parts → ℚ
  | .nan | .infinite _ => 0
  | .finite negative m e => if negative then -(m * 2 ^ e) else m * 2 ^ e

/-- The number that a finite double stands for. What is not finite stands for none, and gives
zero. -/
def number (x : Float) : ℚ := (parts x).number

@[simp] theorem number_zero : number 0 = 0 := by
  have hparts : parts 0 = .finite false 0 leastExponent := rfl
  simp [number, hparts, Parts.number]

@[simp] theorem number_one : number 1 = 1 := by
  have hparts : parts 1 = .finite false (2 ^ 52) (-52) := rfl
  rw [number, hparts, Parts.number]
  norm_num

/-! ## Order -/

/-- What a finite double unpacks to, by the side of zero that it is on. -/
inductive Unpacked : UnpackedFloat → Prop
  | below {m : ℕ} {e : ℤ} (hm : 0 < m) (hc : Canonical m e) : Unpacked (.finite .negative m e hm)
  | zero (s : Sign) : Unpacked (.zero s)
  | above {m : ℕ} {e : ℤ} (hm : 0 < m) (hc : Canonical m e) : Unpacked (.finite .positive m e hm)

theorem unpacked_of_isFinite {x : Float} (h : isFinite x = true) : Unpacked x.toModel.unpack := by
  rw [isFinite_eq] at h
  cases hx : x.toModel.unpack with
  | notANumber => rw [hx] at h; cases h
  | infinity s => rw [hx] at h; cases h
  | zero s => exact .zero s
  | finite s m e hm =>
    obtain ⟨hc, -⟩ := canonical_of_unpack hx
    cases s with
    | negative => exact .below hm hc
    | positive => exact .above hm hc

theorem number_ofUnpacked_zero (s : Sign) : (Parts.ofUnpacked (.zero s)).number = 0 := by
  simp [Parts.ofUnpacked, Parts.number]

theorem number_pos {m : ℕ} (hm : 0 < m) (e : ℤ) : (0 : ℚ) < m * 2 ^ e :=
  mul_pos (Nat.cast_pos.2 hm) (two_zpow_pos e)

theorem key_le_of_number_le {u v : UnpackedFloat} (hu : Unpacked u) (hv : Unpacked v)
    (h : (Parts.ofUnpacked u).number ≤ (Parts.ofUnpacked v).number) : key u ≤ key v := by
  cases hu with
  | @below m e hm hc =>
    cases hv with
    | @below m' e' hm' hc' =>
      -- below zero the greater amount comes first, by exponent and then by mantissa
      have hkey := key_le_of_le hm' hm hc' hc (neg_le_neg_iff.1 h)
      simp only [key, Prod.Lex.toLex_le_toLex, lt_self_iff_false, true_and, false_or] at hkey ⊢
      omega
    | zero t => simp [key, Prod.Lex.toLex_le_toLex]
    | above hm' hc' => simp [key, Prod.Lex.toLex_le_toLex]
  | zero s =>
    cases hv with
    | @below m' e' hm' hc' =>
      rw [number_ofUnpacked_zero] at h
      have hle : (0 : ℚ) ≤ -(m' * 2 ^ e') := h
      exact absurd (number_pos hm' e') (by linarith)
    | zero t => exact le_rfl
    | above hm' hc' => simp [key, Prod.Lex.toLex_le_toLex]
  | @above m e hm hc =>
    cases hv with
    | @below m' e' hm' hc' =>
      have hle : (m * 2 ^ e : ℚ) ≤ -(m' * 2 ^ e') := h
      have := number_pos hm e
      exact absurd (number_pos hm' e') (by linarith)
    | zero t =>
      rw [number_ofUnpacked_zero] at h
      exact absurd (number_pos hm e) (not_lt.2 h)
    | above hm' hc' => exact key_le_of_le hm hm' hc hc' h

theorem number_eq_of_key_eq {u v : UnpackedFloat} (hu : Unpacked u) (hv : Unpacked v)
    (h : key u = key v) : (Parts.ofUnpacked u).number = (Parts.ofUnpacked v).number := by
  cases hu <;> cases hv <;> simp [key] at h <;> simp [Parts.ofUnpacked, Parts.number, h]

theorem key_lt_iff {u v : UnpackedFloat} (hu : Unpacked u) (hv : Unpacked v) :
    key u < key v ↔ (Parts.ofUnpacked u).number < (Parts.ofUnpacked v).number := by
  constructor
  · intro h
    by_contra hle
    exact h.not_ge (key_le_of_number_le hv hu (not_lt.1 hle))
  · intro h
    refine lt_of_le_of_ne (key_le_of_number_le hu hv h.le) fun heq => ?_
    exact h.ne (number_eq_of_key_eq hu hv heq)

variable {x y : Float}

theorem lt_iff_number (hx : isFinite x = true) (hy : isFinite y = true) :
    x < y ↔ number x < number y := by
  rw [lt_iff, key_lt_iff (unpacked_of_isFinite hx) (unpacked_of_isFinite hy), number, number,
    parts_eq, parts_eq]
  simp only [isNaN_of_isFinite hx, isNaN_of_isFinite hy, true_and]

theorem le_iff_number (hx : isFinite x = true) (hy : isFinite y = true) :
    x ≤ y ↔ number x ≤ number y := by
  rw [le_iff_not_lt (isNaN_of_isFinite hy) (isNaN_of_isFinite hx), lt_iff_number hy hx, not_lt]

/-! ## Bounds -/

protected theorem le_of_lt (h : x < y) : x ≤ y := by
  obtain ⟨hx, hy, hlt⟩ := (lt_iff x y).1 h
  exact (le_iff x y).2 ⟨hx, hy, hlt.le⟩

/-- Only infinity comes after all finite doubles, and only what is no number has no place. -/
theorem isFinite_of_between (hx : 0 ≤ x) (hxy : x ≤ y) (hy : isFinite y = true) :
    isFinite x = true := by
  have hkey := ((le_iff x y).1 hxy).2.2
  have hbelow := NotBelowZero.of_le hx
  have hunpacked := unpacked_of_isFinite hy
  rw [isFinite_eq]
  generalize x.toModel.unpack = u at *
  cases hbelow with
  | zero s => rfl
  | finite hm hc he => rfl
  | infinity =>
    generalize y.toModel.unpack = v at *
    cases hunpacked <;> simp [key, Prod.Lex.toLex_le_toLex] at hkey

theorem not_le_zero_iff (hx : isFinite x = true) : ¬ x ≤ 0 ↔ 0 < number x := by
  rw [le_iff_number hx rfl, number_zero, not_le]

theorem not_lt_zero_iff (hx : isFinite x = true) : ¬ x < 0 ↔ 0 ≤ number x := by
  rw [lt_iff_number hx rfl, number_zero, not_lt]

theorem zero_le_and_le_one_iff :
    0 ≤ x ∧ x ≤ 1 ↔ isFinite x = true ∧ 0 ≤ number x ∧ number x ≤ 1 := by
  have hbounds (hx : isFinite x = true) : 0 ≤ x ∧ x ≤ 1 ↔ 0 ≤ number x ∧ number x ≤ 1 := by
    rw [le_iff_number rfl hx, le_iff_number hx rfl, number_zero, number_one]
  constructor
  · intro h
    have hx := isFinite_of_between h.1 h.2 isFinite_one
    exact ⟨hx, (hbounds hx).1 h⟩
  · rintro ⟨hx, h⟩
    exact (hbounds hx).2 h

theorem zero_le_and_lt_one_iff :
    0 ≤ x ∧ x < 1 ↔ isFinite x = true ∧ 0 ≤ number x ∧ number x < 1 := by
  have hbounds (hx : isFinite x = true) : 0 ≤ x ∧ x < 1 ↔ 0 ≤ number x ∧ number x < 1 := by
    rw [le_iff_number rfl hx, lt_iff_number hx rfl, number_zero, number_one]
  constructor
  · intro h
    have hx := isFinite_of_between h.1 (Double.le_of_lt h.2) isFinite_one
    exact ⟨hx, (hbounds hx).1 h⟩
  · rintro ⟨hx, h⟩
    exact (hbounds hx).2 h

end Exploration.Double
