import Mathlib
import Exploration.Proofs.FiniteDoubles

/-!
# Sums of doubles

The sum of two doubles that are not below zero is rounded from the exact sum (`amounts_add`), so the
greater of two doubles stays the greater when the same is added to both (`add_le_add_right`).
-/

namespace Exploration.Double

open Float.Model (UnpackedFloat)
open Float.Model.UnpackedFloat

protected theorem le_trans {x y z : Float} (hxy : x ≤ y) (hyz : y ≤ z) : x ≤ z := by
  rw [le_iff] at hxy hyz ⊢
  exact ⟨hxy.1, hyz.2.1, hxy.2.2.trans hyz.2.2⟩

/-! ## Addition -/

theorem unpack_add (x y : Float) : (x + y).toModel.unpack =
    unpack .binary64 (pack .binary64 (add .binary64 x.toModel.unpack y.toModel.unpack)) := rfl

/-- A mantissa that is shifted to a smaller exponent keeps its value. -/
theorem decreaseExponent_value (m : ℕ) {e t : ℤ} (h : t ≤ e) :
    ((decreaseExponent m e t).1 : ℚ) * 2 ^ t = m * 2 ^ e := by
  rw [natCast_mul_zpow h m, decreaseExponent, Nat.shiftLeft_eq]

theorem rounded_add {m₁ m₂ : ℕ} {e₁ e₂ : ℤ} (h₁ : 0 < m₁) (h₂ : 0 < m₂) :
    Rounded .positive (m₁ * 2 ^ e₁ + m₂ * 2 ^ e₂)
      (add .binary64 (.finite .positive m₁ e₁ h₁) (.finite .positive m₂ e₂ h₂)) := by
  obtain ⟨t, ht⟩ : ∃ t, t = min e₁ e₂ := ⟨_, rfl⟩
  obtain ⟨n, hn⟩ : ∃ n, n = (decreaseExponent m₁ e₁ t).1 + (decreaseExponent m₂ e₂ t).1 :=
    ⟨_, rfl⟩
  have hvalue : (m₁ * 2 ^ e₁ + m₂ * 2 ^ e₂ : ℚ) = n * 2 ^ t := by
    rw [hn, Nat.cast_add, add_mul, decreaseExponent_value m₁ (ht ▸ min_le_left e₁ e₂),
      decreaseExponent_value m₂ (ht ▸ min_le_right e₁ e₂)]
  have hpos : 0 < n := by
    have hsum : (0 : ℚ) < m₁ * 2 ^ e₁ + m₂ * 2 ^ e₂ :=
      add_pos (mul_pos (Nat.cast_pos.2 h₁) (two_zpow_pos e₁))
        (mul_pos (Nat.cast_pos.2 h₂) (two_zpow_pos e₂))
    rw [hvalue] at hsum
    exact Nat.cast_pos.1 ((pos_iff_pos_of_mul_pos hsum).2 (two_zpow_pos t))
  have hadd : add .binary64 (.finite .positive m₁ e₁ h₁) (.finite .positive m₂ e₂ h₂) =
      UnpackedFloat.normalize .binary64 (n : ℤ) t .positive := by
    rw [hn, ht]
    rfl
  rw [hvalue, hadd, UnpackedFloat.normalize, Int.compare_eq_gt.2 (Int.natCast_pos.2 hpos)]
  exact rounded_round .positive hpos t

/-! ## Doubles that are not below zero -/

/-- A double that is not below zero. A zero may have either sign. -/
inductive NotBelowZero : UnpackedFloat → Prop
  | zero (s : Sign) : NotBelowZero (.zero s)
  | finite {m : ℕ} {e : ℤ} (hm : 0 < m) (hc : Canonical m e) (he : e ≤ 971) :
    NotBelowZero (.finite .positive m e hm)
  | infinity : NotBelowZero (.infinity .positive)

/-- The exact value of what is not below zero. For infinity it is the least that is too great. -/
def value : UnpackedFloat → ℚ
  | .notANumber => 0
  | .zero _ => 0
  | .finite _ m e _ => m * 2 ^ e
  | .infinity _ => 2 ^ (1024 : ℤ)

@[simp] theorem value_zero (s : Sign) : value (.zero s) = 0 := rfl

theorem value_nonneg : ∀ u : UnpackedFloat, 0 ≤ value u
  | .notANumber | .zero _ => le_rfl
  | .finite _ m e _ => mul_nonneg (Nat.cast_nonneg m) (two_zpow_pos e).le
  | .infinity _ => (two_zpow_pos 1024).le

/-- The double nearest to an amount. -/
inductive Amounts (q : ℚ) : UnpackedFloat → Prop
  | zero (s : Sign) (h : round q = 0) : Amounts q (.zero s)
  | finite {m : ℕ} {e : ℤ} (hm : 0 < m) (hc : Canonical m e) (he : e ≤ 971)
    (h : m * 2 ^ e = round q) : Amounts q (.finite .positive m e hm)
  | infinity (h : 2 ^ (1024 : ℤ) ≤ round q) : Amounts q (.infinity .positive)

theorem Nearest.amounts {q : ℚ} {u : UnpackedFloat} (h : Nearest .positive q u) : Amounts q u := by
  cases h with
  | zero h => exact .zero _ h
  | finite hm hc he h => exact .finite hm hc he h
  | infinity h => exact .infinity h

theorem Amounts.isNaN {q : ℚ} {u : UnpackedFloat} (h : Amounts q u) : u.isNaN = false := by
  cases h <;> rfl

theorem NotBelowZero.of_le {x : Float} (h : 0 ≤ x) : NotBelowZero x.toModel.unpack := by
  obtain ⟨-, hnan, hle⟩ := (le_iff 0 x).1 h
  have hzero : key (0 : Float).toModel.unpack = toLex (0, toLex (0, 0)) := rfl
  have hnan : x.toModel.unpack.isNaN = false := hnan
  rw [hzero] at hle
  cases hx : x.toModel.unpack with
  | notANumber =>
    rw [hx] at hnan
    cases hnan
  | zero s => exact .zero s
  | infinity s =>
    rw [hx] at hle
    cases s with
    | negative => exact absurd hle (by decide)
    | positive => exact .infinity
  | finite s m e hm =>
    rw [hx] at hle
    cases s with
    | negative =>
      refine absurd hle (not_le.2 ?_)
      simp [key, Prod.Lex.toLex_lt_toLex]
    | positive =>
      obtain ⟨hc, he⟩ := canonical_of_unpack hx
      exact .finite hm hc he

theorem NotBelowZero.unpack_pack {u : UnpackedFloat} (h : NotBelowZero u) :
    unpack .binary64 (pack .binary64 u) = u := by
  cases h with
  | zero s => exact unpack_pack_zero s
  | finite hm hc he => rw [unpack_pack_finite _ hm hc, if_pos he]
  | infinity => exact unpack_pack_infinity .positive

theorem NotBelowZero.amounts {u : UnpackedFloat} (h : NotBelowZero u) : Amounts (value u) u := by
  cases h with
  | zero s => exact .zero s round_zero
  | finite hm hc he => exact .finite hm hc he (round_of_lt hc.lt hc.least).symm
  | infinity => exact .infinity (top_le_round le_rfl)

/-- Adding zero or infinity gives back what was there, anything else is rounded. -/
theorem amounts_add {u v : UnpackedFloat} (hu : NotBelowZero u) (hv : NotBelowZero v) :
    Amounts (value u + value v) (unpack .binary64 (pack .binary64 (add .binary64 u v))) := by
  have hself : ∀ {w}, NotBelowZero w →
      Amounts (value w) (unpack .binary64 (pack .binary64 w)) := fun hw => by
    rw [hw.unpack_pack]
    exact hw.amounts
  have htop : ∀ w, Amounts (value (.infinity .positive) + value w)
      (unpack .binary64 (pack .binary64 (.infinity .positive))) := fun w => by
    rw [NotBelowZero.infinity.unpack_pack]
    exact .infinity (top_le_round (le_add_of_nonneg_right (value_nonneg w)))
  cases hu with
  | zero s =>
    cases hv with
    | zero t =>
      have hround : round (value (.zero s) + value (.zero t)) = 0 := by
        rw [value_zero, value_zero, add_zero, round_zero]
      rw [add]
      split_ifs <;> rw [unpack_pack_zero] <;> exact .zero _ hround
    | finite hm hc he =>
      rw [value_zero, zero_add]
      exact hself (.finite hm hc he)
    | infinity =>
      rw [add_comm]
      exact htop _
  | finite hm hc he =>
    cases hv with
    | zero t =>
      rw [value_zero, add_zero]
      exact hself (.finite hm hc he)
    | finite hm' hc' he' => exact (nearest_of_rounded (rounded_add hm hm')).amounts
    | infinity =>
      rw [add_comm]
      exact htop _
  | infinity => cases hv <;> exact htop _

/-! ## Order -/

/-- The double nearest to a greater amount is not less. -/
theorem key_le_of_amounts {p q : ℚ} {u v : UnpackedFloat} (hp : 0 ≤ p) (hpq : p ≤ q)
    (hu : Amounts p u) (hv : Amounts q v) : key u ≤ key v := by
  have hround : round p ≤ round q := by
    rcases hp.eq_or_lt with rfl | hpos
    · rw [round_zero]
      exact mul_nonneg (Nat.cast_nonneg _) (two_zpow_pos _).le
    · exact round_mono hpos hpq
  cases hu with
  | zero s hzero =>
    cases hv with
    | zero t h => exact le_rfl
    | finite hm hc he h => simp [key, Prod.Lex.toLex_le_toLex]
    | infinity h => simp [key, Prod.Lex.toLex_le_toLex]
  | @finite m e hm hc he h =>
    have hpos : (0 : ℚ) < m * 2 ^ e := mul_pos (Nat.cast_pos.2 hm) (two_zpow_pos e)
    cases hv with
    | zero t hzero => exact absurd (h.le.trans hround) (not_le.2 (hzero ▸ hpos))
    | finite hm' hc' he' h' =>
      exact key_le_of_le hm hm' hc hc' (h.le.trans (hround.trans_eq h'.symm))
    | infinity h' => simp [key, Prod.Lex.toLex_le_toLex]
  | infinity h =>
    cases hv with
    | zero t hzero => exact absurd (h.trans hround) (not_le.2 (hzero ▸ two_zpow_pos 1024))
    | finite hm' hc' he' h' =>
      exact absurd ((h.trans hround).trans_eq h'.symm) (hc'.lt_top he').not_ge
    | infinity h' => exact le_rfl

theorem value_le_of_key_le {u v : UnpackedFloat} (hu : NotBelowZero u) (hv : NotBelowZero v)
    (h : key u ≤ key v) : value u ≤ value v := by
  by_contra hlt
  have hlt := not_le.1 hlt
  have hkey := le_antisymm h (key_le_of_amounts (value_nonneg v) hlt.le hv.amounts hu.amounts)
  -- equal keys are those of equal values
  have hvalue : value u = value v := by
    cases hu <;> cases hv <;> simp [key, value] at hkey ⊢
    rw [hkey.1, hkey.2]
  exact hlt.ne' hvalue

protected theorem add_le_add_right {x y c : Float} (hx : 0 ≤ x) (hxy : x ≤ y) (hc : 0 ≤ c) :
    x + c ≤ y + c := by
  have hx' := NotBelowZero.of_le hx
  have hy' := NotBelowZero.of_le (Double.le_trans hx hxy)
  have hc' := NotBelowZero.of_le hc
  have hxc := amounts_add hx' hc'
  have hyc := amounts_add hy' hc'
  have hvalue := value_le_of_key_le hx' hy' ((le_iff x y).1 hxy).2.2
  rw [← unpack_add] at hxc hyc
  exact (le_iff _ _).2 ⟨hxc.isNaN, hyc.isNaN, key_le_of_amounts
    (add_nonneg (value_nonneg _) (value_nonneg _)) (by gcongr) hxc hyc⟩

protected theorem add_nonneg {x c : Float} (hx : 0 ≤ x) (hc : 0 ≤ c) : 0 ≤ x + c := by
  have hsum := amounts_add (.of_le hx) (.of_le hc)
  rw [← unpack_add] at hsum
  exact (le_iff _ _).2 ⟨rfl, hsum.isNaN, key_le_of_amounts le_rfl
    (add_nonneg (value_nonneg _) (value_nonneg _)) (.zero _ round_zero) hsum⟩

end Exploration.Double
