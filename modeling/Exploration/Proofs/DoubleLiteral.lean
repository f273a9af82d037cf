import Mathlib
import Exploration.Decimal.Literal
import Exploration.Proofs.DoubleArithmetic

/-!
# The double of a decimal literal

A literal stands for the double nearest to it (`nearest_toDouble`), whichever of its two ways
`Float.ofScientific` goes.
-/

namespace Exploration.Double

open Float.Model (UnpackedFloat Format)
open Float.Model.UnpackedFloat
open Decimal (Literal)

/-! ## Powers of ten -/

theorem round_ten_pow {k : ℕ} (h : k ≤ 22) : round (10 ^ k) = 10 ^ k := by
  have hvalue : (10 ^ k : ℚ) = (5 ^ k : ℕ) * 2 ^ (k : ℤ) := by
    rw [zpow_natCast, show (10 : ℚ) = 5 * 2 by norm_num, mul_pow]
    push_cast
    rfl
  have hlt : 5 ^ k < 2 ^ 53 := (Nat.pow_le_pow_right (by norm_num) h).trans_lt (by norm_num)
  rw [hvalue]
  exact round_of_lt hlt (by omega)

theorem bits_powerOfTen : ∀ k : Fin Float.exactlyRepresentablePowersOfTen.size,
    (Float.exactlyRepresentablePowersOfTen[k]).toBits.toBitVec =
      pack .binary64 (UnpackedFloat.ofNat .binary64 (10 ^ k.val)) := by decide +kernel

theorem unpack_powerOfTen {k : ℕ} (hk : k < Float.exactlyRepresentablePowersOfTen.size) :
    Float.exactlyRepresentablePowersOfTen[k].toModel.unpack =
      unpack .binary64 (pack .binary64 (UnpackedFloat.ofNat .binary64 (10 ^ k))) :=
  congrArg (unpack .binary64) (bits_powerOfTen ⟨k, hk⟩)

/-! ## Literals without a sign -/

theorem nearest_ofScientific_of_small {m k : ℕ} (hm : 0 < m) (hlt : m < 2 ^ 53)
    (hk : k < Float.exactlyRepresentablePowersOfTen.size) :
    Nearest .positive (m * 10 ^ k)
        (m.toUInt64.toFloat * Float.exactlyRepresentablePowersOfTen[k]).toModel.unpack ∧
      Nearest .positive (m / 10 ^ k)
        (m.toUInt64.toFloat / Float.exactlyRepresentablePowersOfTen[k]).toModel.unpack := by
  have hk' : k ≤ 22 := Nat.lt_succ_iff.1 hk
  have hword : m.toUInt64.toNat = m := Nat.mod_eq_of_lt (hlt.trans (by norm_num))
  have hten : round ((10 ^ k : ℕ) : ℚ) = 10 ^ k := by
    push_cast
    exact round_ten_pow hk'
  have hten' : 10 ^ k < 2 ^ 128 := (Nat.pow_le_pow_right (by norm_num) hk').trans_lt (by norm_num)
  obtain ⟨m₁, e₁, hm₁, hu₁, hc₁, -, hv₁⟩ := finite_of_nearest
    (nearest_of_rounded (rounded_ofNat hm)) (zero_lt_one.trans_le (one_le_round hm))
    (round_natCast_lt (hlt.trans (by norm_num)))
  obtain ⟨m₂, e₂, hm₂, hu₂, -, -, hv₂⟩ := finite_of_nearest
    (nearest_of_rounded (rounded_ofNat (pow_pos (by norm_num : 0 < 10) k)))
    (zero_lt_one.trans_le (one_le_round (by positivity))) (round_natCast_lt hten')
  rw [round_natCast hlt] at hv₁
  rw [hten] at hv₂
  rw [unpack_mul, unpack_div, unpack_toFloat, unpack_powerOfTen, hword, hu₁, hu₂, ← hv₁, ← hv₂]
  have hfull : 2 ^ 52 ≤ m₁ := hc₁.full_of_one_le (by rw [hv₁]; exact_mod_cast hm)
  exact ⟨nearest_of_rounded (@rounded_mul .positive .positive _ _ _ _ hm₁ hm₂ (Or.inl hfull)),
    nearest_of_rounded (@rounded_div .positive .positive _ _ _ _ hm₁ hm₂)⟩

theorem nearest_model_ofScientific {m : ℕ} (hm : 0 < m) (e : ℤ) :
    Nearest .positive (m * 10 ^ e)
      (unpack .binary64 (pack .binary64 (ofScientific .binary64 m e))) := by
  have hm' : (1 : ℚ) ≤ m := by exact_mod_cast hm
  rw [ofScientific, dif_neg hm.ne']
  split_ifs with hhigh hlow hle
  · -- beyond the doubles
    rw [unpack_pack_infinity]
    have he : (1024 : ℤ) ≤ e := le_of_lt (lt_trans (by norm_num [Format.binary64]) hhigh)
    have hten : (2 : ℚ) ^ (1024 : ℤ) ≤ m * 10 ^ e :=
      calc (2 : ℚ) ^ (1024 : ℤ) ≤ 10 ^ (1024 : ℤ) :=
            zpow_le_zpow_left₀ (by norm_num) (by norm_num) (by norm_num)
        _ ≤ 10 ^ e := zpow_le_zpow_right₀ (by norm_num) he
        _ ≤ m * 10 ^ e := le_mul_of_one_le_left (by positivity) hm'
    exact .infinity (top_le_round hten)
  · -- below half of the least double
    rw [unpack_pack_zero]
    rw [Nat.log2_eq_log_two, show (Format.binary64.exponentBits : ℕ) = 11 from rfl] at hlow
    have hm : (m : ℚ) < 2 ^ (Nat.log 2 m + 1 : ℤ) := by
      exact_mod_cast Nat.lt_pow_succ_log_self (b := 2) (by norm_num) m
    have hten : (10 : ℚ) ^ e ≤ 2 ^ e := by
      have hneg : (2 : ℚ) ^ (-e) ≤ 10 ^ (-e) :=
        zpow_le_zpow_left₀ (show 0 ≤ -e by omega) (by norm_num) (by norm_num)
      have hinv := inv_anti₀ (two_zpow_pos (-e)) hneg
      rwa [zpow_neg, zpow_neg, inv_inv, inv_inv] at hinv
    refine .zero (round_eq_zero (by positivity) ?_)
    calc (m * 10 ^ e : ℚ) < 2 ^ (Nat.log 2 m + 1 : ℤ) * 2 ^ e :=
          mul_lt_mul hm hten (by positivity) (two_zpow_pos _).le
      _ = 2 ^ (Nat.log 2 m + 1 + e) := (zpow_add₀ (by norm_num) _ _).symm
      _ ≤ 2 ^ (-1075 : ℤ) := zpow_le_zpow_right₀ (by norm_num) (by omega)
  · have hvalue : (m * 10 ^ e : ℚ) =
        (m <<< 53 : ℕ) * 2 ^ (-53 : ℤ) * ((10 ^ e.toNat : ℕ) * 2 ^ (0 : ℤ)) := by
      obtain ⟨k, rfl⟩ := Int.eq_ofNat_of_zero_le hle
      rw [Nat.shiftLeft_eq, Int.toNat_natCast, zpow_natCast]
      push_cast
      norm_num
      field_simp
    rw [hvalue]
    have hfull : 2 ^ 52 ≤ m <<< 53 := by
      rw [Nat.shiftLeft_eq]
      omega
    exact nearest_of_rounded (@rounded_mul .positive .positive _ _ _ _ _ _ (Or.inl hfull))
  · have hvalue : (m * 10 ^ e : ℚ) = m * 2 ^ (0 : ℤ) / ((10 ^ (-e).toNat : ℕ) * 2 ^ (0 : ℤ)) := by
      obtain ⟨k, hk⟩ := Int.eq_ofNat_of_zero_le (show 0 ≤ -e by omega)
      rw [hk, Int.toNat_natCast, ← neg_neg e, hk, zpow_neg, zpow_natCast, zpow_zero]
      push_cast
      field_simp
    rw [hvalue]
    exact nearest_of_rounded (@rounded_div .positive .positive _ _ _ _ _ _)

theorem nearest_ofScientific {m : ℕ} (hm : 0 < m) (negative : Bool) (k : ℕ) :
    Nearest .positive (m * 10 ^ (if negative then -k else k : ℤ))
      (Float.ofScientific m negative k).toModel.unpack := by
  unfold Float.ofScientific
  cases negative
  · simp only [Bool.false_eq_true, if_false]
    split_ifs with hsmall
    · rw [zpow_natCast]
      exact (nearest_ofScientific_of_small hm hsmall.1 _).1
    · exact nearest_model_ofScientific hm (k : ℤ)
  · simp only [if_true]
    split_ifs with hsmall
    · rw [zpow_neg, zpow_natCast, ← div_eq_mul_inv]
      exact (nearest_ofScientific_of_small hm hsmall.1 _).2
    · rw [Int.negOfNat_eq]
      exact nearest_model_ofScientific hm (-k : ℤ)

theorem nearest_ofNat {n : ℕ} (hn : 0 < n) :
    Nearest .positive n (Float.ofNat n).toModel.unpack := by
  have h := nearest_ofScientific hn false 0
  rwa [if_neg Bool.false_ne_true, Nat.cast_zero, zpow_zero, mul_one] at h

/-! ## Signs -/

/-- The sign that a minus stands for. -/
def signOf (negative : Bool) : Sign := if negative then .negative else .positive

theorem nearest_neg {x : ℚ} {f : Float} (h : Nearest .positive x f.toModel.unpack) :
    Nearest .negative x (-f).toModel.unpack := by
  rw [unpack_neg]
  generalize f.toModel.unpack = u at h
  cases h with
  | zero h =>
    rw [neg, unpack_pack_zero]
    exact .zero h
  | finite hm hc he h =>
    rw [neg, unpack_pack_finite _ hm hc, if_pos he]
    exact .finite hm hc he h
  | infinity h =>
    rw [neg, unpack_pack_infinity]
    exact .infinity h

theorem nearest_toDouble {l : Literal} (h : 0 < l.coefficient) :
    Nearest (signOf l.negative) (l.coefficient * 10 ^ l.scale) l.toDouble.toModel.unpack := by
  have hscale : (if decide (l.scale < 0) = true then -l.scale.natAbs else l.scale.natAbs : ℤ) =
      l.scale := by
    split_ifs with hneg
    · have := of_decide_eq_true hneg
      omega
    · have := of_decide_eq_false (Bool.eq_false_iff.2 hneg)
      omega
  have hnear := nearest_ofScientific h (decide (l.scale < 0)) l.scale.natAbs
  rw [hscale] at hnear
  unfold Literal.toDouble signOf
  dsimp only
  split_ifs
  · exact nearest_neg hnear
  · exact hnear

end Exploration.Double
