import Mathlib
import Exploration.Proofs.DoublePacking

/-!
# Arithmetic of doubles

A natural number, a product and a quotient of doubles are rounded from the exact result
(`rounded_ofNat`, `rounded_mul`, `rounded_div`).
-/

namespace Exploration.Double

open Float.Model (UnpackedFloat)
open Float.Model.UnpackedFloat

/-! ## Operations -/

theorem unpack_neg (x : Float) :
    (-x).toModel.unpack = unpack .binary64 (pack .binary64 (neg x.toModel.unpack)) := rfl

theorem unpack_mul (x y : Float) : (x * y).toModel.unpack =
    unpack .binary64 (pack .binary64 (mul .binary64 x.toModel.unpack y.toModel.unpack)) := rfl

theorem unpack_div (x y : Float) : (x / y).toModel.unpack =
    unpack .binary64 (pack .binary64 (div .binary64 x.toModel.unpack y.toModel.unpack)) := rfl

theorem unpack_toFloat (n : UInt64) : n.toFloat.toModel.unpack =
    unpack .binary64 (pack .binary64 (UnpackedFloat.ofNat .binary64 n.toNat)) := rfl

/-! ## Range -/

theorem round_natCast {n : ℕ} (hn : n < 2 ^ 53) : round n = n := by
  have h := round_of_lt (e := 0) hn (by norm_num)
  rwa [zpow_zero, mul_one] at h

theorem one_le_round {n : ℕ} (hn : 0 < n) : 1 ≤ round n := by
  have hone : round 1 = 1 := by exact_mod_cast round_natCast (n := 1) (by norm_num)
  rw [← hone]
  exact round_mono zero_lt_one (by exact_mod_cast hn)

theorem top_le_round {x : ℚ} (h : 2 ^ (1024 : ℤ) ≤ x) : 2 ^ (1024 : ℤ) ≤ round x := by
  have htop := round_of_lt (m := 1) (e := 1024) (by norm_num) (by norm_num)
  rw [Nat.cast_one, one_mul] at htop
  rw [← htop]
  exact round_mono (two_zpow_pos _) h

theorem Canonical.lt_top {m : ℕ} {e : ℤ} (h : Canonical m e) (he : e ≤ 971) :
    (m * 2 ^ e : ℚ) < 2 ^ (1024 : ℤ) := by
  have hm : (m : ℚ) < 2 ^ (53 : ℤ) := by exact_mod_cast h.lt
  rw [show (1024 : ℤ) = 53 + 971 by norm_num, zpow_add₀ (by norm_num)]
  calc (m * 2 ^ e : ℚ) < 2 ^ (53 : ℤ) * 2 ^ e := mul_lt_mul_of_pos_right hm (two_zpow_pos e)
    _ ≤ 2 ^ (53 : ℤ) * 2 ^ (971 : ℤ) := by
        refine mul_le_mul_of_nonneg_left ?_ (two_zpow_pos 53).le
        exact zpow_le_zpow_right₀ (by norm_num) he

theorem round_lt_top {x : ℚ} {m : ℕ} {e : ℤ} (hx : 0 < x) (hc : Canonical m e) (he : e ≤ 971)
    (h : x ≤ m * 2 ^ e) : round x < 2 ^ (1024 : ℤ) :=
  calc round x ≤ round (m * 2 ^ e) := round_mono hx h
    _ = m * 2 ^ e := round_of_lt hc.lt hc.least
    _ < 2 ^ (1024 : ℤ) := hc.lt_top he

theorem round_natCast_lt {n : ℕ} (h : n < 2 ^ 128) : round n < 2 ^ (1024 : ℤ) := by
  rcases n.eq_zero_or_pos with rfl | hn
  · rw [Nat.cast_zero, round_zero]
    exact two_zpow_pos 1024
  refine round_lt_top (m := 2 ^ 52) (e := 76) (Nat.cast_pos.2 hn)
    ⟨by norm_num, by norm_num, Or.inr le_rfl⟩ (by norm_num) ?_
  have hle : (n : ℚ) ≤ 2 ^ 128 := by exact_mod_cast h.le
  norm_num
  linarith

/-- A rounded number in the range of the doubles is one of them. -/
theorem finite_of_nearest {s : Sign} {x : ℚ} {u : UnpackedFloat} (h : Nearest s x u)
    (hpos : 0 < round x) (hlt : round x < 2 ^ (1024 : ℤ)) :
    ∃ m e, ∃ hm : 0 < m, u = .finite s m e hm ∧ Canonical m e ∧ e ≤ 971 ∧ m * 2 ^ e = round x := by
  cases h with
  | zero h => exact absurd h hpos.ne'
  | finite hm hc he h => exact ⟨_, _, hm, rfl, hc, he, h⟩
  | infinity h => exact absurd h hlt.not_ge

theorem Canonical.full_of_one_le {m : ℕ} {e : ℤ} (h : Canonical m e)
    (hle : (1 : ℚ) ≤ m * 2 ^ e) : 2 ^ 52 ≤ m := by
  refine h.full.resolve_left ?_
  rintro rfl
  have hm : (m : ℚ) < 2 ^ (53 : ℤ) := by exact_mod_cast h.lt
  have hlt : (m * 2 ^ (-1074 : ℤ) : ℚ) < 2 ^ (53 : ℤ) * 2 ^ (-1074 : ℤ) :=
    mul_lt_mul_of_pos_right hm (two_zpow_pos _)
  rw [← zpow_add₀ (by norm_num)] at hlt
  have hsmall : (2 : ℚ) ^ (53 + -1074 : ℤ) ≤ 2 ^ (0 : ℤ) :=
    zpow_le_zpow_right₀ (by norm_num) (by norm_num)
  rw [zpow_zero] at hsmall
  linarith

/-! ## Natural numbers -/

theorem truncates_natCast (m : ℕ) : Truncates (.ofMantissaAndAccuracy m .exact) m := by
  refine ⟨Nat.cast_nonneg m, (Nat.floor_natCast m).symm, ?_, ?_⟩
  · rw [Int.fract_natCast]
    norm_num [ExtendedMantissa.ofMantissaAndAccuracy]
  · rw [Int.fract_natCast]
    norm_num [ExtendedMantissa.ofMantissaAndAccuracy]

theorem rounded_natCast_mul (s : Sign) {m : ℕ} {e : ℤ}
    (he : e ≤ max ((Nat.log 2 m + 1 + e : ℤ) - 53) (-1074)) :
    Rounded s (m * 2 ^ e) (roundWithAccuracy .binary64 s m e .exact) :=
  rounded_roundWithAccuracy s (truncates_natCast m) he

theorem log_mul_two_pow {m : ℕ} (hm : 0 < m) (k : ℕ) :
    Nat.log 2 (m * 2 ^ k) = Nat.log 2 m + k := by
  induction k with
  | zero => rw [pow_zero, mul_one, add_zero]
  | succ k ih =>
    rw [pow_succ, ← mul_assoc, Nat.log_mul_base (by norm_num) (by positivity), ih, add_assoc]

theorem rounded_round (s : Sign) {m : ℕ} (hm : 0 < m) (e : ℤ) :
    Rounded s (m * 2 ^ e) (UnpackedFloat.round .binary64 s m e) := by
  simp only [UnpackedFloat.round, decreaseExponent, targetExponent_eq, totalExponent_eq,
    Nat.shiftLeft_eq]
  obtain ⟨k, hk⟩ : ∃ k, k = (e - max ((Nat.log 2 m + 1 + e : ℤ) - 53) (-1074)).toNat := ⟨_, rfl⟩
  rw [← hk]
  have hvalue : (m * 2 ^ e : ℚ) = (m * 2 ^ k : ℕ) * 2 ^ (e - k) := by
    rw [zpow_sub₀ (by norm_num), zpow_natCast]
    push_cast
    field_simp
  rw [hvalue]
  refine rounded_natCast_mul s ?_
  rw [log_mul_two_pow hm]
  omega

theorem rounded_ofNat {n : ℕ} (hn : 0 < n) :
    Rounded .positive n (UnpackedFloat.ofNat .binary64 n) := by
  have h := rounded_round .positive hn 0
  rw [zpow_zero, mul_one] at h
  rw [UnpackedFloat.ofNat, UnpackedFloat.ofInt, UnpackedFloat.normalize,
    Int.compare_eq_gt.2 (Int.natCast_pos.2 hn)]
  exact h

/-- A product has bits enough to be rounded if one factor has. -/
theorem rounded_mul {s₁ s₂ : Sign} {m₁ m₂ : ℕ} {e₁ e₂ : ℤ} (h₁ : 0 < m₁) (h₂ : 0 < m₂)
    (h : 2 ^ 52 ≤ m₁ ∨ 2 ^ 52 ≤ m₂) : Rounded (s₁ * s₂) (m₁ * 2 ^ e₁ * (m₂ * 2 ^ e₂))
      (mul .binary64 (.finite s₁ m₁ e₁ h₁) (.finite s₂ m₂ e₂ h₂)) := by
  have hvalue : (m₁ * 2 ^ e₁ * (m₂ * 2 ^ e₂) : ℚ) = (m₁ * m₂ : ℕ) * 2 ^ (e₁ + e₂) := by
    rw [zpow_add₀ (by norm_num)]
    push_cast
    ring
  rw [hvalue]
  refine rounded_natCast_mul _ ?_
  have hbits : 52 ≤ Nat.log 2 (m₁ * m₂) := by
    refine Nat.le_log_of_pow_le (by norm_num) ?_
    rcases h with h | h
    · exact h.trans (Nat.le_mul_of_pos_right m₁ h₂)
    · exact h.trans (Nat.le_mul_of_pos_left m₂ h₁)
  exact le_max_of_le_left (by omega)

/-! ## Quotients -/

theorem truncates_div (a : ℕ) {b : ℕ} (hb : 0 < b) :
    Truncates (.ofMantissaAndAccuracy (a / b) (accuracyOfFraction (a % b) b)) (a / b) := by
  have hb' : (0 : ℚ) < b := Nat.cast_pos.2 hb
  have hfract : Int.fract (a / b : ℚ) = (a % b : ℕ) / b := Int.fract_div_natCast_eq_div_natCast_mod
  have hfloor : a / b = ⌊(a / b : ℚ)⌋₊ := (Nat.floor_div_eq_div a b).symm
  unfold accuracyOfFraction
  by_cases hzero : a % b = 0
  · rw [if_pos hzero]
    refine ⟨by positivity, hfloor, ?_, ?_⟩ <;> rw [hfract, hzero] <;>
      norm_num [ExtendedMantissa.ofMantissaAndAccuracy]
  · have hpos : 0 < ((a % b : ℕ) : ℚ) / b := div_pos (Nat.cast_pos.2 (Nat.pos_of_ne_zero hzero)) hb'
    rw [if_neg hzero]
    rcases hcmp : compare (2 * (a % b)) b with _ | _ | _
    · have hlt : ((a % b : ℕ) : ℚ) / b < 1 / 2 := by
        rw [div_lt_iff₀ hb']
        have : ((2 * (a % b) : ℕ) : ℚ) < b := Nat.cast_lt.2 (compare_lt_iff_lt.1 hcmp)
        push_cast at this ⊢
        linarith
      refine ⟨by positivity, hfloor, ?_, ?_⟩ <;> rw [hfract]
      · exact iff_of_false Bool.false_ne_true hlt.not_ge
      · exact iff_of_true rfl ⟨hpos.ne', hlt.ne⟩
    · have heq : ((a % b : ℕ) : ℚ) / b = 1 / 2 := by
        rw [div_eq_iff hb'.ne']
        have : ((2 * (a % b) : ℕ) : ℚ) = b := Nat.cast_inj.2 (compare_eq_iff_eq.1 hcmp)
        push_cast at this ⊢
        linarith
      refine ⟨by positivity, hfloor, ?_, ?_⟩ <;> rw [hfract]
      · exact iff_of_true rfl heq.ge
      · exact iff_of_false Bool.false_ne_true fun h => h.2 heq
    · have hgt : 1 / 2 < ((a % b : ℕ) : ℚ) / b := by
        rw [lt_div_iff₀ hb']
        have : (b : ℚ) < (2 * (a % b) : ℕ) := Nat.cast_lt.2 (compare_gt_iff_gt.1 hcmp)
        push_cast at this ⊢
        linarith
      refine ⟨by positivity, hfloor, ?_, ?_⟩ <;> rw [hfract]
      · exact iff_of_true rfl hgt.le
      · exact iff_of_true rfl ⟨hpos.ne', hgt.ne'⟩

theorem rounded_div {s₁ s₂ : Sign} {m₁ m₂ : ℕ} {e₁ e₂ : ℤ} (h₁ : 0 < m₁) (h₂ : 0 < m₂) :
    Rounded (s₁ / s₂) (m₁ * 2 ^ e₁ / (m₂ * 2 ^ e₂))
      (div .binary64 (.finite s₁ m₁ e₁ h₁) (.finite s₂ m₂ e₂ h₂)) := by
  simp only [div, divCore, targetExponent_eq, totalExponent_eq, Nat.shiftLeft_eq]
  obtain ⟨t, ht⟩ : ∃ t, t = min (e₁ - e₂) (max ((Nat.log 2 m₁ + 1 + e₁ : ℤ) -
    (Nat.log 2 m₂ + 1 + e₂) - 53) (-1074)) := ⟨_, rfl⟩
  rw [← ht]
  obtain ⟨k, hk⟩ : ∃ k : ℕ, e₁ - e₂ = t + k := ⟨(e₁ - e₂ - t).toNat, by omega⟩
  rw [hk, add_sub_cancel_left, Int.toNat_natCast]
  have hvalue : (m₁ * 2 ^ e₁ / (m₂ * 2 ^ e₂) : ℚ) = (m₁ * 2 ^ k : ℕ) / m₂ * 2 ^ t := by
    have hpos := two_zpow_pos e₂
    rw [show e₁ = t + k + e₂ by omega, zpow_add₀ (by norm_num), zpow_add₀ (by norm_num),
      zpow_natCast]
    push_cast
    field_simp
  rw [hvalue]
  refine rounded_roundWithAccuracy _ (truncates_div _ h₂) ?_
  rcases le_or_gt t (-1074) with hle | hgt
  · exact hle.trans (le_max_right _ _)
  · -- the quotient has at least 53 bits
    have hbits : Nat.log 2 m₂ + 53 ≤ Nat.log 2 m₁ + k := by omega
    have hquotient : 2 ^ 52 ≤ m₁ * 2 ^ k / m₂ := by
      rw [Nat.le_div_iff_mul_le h₂]
      calc 2 ^ 52 * m₂ ≤ 2 ^ 52 * 2 ^ (Nat.log 2 m₂ + 1) := by
            have := Nat.lt_pow_succ_log_self (b := 2) (by norm_num) m₂
            gcongr
        _ = 2 ^ (Nat.log 2 m₂ + 53) := by
            rw [← pow_add]
            congr 1
            omega
        _ ≤ 2 ^ (Nat.log 2 m₁ + k) := Nat.pow_le_pow_right (by norm_num) hbits
        _ ≤ m₁ * 2 ^ k := by
            rw [pow_add]
            exact Nat.mul_le_mul_right _ (Nat.pow_log_le_self 2 h₁.ne')
    have hlog : 52 ≤ Nat.log 2 (m₁ * 2 ^ k / m₂) := Nat.le_log_of_pow_le (by norm_num) hquotient
    exact le_max_of_le_left (by omega)

end Exploration.Double
