import Mathlib
import Exploration.Proofs.DoubleLiteral
import Exploration.Proofs.DoubleOrder

/-!
# Shares

The quotient of two counts is the double nearest to the exact one, unless the counts are too great
(`nearest_share`). So it is above one half only if the first count is more than half of the second
(`lt_two_mul_of_half_lt`).
-/

namespace Exploration.Double

open Float.Model (UnpackedFloat)
open Float.Model.UnpackedFloat

/-- The share of `a` in `b`. Only counts that are too great for a double lose it. -/
theorem nearest_share {a b : ℕ} (ha : 0 < a) (hab : a ≤ b) :
    Nearest .positive (round a / round b) (Float.ofNat a / Float.ofNat b).toModel.unpack ∨
      2 ^ (1024 : ℤ) ≤ round b ∧
        ((Float.ofNat a / Float.ofNat b).toModel.unpack = .zero .positive ∨
          (Float.ofNat a / Float.ofNat b).toModel.unpack = .notANumber) := by
  have hle : round a ≤ round b := round_mono (by exact_mod_cast ha) (by exact_mod_cast hab)
  have hpos : 0 < round b := zero_lt_one.trans_le ((one_le_round ha).trans hle)
  have hnum := nearest_ofNat ha
  have hden := nearest_ofNat (ha.trans_le hab)
  rw [unpack_div]
  generalize (Float.ofNat a).toModel.unpack = u at hnum ⊢
  generalize (Float.ofNat b).toModel.unpack = v at hden ⊢
  cases hden with
  | zero h' => exact absurd h' hpos.ne'
  | finite hm' hc' he' h' =>
    cases hnum with
    | zero h => exact absurd h (zero_lt_one.trans_le (one_le_round ha)).ne'
    | finite hm hc he h =>
      left
      rw [← h, ← h']
      exact nearest_of_rounded (@rounded_div .positive .positive _ _ _ _ hm hm')
    | infinity h => exact absurd (h.trans (hle.trans_eq h'.symm)) (hc'.lt_top he').not_ge
  | infinity h' =>
    refine Or.inr ⟨h', ?_⟩
    cases hnum with
    | zero h => exact absurd h (zero_lt_one.trans_le (one_le_round ha)).ne'
    | finite hm hc he h => exact Or.inl (unpack_packComponents_zero _)
    | infinity h => exact Or.inr rfl

/-- Doubles above zero are ordered by their values. -/
theorem key_le_of_le {m m' : ℕ} {e e' : ℤ} (hm : 0 < m) (hm' : 0 < m') (h : Canonical m e)
    (h' : Canonical m' e') (hle : (m * 2 ^ e : ℚ) ≤ m' * 2 ^ e') :
    key (.finite .positive m e hm) ≤ key (.finite .positive m' e' hm') := by
  simp only [key, Prod.Lex.toLex_le_toLex, lt_self_iff_false, true_and, false_or]
  rcases lt_trichotomy e e' with hlt | rfl | hgt
  · exact Or.inl hlt
  · refine Or.inr ⟨rfl, ?_⟩
    exact_mod_cast le_of_mul_le_mul_right hle (two_zpow_pos e)
  · -- a greater exponent is that of a full mantissa
    have hfull : (2 : ℚ) ^ (52 : ℤ) ≤ m := by
      have := h.full.resolve_left (by have := h'.least; omega)
      exact_mod_cast this
    have hshort : (m' : ℚ) < 2 ^ (53 : ℤ) := by exact_mod_cast h'.lt
    refine absurd hle (not_le.2 ?_)
    calc (m' * 2 ^ e' : ℚ) < 2 ^ (53 : ℤ) * 2 ^ e' :=
          mul_lt_mul_of_pos_right hshort (two_zpow_pos e')
      _ = 2 ^ (53 + e') := (zpow_add₀ (by norm_num) _ _).symm
      _ ≤ 2 ^ (52 + e) := zpow_le_zpow_right₀ (by norm_num) (by omega)
      _ = 2 ^ (52 : ℤ) * 2 ^ e := zpow_add₀ (by norm_num) _ _
      _ ≤ m * 2 ^ e := mul_le_mul_of_nonneg_right hfull (two_zpow_pos e).le

theorem unpack_half : (0.5 : Float).toModel.unpack =
    .finite .positive (2 ^ 52) (-53) (by decide) := rfl

/-- What is nearest to at most one half is not above it. -/
theorem not_half_lt {x : ℚ} (hpos : 0 < x) (hx : x ≤ 1 / 2) {q : Float}
    (h : Nearest .positive x q.toModel.unpack) : ¬ 0.5 < q := by
  have hhalf : x ≤ (1 : ℕ) * 2 ^ (-1 : ℤ) := by
    norm_num
    linarith
  have hround : round x ≤ (1 : ℕ) * 2 ^ (-1 : ℤ) :=
    (round_mono hpos hhalf).trans_eq (round_of_lt (by norm_num) (by norm_num))
  rw [lt_iff, unpack_half]
  rintro ⟨-, -, hlt⟩
  generalize q.toModel.unpack = u at h hlt
  cases h with
  | zero h => exact absurd hlt (by decide)
  | finite hm hc he h =>
    refine absurd hlt (key_le_of_le hm _ hc ⟨by norm_num, by norm_num, Or.inr le_rfl⟩ ?_).not_gt
    rw [h]
    refine hround.trans_eq ?_
    norm_num
  | infinity h =>
    have hle := h.trans hround
    rw [Nat.cast_one, one_mul] at hle
    exact absurd ((zpow_le_zpow_iff_right₀ (by norm_num)).1 hle) (by norm_num)

theorem not_half_lt_of_zero {s : Sign} {q : Float} (h : q.toModel.unpack = .zero s) :
    ¬ 0.5 < q := by
  rw [lt_iff, h, unpack_half]
  rintro ⟨-, -, hlt⟩
  exact absurd hlt (by cases s <;> decide)

theorem not_lt_of_notANumber {x q : Float} (h : q.toModel.unpack = .notANumber) : ¬ x < q := by
  have hnan : q.isNaN = true := congrArg UnpackedFloat.isNaN h
  rw [lt_iff, hnan]
  rintro ⟨-, ⟨⟩, -⟩

theorem unpack_ofNat_zero : (Float.ofNat 0).toModel.unpack = .zero .positive := rfl

/-- No runs have no share of anything. -/
theorem not_half_lt_zero_div (runs : ℕ) : ¬ 0.5 < Float.ofNat 0 / Float.ofNat runs := by
  rcases runs.eq_zero_or_pos with rfl | hruns
  · exact not_lt_of_notANumber rfl
  have hden := nearest_ofNat hruns
  have hq := unpack_div (Float.ofNat 0) (Float.ofNat runs)
  rw [unpack_ofNat_zero] at hq
  cases hd : (Float.ofNat runs).toModel.unpack with
  | notANumber => rw [hd] at hden; cases hden
  | zero s =>
    rw [hd] at hq
    cases s <;> exact not_lt_of_notANumber hq
  | finite s m e hm =>
    rw [hd] at hq
    exact not_half_lt_of_zero (hq.trans (unpack_packComponents_zero _))
  | infinity s =>
    rw [hd] at hq
    exact not_half_lt_of_zero (hq.trans (unpack_packComponents_zero _))

/-- The share of `hits` in `runs` is above one half only if `hits` is more than half of `runs`. -/
theorem lt_two_mul_of_half_lt {hits runs : ℕ}
    (h : 0.5 < Float.ofNat hits / Float.ofNat runs) : runs < 2 * hits := by
  by_contra hge
  have hge : 2 * hits ≤ runs := by omega
  rcases hits.eq_zero_or_pos with rfl | hhits
  · exact not_half_lt_zero_div runs h
  have hone : (1 : ℚ) ≤ hits := by exact_mod_cast hhits
  have htwice : 2 * round hits ≤ round runs := by
    rw [← round_two_mul hone]
    exact round_mono (by linarith) (by exact_mod_cast hge)
  have hnum : 0 < round hits := zero_lt_one.trans_le (one_le_round hhits)
  have hden : 0 < round runs := by linarith
  rcases nearest_share hhits (show hits ≤ runs by omega) with hnear | ⟨-, hzero | hnan⟩
  · refine not_half_lt (div_pos hnum hden) ?_ hnear h
    rw [div_le_iff₀ hden]
    linarith
  · exact not_half_lt_of_zero hzero h
  · exact not_lt_of_notANumber hnan h

end Exploration.Double
