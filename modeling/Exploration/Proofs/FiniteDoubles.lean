import Mathlib
import Exploration.Double
import Exploration.Proofs.DoubleShare

/-!
# Finite doubles

A double is unpacked into its parts (`parts_eq`), so it is finite just if what it unpacks to is.
A mean is finite just if the sum is (`isFinite_div_ofNat`), and what is capped at one unless it is
the infinity below zero (`isFinite_smaller_one`).
-/

namespace Exploration.Double

open Float.Model (UnpackedFloat Format)
open Float.Model.UnpackedFloat

/-! ## Parts -/

def Parts.ofUnpacked : UnpackedFloat → Parts
  | .notANumber => .nan
  | .infinity s => .infinite (s == .negative)
  | .zero s => .finite (s == .negative) 0 leastExponent
  | .finite s m e _ => .finite (s == .negative) m e

theorem toNat_unpackExponent (b : BitVec 64) :
    (@unpackExponent .binary64 b).toNat = b.toNat / 2 ^ 52 % 2 ^ 11 := by
  unfold unpackExponent
  rw [BitVec.toNat_cast, BitVec.extractLsb_toNat, Nat.shiftRight_eq_div_pow]
  rfl

theorem toNat_unpackMantissa (b : BitVec 64) :
    (@unpackMantissa .binary64 b).toNat = b.toNat % 2 ^ 52 := by
  unfold unpackMantissa
  rw [BitVec.toNat_cast, BitVec.extractLsb_toNat, Nat.shiftRight_zero]
  rfl

theorem toNat_unpackSign (b : BitVec 64) :
    (@unpackSign .binary64 b).toNat = b.toNat / 2 ^ 63 % 2 := by
  unfold unpackSign
  rw [BitVec.toNat_cast, BitVec.extractLsb_toNat, Nat.shiftRight_eq_div_pow]
  rfl

theorem negative_iff (b : BitVec 64) :
    (Sign.ofBitVec (@unpackSign .binary64 b) == .negative) =
      decide (Nat.pow 2 63 ≤ b.toNat) := by
  have hlt := b.isLt
  have hpow : Nat.pow 2 63 = 9223372036854775808 := rfl
  have hzero : @unpackSign .binary64 b = 0#1 ↔ b.toNat / 2 ^ 63 % 2 = 0 := by
    rw [← BitVec.toNat_inj, toNat_unpackSign]
    rfl
  rw [hpow, Sign.ofBitVec]
  split_ifs with h
  · rw [hzero] at h
    rw [decide_eq_false (by omega)]
    rfl
  · rw [hzero] at h
    rw [decide_eq_true (by omega)]
    rfl

theorem parts_eq (x : Float) : parts x = .ofUnpacked x.toModel.unpack := by
  obtain ⟨b, hb⟩ : ∃ b, b = x.toBits.toBitVec := ⟨_, rfl⟩
  have hnat : x.toBits.toNat = b.toNat := by rw [hb]; rfl
  have hunpack : x.toModel.unpack = unpack .binary64 b := by rw [hb]; rfl
  have hspecial : @unpackExponent .binary64 b = -1#11 ↔
      b.toNat / Nat.pow 2 52 % Nat.pow 2 11 = 2047 := by
    rw [← BitVec.toNat_inj, toNat_unpackExponent]
    rfl
  have hsmall : @unpackExponent .binary64 b = 0#11 ↔
      b.toNat / Nat.pow 2 52 % Nat.pow 2 11 = 0 := by
    rw [← BitVec.toNat_inj, toNat_unpackExponent]
    rfl
  have hmantissa : @unpackMantissa .binary64 b = 0#52 ↔ b.toNat % Nat.pow 2 52 = 0 := by
    rw [← BitVec.toNat_inj, toNat_unpackMantissa]
    rfl
  rw [hunpack, unpack]
  simp only [parts, hnat, ← hspecial, ← hsmall, ← hmantissa, ← negative_iff]
  have hbias : (Format.binary64.exponentBias : ℤ) = 1023 := rfl
  have hm : b.toNat % Nat.pow 2 52 = (@unpackMantissa .binary64 b).toNat :=
    (toNat_unpackMantissa b).symm
  have he : b.toNat / Nat.pow 2 52 % Nat.pow 2 11 = (@unpackExponent .binary64 b).toNat :=
    (toNat_unpackExponent b).symm
  by_cases h₁ : @unpackExponent .binary64 b = -1#11
  · rw [if_pos h₁, if_pos h₁]
    split_ifs <;> rfl
  rw [if_neg h₁, if_neg h₁, hm, he]
  by_cases h₂ : @unpackExponent .binary64 b = 0#11
  · rw [if_pos h₂, if_pos h₂]
    split_ifs with h₃
    · rw [h₃]
      rfl
    · refine congrArg _ ?_
      rw [h₂, hbias]
      rfl
  · rw [if_neg h₂, if_neg h₂]
    have hpos : (@unpackExponent .binary64 b).toNat ≠ 0 := fun h =>
      h₂ (BitVec.eq_of_toNat_eq h)
    refine congrArg₂ _ ?_ ?_
    · rw [BitVec.toNat_append, ← Nat.shiftLeft_add_eq_or_of_lt (BitVec.isLt _)]
      rfl
    · rw [hbias, leastExponent]
      omega

theorem isFinite_eq (x : Float) : isFinite x = x.toModel.unpack.isFinite := by
  rw [isFinite, parts_eq]
  cases x.toModel.unpack <;> rfl

theorem isNaN_of_isFinite {x : Float} (h : isFinite x = true) : x.isNaN = false := by
  rw [isFinite_eq] at h
  show x.toModel.unpack.isNaN = false
  cases hx : x.toModel.unpack <;> rw [hx] at h <;> first | rfl | cases h

theorem canonical_of_unpack {b : BitVec 64} {s : Sign} {m : ℕ} {e : ℤ} {hm : 0 < m}
    (h : unpack .binary64 b = .finite s m e hm) : Canonical m e ∧ e ≤ 971 := by
  have hbias : (Format.binary64.exponentBias : ℤ) = 1023 := rfl
  have hfraction : (@unpackMantissa .binary64 b).toNat < 2 ^ 52 := BitVec.isLt _
  have hbiased : (@unpackExponent .binary64 b).toNat < 2 ^ 11 := BitVec.isLt _
  rw [unpack] at h
  simp only at h
  split_ifs at h with h₁ _ h₂ _
  · obtain ⟨rfl, rfl, rfl⟩ := UnpackedFloat.finite.inj h
    rw [h₂, hbias]
    exact ⟨⟨by omega, le_rfl, Or.inl rfl⟩, by norm_num⟩
  · obtain ⟨rfl, rfl, rfl⟩ := UnpackedFloat.finite.inj h
    have hmantissa : (1#1 ++ @unpackMantissa .binary64 b).toNat =
        2 ^ 52 + (@unpackMantissa .binary64 b).toNat := by
      rw [BitVec.toNat_append, ← Nat.shiftLeft_add_eq_or_of_lt (BitVec.isLt _)]
      rfl
    have hzero : (@unpackExponent .binary64 b).toNat ≠ 0 := fun h =>
      h₂ (BitVec.eq_of_toNat_eq h)
    have htop : (@unpackExponent .binary64 b).toNat ≠ 2047 := fun h =>
      h₁ (BitVec.eq_of_toNat_eq h)
    rw [hmantissa, hbias]
    exact ⟨⟨by omega, by omega, Or.inr (by omega)⟩, by omega⟩

theorem Canonical.eq_of_value_eq {m m' : ℕ} {e e' : ℤ} (h : Canonical m e) (hm : 0 < m)
    (hm' : 0 < m') (h' : Canonical m' e') (heq : (m * 2 ^ e : ℚ) = m' * 2 ^ e') :
    m = m' ∧ e = e' := by
  have hkey := le_antisymm (key_le_of_le hm hm' h h' heq.le) (key_le_of_le hm' hm h' h heq.ge)
  simp only [key, EmbeddingLike.apply_eq_iff_eq, Prod.mk.injEq] at hkey
  exact ⟨by exact_mod_cast hkey.2.2, hkey.2.1⟩

theorem parts_of_isFinite {x : Float} (h : isFinite x = true) :
    ∃ negative m e, parts x = .finite negative m e := by
  unfold isFinite at h
  split at h
  · exact ⟨_, _, _, ‹_›⟩
  · cases h

theorem canonical_of_parts {x : Float} {negative : Bool} {m : ℕ} {e : ℤ}
    (h : parts x = .finite negative m e) :
    m = 0 ∧ e = leastExponent ∨ 0 < m ∧ Canonical m e ∧ e ≤ 971 := by
  rw [parts_eq] at h
  cases hx : x.toModel.unpack with
  | notANumber => rw [hx] at h; cases h
  | infinity s => rw [hx] at h; cases h
  | zero s =>
    rw [hx] at h
    cases h
    exact Or.inl ⟨rfl, rfl⟩
  | finite s m e hm =>
    rw [hx] at h
    cases h
    exact Or.inr ⟨hm, canonical_of_unpack hx⟩

/-- The bits behind the sign count the doubles from zero on. -/
theorem toNat_of_parts {x : Float} {negative : Bool} {m : ℕ} {e : ℤ}
    (h : parts x = .finite negative m e) :
    x.toBits.toNat = (if negative then 2 ^ 63 else 0) + ((e + 1074).toNat * 2 ^ 52 + m) := by
  have hlt := x.toBits.toNat_lt
  unfold parts leastExponent at h
  simp only [show Nat.pow 2 63 = 9223372036854775808 from rfl,
    show Nat.pow 2 52 = 4503599627370496 from rfl, show Nat.pow 2 11 = 2048 from rfl] at h
  generalize x.toBits.toNat = bits at *
  have hsign : (if decide (9223372036854775808 ≤ bits) = true then 2 ^ 63 else 0) =
      bits / 2 ^ 63 * 2 ^ 63 := by
    by_cases hle : 9223372036854775808 ≤ bits
    · rw [decide_eq_true hle, if_pos rfl]
      omega
    · rw [decide_eq_false hle, if_neg Bool.false_ne_true]
      omega
  split_ifs at h with hspecial hinfinite hsmall
  · -- no bit of the exponent is set
    obtain ⟨rfl, rfl, rfl⟩ := Parts.finite.inj h
    rw [hsign]
    omega
  · -- the leading bit of the mantissa counts for one in the exponent
    obtain ⟨rfl, rfl, rfl⟩ := Parts.finite.inj h
    rw [hsign]
    omega

/-- A finite double is determined by its parts. -/
theorem eq_of_parts {x y : Float} {negative : Bool} {m : ℕ} {e : ℤ}
    (hx : parts x = .finite negative m e) (hy : parts y = .finite negative m e) : x = y := by
  have hbits : x.toModel.toBits = y.toModel.toBits :=
    UInt64.toNat_inj.1 ((toNat_of_parts hx).trans (toNat_of_parts hy).symm)
  obtain ⟨⟨_, _⟩⟩ := x
  obtain ⟨⟨_, _⟩⟩ := y
  cases hbits
  rfl

/-! ## Results that are finite -/

theorem isFinite_of_nearest {s : Sign} {x : ℚ} {u : UnpackedFloat} (h : Nearest s x u)
    (hx : round x < 2 ^ (1024 : ℤ)) : u.isFinite = true := by
  cases h with
  | zero => rfl
  | finite => rfl
  | infinity h => exact absurd h hx.not_ge

/-- A mean is finite just if the sum is. -/
theorem isFinite_div_ofNat (x : Float) {n : ℕ} (hn : 0 < n) :
    isFinite (x / Float.ofNat n) = isFinite x := by
  have hden := nearest_ofNat hn
  rw [isFinite_eq, isFinite_eq, unpack_div]
  generalize (Float.ofNat n).toModel.unpack = v at hden ⊢
  cases hden with
  | zero h => exact absurd h (zero_lt_one.trans_le (one_le_round hn)).ne'
  | @finite m' e' hm' hc' he' h' =>
    cases hx : x.toModel.unpack with
    | notANumber => rw [div, unpack_pack_notANumber]
    | infinity s => rw [div, unpack_pack_infinity]; rfl
    | zero s => rw [div, unpack_pack_zero]; rfl
    | finite s m e hm =>
      obtain ⟨hc, he⟩ := canonical_of_unpack hx
      have hone : (1 : ℚ) ≤ m' * 2 ^ e' := h' ▸ one_le_round hn
      refine isFinite_of_nearest (nearest_of_rounded (rounded_div hm hm')) ?_
      have hpos : (0 : ℚ) < m * 2 ^ e := mul_pos (Nat.cast_pos.2 hm) (two_zpow_pos e)
      exact round_lt_top (div_pos hpos (by linarith)) hc he (div_le_self hpos.le hone)
  | infinity =>
    cases x.toModel.unpack with
    | notANumber => rw [div, unpack_pack_notANumber]
    | infinity s => rw [div, unpack_pack_notANumber]; rfl
    | zero s => rw [div, unpack_pack_zero]; rfl
    | finite s m e hm => rw [div, unpack_pack_zero]; rfl

theorem isFinite_ofNat {n : ℕ} (h : n < 2 ^ 128) : isFinite (Float.ofNat n) = true := by
  rcases n.eq_zero_or_pos with rfl | hn
  · rfl
  · rw [isFinite_eq]
    exact isFinite_of_nearest (nearest_ofNat hn) (round_natCast_lt h)

theorem isFinite_neg (x : Float) : isFinite (-x) = isFinite x := by
  rw [isFinite_eq, isFinite_eq, unpack_neg]
  cases hx : x.toModel.unpack with
  | notANumber => rw [neg, unpack_pack_notANumber]
  | infinity s => rw [neg, unpack_pack_infinity]; rfl
  | zero s => rw [neg, unpack_pack_zero]; rfl
  | finite s m e hm =>
    obtain ⟨hc, he⟩ := canonical_of_unpack hx
    rw [neg, unpack_pack_finite _ hm hc, if_pos he]
    rfl

/-- A share that is a number at all is finite. -/
theorem isFinite_share {a b : ℕ} (hab : a ≤ b)
    (hnan : (Float.ofNat a / Float.ofNat b).isNaN = false) :
    isFinite (Float.ofNat a / Float.ofNat b) = true := by
  rcases a.eq_zero_or_pos with rfl | ha
  · rcases b.eq_zero_or_pos with rfl | hb
    · cases hnan
    · rw [isFinite_div_ofNat _ hb]
      rfl
  have hle : round a ≤ round b := round_mono (by exact_mod_cast ha) (by exact_mod_cast hab)
  have hpos : 0 < round a := zero_lt_one.trans_le (one_le_round ha)
  rw [isFinite_eq]
  rcases nearest_share ha hab with hnear | ⟨-, hzero | hnot⟩
  · refine isFinite_of_nearest hnear (round_lt_top (div_pos hpos (hpos.trans_le hle))
      (m := 2 ^ 52) (e := -52) ⟨by norm_num, by norm_num, Or.inr le_rfl⟩ (by norm_num) ?_)
    rw [div_le_iff₀ (hpos.trans_le hle)]
    norm_num
    exact hle
  · rw [hzero]
    rfl
  · have hnan' : (Float.ofNat a / Float.ofNat b).isNaN = true := congrArg UnpackedFloat.isNaN hnot
    rw [hnan'] at hnan
    cases hnan

theorem isFinite_one : isFinite 1 = true := rfl

theorem isFinite_smaller {x y : Float} (hx : isFinite x = true) (hy : isFinite y = true) :
    isFinite (smaller x y) = true := by
  unfold smaller
  split_ifs <;> assumption

/-- What is capped at one is finite unless it is the infinity below zero. -/
theorem isFinite_smaller_one (x : Float) :
    isFinite (smaller x 1) = true ↔ parts x ≠ .infinite true := by
  have hone : (1 : Float).toModel.unpack = .finite .positive (2 ^ 52) (-52) (by decide) := rfl
  have hnan : ¬ (1 : Float).isNaN = true := Bool.false_ne_true
  rw [parts_eq]
  cases hx : x.toModel.unpack with
  | notANumber =>
    rw [smaller, if_pos (show x.isNaN = true from congrArg UnpackedFloat.isNaN hx)]
    exact iff_of_true isFinite_one nofun
  | infinity s =>
    have hnan' : x.isNaN = false := congrArg UnpackedFloat.isNaN hx
    rw [smaller, if_neg (hnan' ▸ Bool.false_ne_true), if_neg hnan]
    cases s with
    | negative =>
      have hlow : ¬ 1 < x := by
        rw [lt_iff, hx, hone]
        exact fun h => absurd h.2.2 (by decide)
      rw [if_neg hlow, isFinite_eq, hx]
      exact iff_of_false Bool.false_ne_true fun h => h rfl
    | positive =>
      have hhigh : 1 < x := by
        rw [lt_iff, hx, hone]
        exact ⟨rfl, hnan', by decide⟩
      rw [if_pos hhigh]
      exact iff_of_true isFinite_one (by decide)
  | zero s =>
    exact iff_of_true (isFinite_smaller (by rw [isFinite_eq, hx]; rfl) isFinite_one) nofun
  | finite s m e hm =>
    exact iff_of_true (isFinite_smaller (by rw [isFinite_eq, hx]; rfl) isFinite_one) nofun

end Exploration.Double
