import Mathlib
import Exploration.Proofs.DoubleRounding

/-!
# The bits of a double

A finite number whose exponent is that of a double comes back from its bits, unless it is too great:
then infinity does (`unpack_pack_finite`). So each operation that rounds gives the double nearest to
its exact result (`nearest_of_rounded`).
-/

namespace Exploration.Double

open Float.Model (UnpackedFloat Format)
open Float.Model.UnpackedFloat

/-! ## Packing -/

variable {spec : Format}

theorem unpackSign_packComponents {s : Sign} {e m} :
    unpackSign (packComponents spec s e m) = s.toBitVec := by
  ext i hi
  obtain rfl : i = 0 := by omega
  simp [unpackSign, packComponents, BitVec.getLsbD_eq_getElem, BitVec.getLsbD_append,
    BitVec.getElem_append]

theorem ofBitVec_toBitVec (s : Sign) : Sign.ofBitVec s.toBitVec = s := by
  cases s <;> rfl

theorem zero_ne_neg_one {n : ℕ} (hn : 0 < n) : (0#n : BitVec n) ≠ -1#n := by
  intro h
  have hz := congrArg BitVec.toNat h
  rw [BitVec.neg_one_eq_allOnes, BitVec.toNat_allOnes, BitVec.toNat_ofNat, Nat.zero_mod] at hz
  have := Nat.one_lt_two_pow hn.ne'
  omega

theorem finite_congr {s : Sign} {m m' : ℕ} {e e' : ℤ} {hm : 0 < m} {hm' : 0 < m'} (h : m = m')
    (h' : e = e') : UnpackedFloat.finite s m e hm = .finite s m' e' hm' := by
  subst h h'
  rfl

theorem unpack_packComponents_special (s : Sign) (m : BitVec spec.mantissaBitsWithoutImplicit) :
    unpack spec (packComponents spec s (-1#_) m) =
      if m = 0#_ then .infinity s else .notANumber := by
  simp only [unpack, unpackMantissa_packComponents, unpackExponent_packComponents,
    unpackSign_packComponents, ofBitVec_toBitVec, if_true]

theorem unpack_packComponents_zero (s : Sign) :
    unpack spec (packComponents spec s 0#_ 0#_) = .zero s := by
  simp only [unpack, unpackMantissa_packComponents, unpackExponent_packComponents,
    unpackSign_packComponents, ofBitVec_toBitVec, if_neg (zero_ne_neg_one spec.he), if_true,
    dif_pos]

theorem unpack_packComponents_subnormal (s : Sign)
    {m : BitVec spec.mantissaBitsWithoutImplicit} (hm : 0 < m.toNat) :
    unpack spec (packComponents spec s 0#_ m) =
      .finite s m.toNat (1 - (spec.exponentBias + spec.mantissaBitsWithoutImplicit)) hm := by
  have hm' : m ≠ 0#_ := by
    rintro rfl
    simp at hm
  simp only [unpack, unpackMantissa_packComponents, unpackExponent_packComponents,
    unpackSign_packComponents, ofBitVec_toBitVec, if_neg (zero_ne_neg_one spec.he), if_true,
    dif_neg hm']
  refine finite_congr rfl ?_
  rw [BitVec.toNat_ofNat, Nat.zero_mod]
  omega

theorem unpack_packComponents_normal (s : Sign) {e : BitVec spec.exponentBits}
    {m : BitVec spec.mantissaBitsWithoutImplicit} (he : e ≠ -1#_) (he' : e ≠ 0#_) :
    unpack spec (packComponents spec s e m) = .finite s (1#1 ++ m).toNat
      (e.toNat - (spec.exponentBias + spec.mantissaBitsWithoutImplicit)) (by simp) := by
  simp only [unpack, unpackMantissa_packComponents, unpackExponent_packComponents,
    unpackSign_packComponents, ofBitVec_toBitVec, if_neg he, if_neg he']

theorem toNat_implicit_append {m : ℕ} (hle : 2 ^ 52 ≤ m) (hlt : m < 2 ^ 53) :
    (1#1 ++ BitVec.ofNat 52 m).toNat = m := by
  rw [BitVec.toNat_append, BitVec.toNat_ofNat, BitVec.toNat_ofNat,
    ← Nat.shiftLeft_add_eq_or_of_lt (Nat.mod_lt _ (by norm_num)), Nat.shiftLeft_eq]
  omega

theorem unpack_pack_finite (s : Sign) {m : ℕ} {e : ℤ} (hm : 0 < m) (h : Canonical m e) :
    unpack .binary64 (pack .binary64 (.finite s m e hm)) =
      if e ≤ 971 then .finite s m e hm else .infinity s := by
  obtain ⟨hlt, hleast, hfull⟩ := h
  have hbias : (Format.binary64.exponentBias : ℤ) = 1023 := rfl
  rw [pack]
  simp only [hbias, Nat.log2_eq_log_two]
  by_cases he : e ≤ 971
  · rw [if_pos he, if_neg (by omega)]
    by_cases hm' : 2 ^ 52 ≤ m
    · have hlog : Nat.log 2 m = 52 := (Nat.log_eq_iff (by norm_num)).2 ⟨hm', hlt⟩
      have hbiased : (BitVec.ofNat 11 (e + 1023 + 52).toNat).toNat = (e + 1023 + 52).toNat := by
        rw [BitVec.toNat_ofNat, Nat.mod_eq_of_lt (by omega)]
      rw [if_pos (by rw [hlog]; rfl), unpack_packComponents_normal]
      · refine finite_congr (toNat_implicit_append hm' hlt) ?_
        rw [hbias]
        show ((BitVec.ofNat 11 (e + 1023 + 52).toNat).toNat : ℤ) - (1023 + 52) = e
        rw [hbiased]
        omega
      · intro hspecial
        have hmax : (BitVec.ofNat 11 (e + 1023 + 52).toNat).toNat = 2047 :=
          congrArg BitVec.toNat hspecial
        omega
      · intro hzero
        have hmin : (BitVec.ofNat 11 (e + 1023 + 52).toNat).toNat = 0 :=
          congrArg BitVec.toNat hzero
        omega
    · have hlog : Nat.log 2 m < 52 := Nat.log_lt_of_lt_pow hm.ne' (by omega)
      have hbits : Nat.log 2 m + 1 ≠ Format.binary64.mantissaBits := by
        show Nat.log 2 m + 1 ≠ 53
        omega
      have hfits : (BitVec.ofNat 52 m).toNat = m := by
        rw [BitVec.toNat_ofNat, Nat.mod_eq_of_lt (by omega)]
      have he : e = -1074 := by omega
      subst he
      rw [if_neg hbits, unpack_packComponents_subnormal]
      · exact finite_congr hfits rfl
      · exact hm.trans_eq hfits.symm
  · rw [if_neg he, if_pos (by omega), packedInfinity, unpack_packComponents_special]
    exact if_pos rfl

theorem unpack_pack_zero (s : Sign) : unpack .binary64 (pack .binary64 (.zero s)) = .zero s :=
  unpack_packComponents_zero s

theorem unpack_pack_infinity (s : Sign) :
    unpack .binary64 (pack .binary64 (.infinity s)) = .infinity s := by
  cases s <;> rfl

theorem unpack_pack_notANumber : unpack .binary64 (pack .binary64 .notANumber) = .notANumber := rfl

/-- The double nearest to `x`, with sign `s`. -/
inductive Nearest (s : Sign) (x : ℚ) : UnpackedFloat → Prop
  | zero (h : round x = 0) : Nearest s x (.zero s)
  | finite {m : ℕ} {e : ℤ} (hm : 0 < m) (hc : Canonical m e) (he : e ≤ 971)
    (h : m * 2 ^ e = round x) : Nearest s x (.finite s m e hm)
  | infinity (h : 2 ^ (1024 : ℤ) ≤ round x) : Nearest s x (.infinity s)

theorem nearest_of_rounded {s : Sign} {x : ℚ} {u : UnpackedFloat} (h : Rounded s x u) :
    Nearest s x (unpack .binary64 (pack .binary64 u)) := by
  cases h with
  | zero h =>
    rw [unpack_pack_zero]
    exact .zero h
  | @finite m e hm hc h =>
    rw [unpack_pack_finite s hm hc]
    split_ifs with he
    · exact .finite hm hc he h
    · have hfull : 2 ^ 52 ≤ m := hc.full.resolve_left (by omega)
      refine .infinity ?_
      have hmantissa : (2 : ℚ) ^ (52 : ℤ) ≤ m := by exact_mod_cast hfull
      have hexponent : (2 : ℚ) ^ (972 : ℤ) ≤ 2 ^ e :=
        zpow_le_zpow_right₀ (by norm_num) (by omega)
      rw [← h, show (1024 : ℤ) = 52 + 972 by norm_num, zpow_add₀ (by norm_num)]
      exact mul_le_mul hmantissa hexponent (two_zpow_pos 972).le (Nat.cast_nonneg m)

end Exploration.Double
