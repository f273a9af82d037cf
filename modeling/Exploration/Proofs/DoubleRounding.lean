import Mathlib
import Exploration.Proofs.Rounding

/-!
# The rounding of doubles

The operations on doubles round a mantissa and what is known of the digits behind it. This gives the
double nearest to the exact result (`rounded_roundWithAccuracy`), infinity if there is none.
-/

namespace Exploration.Double

open Float.Model Float.Model.UnpackedFloat

/-! ## Mantissas -/

/-- The mantissa is all of `q` before the point, and the two bits say what is behind it. -/
structure Truncates (em : ExtendedMantissa) (q : ℚ) : Prop where
  nonneg : 0 ≤ q
  mantissa : em.mantissa = ⌊q⌋₊
  roundBit : em.roundBit = true ↔ 1 / 2 ≤ Int.fract q
  stickyBit : em.stickyBit = true ↔ Int.fract q ≠ 0 ∧ Int.fract q ≠ 1 / 2

theorem fract_half {q : ℚ} (hq : 0 ≤ q) :
    Int.fract (q / 2) = ((⌊q⌋₊ % 2 : ℕ) + Int.fract q) / 2 := by
  rw [Int.fract, Int.fract, ← natCast_floor_eq_intCast_floor hq,
    ← natCast_floor_eq_intCast_floor (div_nonneg hq zero_le_two), Nat.floor_div_ofNat]
  have h : (2 * (⌊q⌋₊ / 2 : ℕ) + (⌊q⌋₊ % 2 : ℕ) : ℚ) = ⌊q⌋₊ := by
    exact_mod_cast Nat.div_add_mod ⌊q⌋₊ 2
  rw [← h]
  ring

theorem Truncates.shiftRightOne {em : ExtendedMantissa} {q : ℚ} (h : Truncates em q) :
    Truncates em.shiftRightOne (q / 2) := by
  have hf := Int.fract_nonneg q
  have hf' := Int.fract_lt_one q
  have hbits : (em.roundBit || em.stickyBit) = true ↔ Int.fract q ≠ 0 := by
    rw [Bool.or_eq_true, h.roundBit, h.stickyBit]
    refine ⟨?_, fun hne => ?_⟩
    · rintro (hle | ⟨hne, -⟩)
      · linarith
      · exact hne
    · by_cases hhalf : Int.fract q = 1 / 2
      · exact Or.inl hhalf.ge
      · exact Or.inr ⟨hne, hhalf⟩
  refine ⟨div_nonneg h.nonneg zero_le_two, ?_, ?_, ?_⟩
  · rw [ExtendedMantissa.shiftRightOne, h.mantissa, Nat.floor_div_ofNat]
  · rw [ExtendedMantissa.shiftRightOne, h.mantissa, fract_half h.nonneg]
    rcases Nat.mod_two_eq_zero_or_one ⌊q⌋₊ with hm | hm
    · simp only [hm]
      norm_num
      linarith
    · simp only [hm]
      norm_num
      linarith
  · rw [ExtendedMantissa.shiftRightOne, hbits, fract_half h.nonneg]
    rcases Nat.mod_two_eq_zero_or_one ⌊q⌋₊ with hm | hm
    · rw [hm, Nat.cast_zero, zero_add]
      refine ⟨fun hne => ⟨by positivity, by linarith⟩, fun hne hzero => hne.1 ?_⟩
      rw [hzero, zero_div]
    · rw [hm, Nat.cast_one]
      have hpos : 0 < (1 + Int.fract q) / 2 := by linarith
      refine ⟨fun hne => ⟨hpos.ne', fun heq => hne (by linarith)⟩, fun hne hzero => hne.2 ?_⟩
      rw [hzero, add_zero]

theorem Truncates.shiftRight {em : ExtendedMantissa} {q : ℚ} (h : Truncates em q) :
    ∀ n : ℕ, Truncates (em >>> n) (q / 2 ^ n)
  | 0 => by
    rw [pow_zero, div_one]
    exact h
  | n + 1 => by
    rw [pow_succ, ← div_div]
    exact (h.shiftRight n).shiftRightOne

theorem Truncates.roundedMantissa {em : ExtendedMantissa} {q : ℚ} (h : Truncates em q) :
    em.roundedMantissa = roundEven q := by
  obtain ⟨m, round, sticky⟩ := em
  obtain ⟨-, rfl, hround, hsticky⟩ := h
  unfold roundEven
  cases round with
  | false =>
    have hlt : Int.fract q < 1 / 2 := not_le.1 fun hle => Bool.false_ne_true (hround.2 hle)
    rw [if_pos hlt]
    cases sticky <;> rfl
  | true =>
    have hle : 1 / 2 ≤ Int.fract q := hround.1 rfl
    rw [if_neg hle.not_gt]
    cases sticky with
    | false =>
      have heq : Int.fract q = 1 / 2 := by
        by_contra hne
        exact Bool.false_ne_true (hsticky.2 ⟨by linarith, hne⟩)
      rw [if_pos heq]
      rfl
    | true =>
      rw [if_neg (hsticky.1 rfl).2]
      rfl

/-! ## Rounding -/

theorem targetExponent_eq (t : ℤ) :
    Format.binary64.targetExponent t = max (t - 53) (-1074) := rfl

theorem totalExponent_eq (m : ℕ) (e : ℤ) : totalExponent m e = Nat.log 2 m + 1 + e := by
  rw [totalExponent, Nat.log2_eq_log_two]

/-- The place of a number is that of its mantissa. -/
theorem place_eq {q : ℚ} (hq : 0 < q) {e : ℤ}
    (he : e ≤ max ((Nat.log 2 ⌊q⌋₊ + 1 + e : ℤ) - 53) (-1074)) :
    place (q * 2 ^ e) = max ((Nat.log 2 ⌊q⌋₊ + 1 + e : ℤ) - 53) (-1074) := by
  rw [place, log_mul_two_zpow hq]
  rcases le_or_gt 1 q with hone | hone
  · rw [Int.log_of_one_le_right 2 hone]
    congr 1
    ring
  · have hfloor : ⌊q⌋₊ = 0 := Nat.floor_eq_zero.2 hone
    have hlog : Int.log 2 q < 0 := by
      rw [← Int.lt_zpow_iff_log_lt (by norm_num) hq]
      simpa using hone
    rw [hfloor, Nat.log_zero_right] at he ⊢
    omega

/-- A rounded mantissa is shifted once more if it takes too many bits. -/
theorem canonical_shift {r : ℕ} {t : ℤ} (hle : r ≤ 2 ^ 53) (hleast : -1074 ≤ t)
    (hfull : t = -1074 ∨ 2 ^ 52 ≤ r) :
    Canonical (shiftToTargetExponent .binary64 r t .exact).1.mantissa
        (shiftToTargetExponent .binary64 r t .exact).2 ∧
      ((shiftToTargetExponent .binary64 r t .exact).1.mantissa : ℚ) *
        2 ^ (shiftToTargetExponent .binary64 r t .exact).2 = r * 2 ^ t := by
  simp only [shiftToTargetExponent, targetExponent_eq, totalExponent_eq, shiftToExponent]
  rcases hle.lt_or_eq with hlt | rfl
  · have hlog : Nat.log 2 r < 53 := Nat.log_lt_of_lt_pow' (by norm_num) hlt
    have hshift : (max ((Nat.log 2 r + 1 + t : ℤ) - 53) (-1074) - t).toNat = 0 := by omega
    rw [hshift, Nat.cast_zero, add_zero]
    exact ⟨⟨hlt, hleast, hfull⟩, rfl⟩
  · have hlog : Nat.log 2 (2 ^ 53) = 53 := Nat.log_pow (by norm_num) 53
    have hshift : (max ((Nat.log 2 (2 ^ 53) + 1 + t : ℤ) - 53) (-1074) - t).toNat = 1 := by omega
    rw [hshift]
    refine ⟨⟨by decide, by omega, Or.inr le_rfl⟩, ?_⟩
    show ((2 ^ 52 : ℕ) : ℚ) * 2 ^ (t + (1 : ℕ)) = (2 ^ 53 : ℕ) * 2 ^ t
    rw [Nat.cast_one, zpow_add_one₀ (by norm_num)]
    push_cast
    ring

/-- The double that stands for `x` with sign `s`, without the greatest one. -/
inductive Rounded (s : Sign) (x : ℚ) : UnpackedFloat → Prop
  | zero (h : round x = 0) : Rounded s x (.zero s)
  | finite {m : ℕ} {e : ℤ} (hm : 0 < m) (hc : Canonical m e) (h : m * 2 ^ e = round x) :
    Rounded s x (.finite s m e hm)

/-- The first shift of a mantissa leaves what is rounded. -/
theorem roundedMantissa_shift {m : ℕ} {e t : ℤ} {acc : Accuracy} {q : ℚ}
    (h : Truncates (.ofMantissaAndAccuracy m acc) q)
    (ht : t = max ((Nat.log 2 m + 1 + e : ℤ) - 53) (-1074)) (he : e ≤ t) :
    (shiftToTargetExponent .binary64 m e acc).1.roundedMantissa = roundEven (q * 2 ^ e / 2 ^ t) ∧
      (shiftToTargetExponent .binary64 m e acc).2 = t := by
  simp only [shiftToTargetExponent, targetExponent_eq, totalExponent_eq, shiftToExponent, ← ht]
  obtain ⟨d, rfl⟩ : ∃ d : ℕ, t = e + d := ⟨(t - e).toNat, by omega⟩
  rw [add_sub_cancel_left, Int.toNat_natCast]
  refine ⟨?_, rfl⟩
  rw [(h.shiftRight d).roundedMantissa, zpow_add₀ (by norm_num), zpow_natCast, mul_comm q,
    mul_div_mul_left _ _ (two_zpow_pos e).ne']

theorem rounded_roundWithAccuracy (s : Sign) {m : ℕ} {e : ℤ} {acc : Accuracy} {q : ℚ}
    (h : Truncates (.ofMantissaAndAccuracy m acc) q)
    (he : e ≤ max ((Nat.log 2 m + 1 + e : ℤ) - 53) (-1074)) :
    Rounded s (q * 2 ^ e) (roundWithAccuracy .binary64 s m e acc) := by
  have hm : m = ⌊q⌋₊ := by
    have := h.mantissa
    rcases acc with _ | _ | _ | _ <;> exact this
  obtain ⟨t, ht⟩ : ∃ t, t = max ((Nat.log 2 m + 1 + e : ℤ) - 53) (-1074) := ⟨_, rfl⟩
  rw [← ht] at he
  obtain ⟨r, hr⟩ : ∃ r, r = roundEven (q * 2 ^ e / 2 ^ t) := ⟨_, rfl⟩
  have hbounds : r ≤ 2 ^ 53 ∧ (t = -1074 ∨ 2 ^ 52 ≤ r) ∧ r * 2 ^ t = round (q * 2 ^ e) := by
    rcases h.nonneg.eq_or_lt with hzero | hq
    · have hleast : t = -1074 := by
        rw [hm, ← hzero, Nat.floor_zero, Nat.log_zero_right] at ht
        omega
      rw [← hzero, zero_mul, zero_div, roundEven_zero] at hr
      rw [hr, ← hzero, zero_mul, round_zero]
      exact ⟨Nat.zero_le _, Or.inl hleast, by simp⟩
    · have hplace : place (q * 2 ^ e) = t := by
        rw [place_eq hq (by rwa [← hm, ← ht]), ← hm, ← ht]
      have hx : 0 < q * 2 ^ e := mul_pos hq (two_zpow_pos e)
      rw [hr, ← hplace]
      exact ⟨roundEven_le hx, or_iff_not_imp_left.2 (le_roundEven hx), rfl⟩
  obtain ⟨hle, hfull, hround⟩ := hbounds
  obtain ⟨hrounded, hexponent⟩ := roundedMantissa_shift h ht he
  obtain ⟨hcanonical, hvalue⟩ := canonical_shift hle (by omega) hfull
  rw [hround] at hvalue
  simp only [roundWithAccuracy, hrounded, hexponent, ← hr]
  split_ifs with hz
  · rw [hz, Nat.cast_zero, zero_mul] at hvalue
    exact .zero hvalue.symm
  · exact .finite _ hcanonical hvalue

end Exploration.Double
