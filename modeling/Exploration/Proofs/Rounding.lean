import Mathlib

/-!
# Rounding to doubles

The finite doubles are the numbers `m * 2 ^ e` with `m` below `2 ^ 53` and `e` from -1074 on, as
long as they are below `2 ^ 1024`. A positive rational is rounded at the place that leaves 53 bits,
but at none below -1074 (`place`). Rounding keeps the order (`round_mono`) and what is a double
already (`round_of_lt`).
-/

namespace Exploration.Double

/-- The natural number nearest to a rational, the even one of two. -/
def roundEven (q : ℚ) : ℕ :=
  if Int.fract q < 1 / 2 then ⌊q⌋₊
  else if Int.fract q = 1 / 2 then ⌊q⌋₊ + ⌊q⌋₊ % 2
  else ⌊q⌋₊ + 1

theorem roundEven_le_succ (q : ℚ) : roundEven q ≤ ⌊q⌋₊ + 1 := by
  unfold roundEven
  split_ifs <;> omega

theorem floor_le_roundEven (q : ℚ) : ⌊q⌋₊ ≤ roundEven q := by
  unfold roundEven
  split_ifs <;> omega

theorem roundEven_mono {p q : ℚ} (hp : 0 ≤ p) (h : p ≤ q) : roundEven p ≤ roundEven q := by
  rcases (Nat.floor_mono h).lt_or_eq with hlt | heq
  · exact (roundEven_le_succ p).trans (Nat.succ_le_of_lt hlt |>.trans (floor_le_roundEven q))
  · have hfract : Int.fract p ≤ Int.fract q := by
      rw [Int.fract, Int.fract, ← natCast_floor_eq_intCast_floor hp,
        ← natCast_floor_eq_intCast_floor (hp.trans h), heq]
      linarith
    rcases lt_trichotomy (Int.fract q) (1 / 2) with hq | hq | hq
    · rw [roundEven, roundEven, if_pos (hfract.trans_lt hq), if_pos hq, heq]
    · rw [roundEven, roundEven, if_neg hq.not_lt, if_pos hq, heq]
      rcases (hfract.trans_eq hq).lt_or_eq with hp' | hp'
      · rw [if_pos hp']
        exact Nat.le_add_right _ _
      · rw [if_neg hp'.not_lt, if_pos hp']
    · have hq' : roundEven q = ⌊q⌋₊ + 1 := by rw [roundEven, if_neg hq.not_gt, if_neg hq.ne']
      rw [hq', ← heq]
      exact roundEven_le_succ p

theorem roundEven_natCast (n : ℕ) : roundEven n = n := by
  unfold roundEven
  rw [Int.fract_natCast, Nat.floor_natCast, if_pos (by norm_num)]

theorem roundEven_zero : roundEven 0 = 0 := roundEven_natCast 0

/-- What is at most half away from a natural number is rounded to it; of an odd one it has to be
less. -/
theorem roundEven_eq {q : ℚ} {n : ℕ} (hq : 0 ≤ q) (hlow : n - 1 / 2 ≤ q) (hhigh : q ≤ n + 1 / 2)
    (hodd : n % 2 = 1 → n - 1 / 2 < q ∧ q < n + 1 / 2) : roundEven q = n := by
  unfold roundEven
  rcases lt_or_ge q n with hlt | hge
  · obtain ⟨k, rfl⟩ : ∃ k, n = k + 1 := by
      refine ⟨n - 1, ?_⟩
      have : (0 : ℚ) < n := hq.trans_lt hlt
      have : 0 < n := by exact_mod_cast this
      omega
    push_cast at hlow hhigh hlt hodd
    have hfloor : ⌊q⌋₊ = k := (Nat.floor_eq_iff hq).2 ⟨by linarith, by linarith⟩
    have hfract : Int.fract q = q - k := by
      rw [Int.fract, ← natCast_floor_eq_intCast_floor hq, hfloor]
    rw [hfloor, hfract, if_neg (by linarith)]
    split_ifs with hhalf
    · have heven : (k + 1) % 2 ≠ 1 := fun h => by
        have := (hodd h).1
        linarith
      omega
    · rfl
  · have hfloor : ⌊q⌋₊ = n := (Nat.floor_eq_iff hq).2 ⟨hge, by linarith⟩
    have hfract : Int.fract q = q - n := by
      rw [Int.fract, ← natCast_floor_eq_intCast_floor hq, hfloor]
    rw [hfloor, hfract]
    split_ifs with hhalf hhalf'
    · rfl
    · have heven : n % 2 ≠ 1 := fun h => by
        have := (hodd h).2
        linarith
      omega
    · exact absurd (le_antisymm (by linarith) (not_lt.1 hhalf)) hhalf'

/-- The place at which a positive rational is rounded. -/
def place (x : ℚ) : ℤ := max (Int.log 2 x - 52) (-1074)

/-- The double nearest to a positive rational, if there were no greatest one. -/
def round (x : ℚ) : ℚ := roundEven (x / 2 ^ place x) * 2 ^ place x

theorem round_zero : round 0 = 0 := by
  rw [round, zero_div, roundEven_zero, Nat.cast_zero, zero_mul]

theorem two_zpow_pos (e : ℤ) : (0 : ℚ) < 2 ^ e := zpow_pos (by norm_num) e

/-- A multiple of a power of two is one of a smaller power of two. -/
theorem natCast_mul_zpow {e k : ℤ} (h : e ≤ k) (c : ℕ) :
    (c : ℚ) * 2 ^ k = (c * 2 ^ (k - e).toNat : ℕ) * 2 ^ e := by
  obtain ⟨d, rfl⟩ : ∃ d : ℕ, k = e + d := ⟨(k - e).toNat, by omega⟩
  rw [add_sub_cancel_left, Int.toNat_natCast, zpow_add₀ (by norm_num), zpow_natCast]
  push_cast
  ring

/-- No multiple of a power of two at or above the place is passed. -/
theorem round_le {x : ℚ} (hx : 0 ≤ x) {c : ℕ} {k : ℤ} (hk : place x ≤ k) (h : x ≤ c * 2 ^ k) :
    round x ≤ c * 2 ^ k := by
  rw [natCast_mul_zpow hk] at h ⊢
  have hpos := two_zpow_pos (place x)
  have hle := roundEven_mono (div_nonneg hx hpos.le) ((div_le_iff₀ hpos).2 h)
  rw [roundEven_natCast] at hle
  exact mul_le_mul_of_nonneg_right (Nat.cast_le.2 hle) hpos.le

theorem le_round {x : ℚ} {c : ℕ} {k : ℤ} (hk : place x ≤ k) (h : c * 2 ^ k ≤ x) :
    c * 2 ^ k ≤ round x := by
  rw [natCast_mul_zpow hk] at h ⊢
  have hpos := two_zpow_pos (place x)
  have hle := roundEven_mono (Nat.cast_nonneg _) ((le_div_iff₀ hpos).2 h)
  rw [roundEven_natCast] at hle
  exact mul_le_mul_of_nonneg_right (Nat.cast_le.2 hle) hpos.le

/-- At the place of a number at most 53 bits are left. -/
theorem roundEven_le {x : ℚ} (hx : 0 < x) : roundEven (x / 2 ^ place x) ≤ 2 ^ 53 := by
  have hhigh := Int.lt_zpow_succ_log_self (b := 2) (by norm_num) x
  have hplace : Int.log 2 x + 1 ≤ 53 + place x := by
    unfold place
    omega
  have hle : x ≤ 2 ^ (53 : ℤ) * 2 ^ place x := by
    rw [← zpow_add₀ (by norm_num)]
    push_cast at hhigh
    exact hhigh.le.trans (zpow_le_zpow_right₀ (by norm_num) hplace)
  have hpos := two_zpow_pos (place x)
  have hmono := roundEven_mono (div_nonneg hx.le hpos.le) ((div_le_iff₀ hpos).2 hle)
  rwa [show (2 : ℚ) ^ (53 : ℤ) = (2 ^ 53 : ℕ) by norm_num, roundEven_natCast] at hmono

theorem le_roundEven {x : ℚ} (hx : 0 < x) (h : place x ≠ -1074) :
    2 ^ 52 ≤ roundEven (x / 2 ^ place x) := by
  have hlow := Int.zpow_log_le_self (b := 2) (by norm_num) hx
  have hplace : 52 + place x = Int.log 2 x := by
    unfold place at h ⊢
    omega
  have hle : 2 ^ (52 : ℤ) * 2 ^ place x ≤ x := by
    rw [← zpow_add₀ (by norm_num), hplace]
    exact_mod_cast hlow
  have hmono := roundEven_mono (by positivity) ((le_div_iff₀ (two_zpow_pos (place x))).2 hle)
  rwa [show (2 : ℚ) ^ (52 : ℤ) = (2 ^ 52 : ℕ) by norm_num, roundEven_natCast] at hmono

theorem place_mono {x y : ℚ} (hx : 0 < x) (h : x ≤ y) : place x ≤ place y :=
  max_le_max_right _ (sub_le_sub_right (Int.log_mono_right hx h) 52)

theorem place_eq_of_le {x : ℚ} {e : ℤ} (hx : 0 < x) (hlow : e = -1074 ∨ 2 ^ (52 + e) ≤ x)
    (hhigh : x < 2 ^ (53 + e)) (he : -1074 ≤ e) : place x = e := by
  have hlt : Int.log 2 x < 53 + e := by
    rw [← Int.lt_zpow_iff_log_lt (by norm_num) hx]
    exact_mod_cast hhigh
  unfold place
  rcases hlow with rfl | hlow
  · omega
  · have hle : 52 + e ≤ Int.log 2 x := by
      rw [← Int.zpow_le_iff_le_log (by norm_num) hx]
      exact_mod_cast hlow
    omega

theorem round_mono {x y : ℚ} (hx : 0 < x) (h : x ≤ y) : round x ≤ round y := by
  rcases (place_mono hx h).eq_or_lt with heq | hlt
  · unfold round
    rw [← heq]
    have hpos := two_zpow_pos (place x)
    refine mul_le_mul_of_nonneg_right (Nat.cast_le.2 ?_) hpos.le
    exact roundEven_mono (div_nonneg hx.le hpos.le) (div_le_div_of_nonneg_right h hpos.le)
  · -- a power of two is between them
    have hy := hx.trans_le h
    have hplace : place y = Int.log 2 y - 52 := by
      unfold place at hlt ⊢
      omega
    have hlog : Int.log 2 x + 1 ≤ Int.log 2 y := by
      unfold place at hlt
      omega
    have hxlt : x < (2 : ℚ) ^ (Int.log 2 x + 1) := by
      exact_mod_cast Int.lt_zpow_succ_log_self (b := 2) (by norm_num) x
    have hyle : (2 : ℚ) ^ Int.log 2 y ≤ y := by
      exact_mod_cast Int.zpow_log_le_self (b := 2) (by norm_num) hy
    have hmid : (2 : ℚ) ^ (Int.log 2 x + 1) ≤ 2 ^ Int.log 2 y :=
      zpow_le_zpow_right₀ (by norm_num) hlog
    calc round x ≤ (1 : ℕ) * 2 ^ Int.log 2 y := by
          refine round_le hx.le (by omega) ?_
          rw [Nat.cast_one, one_mul]
          exact hxlt.le.trans hmid
      _ ≤ round y := by
          refine le_round (by omega) ?_
          rw [Nat.cast_one, one_mul]
          exact hyle

/-- The doubles with their mantissas and exponents, without the greatest one. -/
structure Canonical (m : ℕ) (e : ℤ) : Prop where
  lt : m < 2 ^ 53
  least : -1074 ≤ e
  full : e = -1074 ∨ 2 ^ 52 ≤ m

theorem log_mul_two_zpow {x : ℚ} (hx : 0 < x) (e : ℤ) :
    Int.log 2 (x * 2 ^ e) = Int.log 2 x + e := by
  have hpos := two_zpow_pos e
  have hlow := Int.zpow_log_le_self (b := 2) (by norm_num) hx
  have hhigh := Int.lt_zpow_succ_log_self (b := 2) (by norm_num) x
  push_cast at hlow hhigh
  refine le_antisymm (Int.lt_add_one_iff.1 ?_) ?_
  · rw [← Int.lt_zpow_iff_log_lt (by norm_num) (mul_pos hx hpos)]
    push_cast
    rw [add_right_comm, zpow_add₀ (by norm_num)]
    exact mul_lt_mul_of_pos_right hhigh hpos
  · rw [← Int.zpow_le_iff_le_log (by norm_num) (mul_pos hx hpos)]
    push_cast
    rw [zpow_add₀ (by norm_num)]
    exact mul_le_mul_of_nonneg_right hlow hpos.le

/-- A multiple of a power of two is rounded to itself if it has at most 53 bits. -/
theorem round_of_lt {m : ℕ} {e : ℤ} (hlt : m < 2 ^ 53) (hle : -1074 ≤ e) :
    round (m * 2 ^ e) = m * 2 ^ e := by
  rcases m.eq_zero_or_pos with rfl | hm
  · rw [Nat.cast_zero, zero_mul, round_zero]
  have hlog : Nat.log 2 m < 53 := Nat.log_lt_of_lt_pow hm.ne' hlt
  have hplace : place (m * 2 ^ e) ≤ e := by
    unfold place
    rw [log_mul_two_zpow (Nat.cast_pos.2 hm), Int.log_natCast]
    omega
  have hpos := two_zpow_pos e
  exact le_antisymm (round_le (by positivity) hplace le_rfl) (le_round hplace le_rfl)

/-- What is less than half of the least double is rounded to zero. -/
theorem round_eq_zero {x : ℚ} (hx : 0 < x) (h : x < 2 ^ (-1075 : ℤ)) : round x = 0 := by
  have hlog : Int.log 2 x < -1075 := by
    rw [← Int.lt_zpow_iff_log_lt (by norm_num) hx]
    exact_mod_cast h
  have hplace : place x = -1074 := by
    unfold place
    omega
  have hpos := two_zpow_pos (-1074)
  have hquotient := div_pos hx hpos
  have hhalf : x / 2 ^ (-1074 : ℤ) < 1 / 2 := by
    rw [div_lt_iff₀ hpos]
    refine h.trans_eq ?_
    rw [show (-1075 : ℤ) = -1 + -1074 by norm_num, zpow_add₀ (by norm_num)]
    norm_num
  rw [round, hplace]
  generalize x / 2 ^ (-1074 : ℤ) = q at hquotient hhalf
  have hzero : roundEven q = 0 := roundEven_eq hquotient.le (by push_cast; linarith)
    (by push_cast; linarith) (by norm_num)
  rw [hzero, Nat.cast_zero, zero_mul]

theorem round_two_mul {x : ℚ} (hx : 1 ≤ x) : round (2 * x) = 2 * round x := by
  have hlog : 0 ≤ Int.log 2 x := by
    rw [← Int.zpow_le_iff_le_log (by norm_num) (zero_lt_one.trans_le hx)]
    simpa using hx
  have hdouble := log_mul_two_zpow (zero_lt_one.trans_le hx) 1
  rw [zpow_one, mul_comm] at hdouble
  have hplace : place (2 * x) = place x + 1 := by
    unfold place
    omega
  unfold round
  rw [hplace, zpow_add_one₀ (by norm_num), mul_comm 2 x, mul_div_mul_right _ _ (by norm_num)]
  ring

end Exploration.Double
