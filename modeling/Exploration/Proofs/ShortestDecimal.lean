import Mathlib
import Exploration.Decimal.Shortest
import Exploration.Proofs.Digits
import Exploration.Proofs.Rounding

/-!
# Shortest decimals

Whatever lies in the interval around a double is rounded to that double (`round_of_contains`), and
among seventeen grids there is one with a point in it (`onGrid_isSome`). So the shortest decimal of
a double is rounded to the double (`round_shortest`).
-/

namespace Exploration.Decimal

open Double (Canonical two_zpow_pos)

/-- The number that a decimal is. -/
def Scaled.value (d : Scaled) : ℚ := d.coefficient * 10 ^ d.scale

/-! ## Comparisons -/

theorem pow_toNat (b : ℚ) (hb : b ≠ 0) (e : ℤ) : b ^ e.toNat = b ^ e * b ^ (-e).toNat := by
  rcases le_total 0 e with h | h
  · obtain ⟨k, rfl⟩ := Int.eq_ofNat_of_zero_le h
    simp
  · obtain ⟨k, hk⟩ := Int.eq_ofNat_of_zero_le (show 0 ≤ -e by omega)
    obtain rfl : e = -k := by omega
    simp [zpow_neg, hb]

/-- Both numbers are multiplied by the same. -/
theorem commensurate_eq (a : ℕ) (e : ℤ) (b : ℕ) (s : ℤ) : ∃ k : ℚ, 0 < k ∧
    ((commensurate a e b s).1 : ℚ) = a * 2 ^ e * k ∧
      ((commensurate a e b s).2 : ℚ) = b * 10 ^ s * k := by
  refine ⟨2 ^ (-e).toNat * 10 ^ (-s).toNat, by positivity, ?_, ?_⟩
  · have h := pow_toNat 2 (by norm_num) e
    simp only [commensurate, Nat.pow_eq]
    push_cast
    rw [h]
    ring
  · have h := pow_toNat 10 (by norm_num) s
    simp only [commensurate, Nat.pow_eq]
    push_cast
    rw [h]
    ring

variable {a b : ℕ} {e s : ℤ}

theorem commensurate_le : (commensurate a e b s).1 ≤ (commensurate a e b s).2 ↔
    (a * 2 ^ e : ℚ) ≤ b * 10 ^ s := by
  obtain ⟨k, hk, h₁, h₂⟩ := commensurate_eq a e b s
  rw [← Nat.cast_le (α := ℚ), h₁, h₂, mul_le_mul_iff_of_pos_right hk]

theorem commensurate_lt : (commensurate a e b s).1 < (commensurate a e b s).2 ↔
    (a * 2 ^ e : ℚ) < b * 10 ^ s := by
  obtain ⟨k, hk, h₁, h₂⟩ := commensurate_eq a e b s
  rw [← Nat.cast_lt (α := ℚ), h₁, h₂, mul_lt_mul_iff_of_pos_right hk]

theorem commensurate_ge : (commensurate a e b s).2 ≤ (commensurate a e b s).1 ↔
    (b * 10 ^ s : ℚ) ≤ a * 2 ^ e := by
  rw [← not_lt, commensurate_lt, not_lt]

theorem commensurate_gt : (commensurate a e b s).2 < (commensurate a e b s).1 ↔
    (b * 10 ^ s : ℚ) < a * 2 ^ e := by
  rw [← not_le, commensurate_le, not_le]

theorem contains_iff {i : Interval} {d : Scaled} : i.contains e d = true ↔
    i.low * 2 ^ (e - 2) ≤ d.value ∧ d.value ≤ i.high * 2 ^ (e - 2) ∧
      (i.closed = false → i.low * 2 ^ (e - 2) < d.value ∧ d.value < i.high * 2 ^ (e - 2)) := by
  unfold Interval.contains Scaled.value
  dsimp only
  cases i.closed
  · simp only [Bool.false_eq_true, if_false, Bool.and_eq_true, decide_eq_true_eq, commensurate_lt,
      commensurate_gt]
    exact ⟨fun h => ⟨h.1.le, h.2.le, fun _ => h⟩, fun h => h.2.2 trivial⟩
  · simp only [if_true, Bool.and_eq_true, decide_eq_true_eq, commensurate_le, commensurate_ge]
    exact ⟨fun h => ⟨h.1, h.2, nofun⟩, fun h => ⟨h.1, h.2.1⟩⟩

/-! ## Intervals -/

/-- Whether the neighbour below a double is only half as far from it as the one above. -/
def Lowest (m : ℕ) (e : ℤ) : Prop := m = 2 ^ 52 ∧ -1074 < e

theorem low_around {m : ℕ} (hm : 0 < m) (h : ¬ Lowest m e) :
    ((Interval.around m e).low : ℚ) = 4 * m - 2 := by
  have hlow : (Interval.around m e).low = 4 * m - 2 :=
    congrArg (4 * m - ·) (if_neg h)
  rw [hlow, Nat.cast_sub (by omega)]
  push_cast
  rfl

theorem low_around_of_lowest {m : ℕ} (h : Lowest m e) :
    ((Interval.around m e).low : ℚ) = 4 * m - 1 := by
  have hlow : (Interval.around m e).low = 4 * m - 1 :=
    congrArg (4 * m - ·) (if_pos h)
  have hm : m = 2 ^ 52 := h.1
  rw [hlow, Nat.cast_sub (by omega)]
  push_cast
  rfl

theorem high_around (m : ℕ) (e : ℤ) : ((Interval.around m e).high : ℚ) = 4 * m + 2 := by
  simp [Interval.around]

theorem quarter (e : ℤ) : (2 : ℚ) ^ (e - 2) = 2 ^ e / 4 := by
  rw [zpow_sub₀ (by norm_num)]
  norm_num

theorem inside_around {m : ℕ} (hm : 0 < m) (e : ℤ) :
    ((Interval.around m e).low * 2 ^ (e - 2) : ℚ) < m * 2 ^ e ∧
      (m * 2 ^ e : ℚ) < (Interval.around m e).high * 2 ^ (e - 2) := by
  have hpos := two_zpow_pos e
  rw [high_around, quarter]
  refine ⟨?_, by linarith⟩
  by_cases hlowest : Lowest m e
  · rw [low_around_of_lowest hlowest]
    linarith
  · rw [low_around hm hlowest]
    linarith

theorem closed_around (m : ℕ) (e : ℤ) : (Interval.around m e).closed = false ↔ m % 2 = 1 := by
  simp [Interval.around]

theorem round_of_lowest {v : ℚ} (he : -1074 < e) (hlow : ((2 ^ 52 : ℕ) - 1 / 4) * 2 ^ e ≤ v)
    (hhigh : v < (2 ^ 52 : ℕ) * 2 ^ e) : Double.round v = (2 ^ 52 : ℕ) * 2 ^ e := by
  have hpos := two_zpow_pos (e - 1)
  have htwo : (2 : ℚ) ^ e = 2 * 2 ^ (e - 1) := by
    rw [zpow_sub_one₀ (by norm_num)]
    ring
  rw [htwo] at hlow hhigh ⊢
  push_cast at hlow hhigh
  have hv : 0 < v := by nlinarith
  have hplace : Double.place v = e - 1 := by
    refine Double.place_eq_of_le hv (Or.inr ?_) ?_ (by omega)
    · rw [zpow_add₀ (by norm_num)]
      norm_num
      linarith
    · rw [zpow_add₀ (by norm_num)]
      norm_num
      linarith
  have hquotient : Double.roundEven (v / 2 ^ (e - 1)) = 2 ^ 53 := by
    refine Double.roundEven_eq (by positivity) ?_ ?_ (by norm_num)
    · rw [le_div_iff₀ hpos]
      push_cast
      linarith
    · rw [div_le_iff₀ hpos]
      push_cast
      linarith
  rw [Double.round, hplace, hquotient]
  push_cast
  ring

theorem round_of_not_lowest {v : ℚ} {m : ℕ} (hc : Canonical m e) (hm : 0 < m)
    (hlow : (m - 1 / 2) * 2 ^ e ≤ v) (hhigh : v ≤ (m + 1 / 2) * 2 ^ e)
    (hodd : m % 2 = 1 → (m - 1 / 2) * 2 ^ e < v ∧ v < (m + 1 / 2) * 2 ^ e)
    (hside : Lowest m e → m * 2 ^ e ≤ v) : Double.round v = m * 2 ^ e := by
  have hpos := two_zpow_pos e
  have hm' : (1 : ℚ) ≤ m := by exact_mod_cast hm
  have hmax : (m : ℚ) + 1 ≤ 2 ^ (53 : ℤ) := by exact_mod_cast hc.lt
  have hv : 0 < v := by nlinarith
  have hplace : Double.place v = e := by
    refine Double.place_eq_of_le hv ?_ ?_ hc.least
    · rcases hc.least.eq_or_lt with heq | hlt
      · exact Or.inl heq.symm
      · right
        have hfull := hc.full.resolve_left hlt.ne'
        rw [zpow_add₀ (by norm_num)]
        rcases hfull.eq_or_lt with hfull | hfull
        · have hle := hside ⟨hfull.symm, hlt⟩
          rw [← hfull] at hle
          exact_mod_cast hle
        · have hnext : (2 : ℚ) ^ (52 : ℤ) + 1 ≤ m := by exact_mod_cast hfull
          nlinarith
    · rw [zpow_add₀ (by norm_num)]
      nlinarith
  have hquotient : Double.roundEven (v / 2 ^ e) = m := by
    refine Double.roundEven_eq (by positivity) ?_ ?_ fun h => ⟨?_, ?_⟩
    · rwa [le_div_iff₀ hpos]
    · rwa [div_le_iff₀ hpos]
    · rw [lt_div_iff₀ hpos]
      exact (hodd h).1
    · rw [div_lt_iff₀ hpos]
      exact (hodd h).2
  rw [Double.round, hplace, hquotient]

/-- What lies in the interval around a double is rounded to it. -/
theorem round_of_contains {m : ℕ} {d : Scaled} (hc : Canonical m e) (hm : 0 < m)
    (h : (Interval.around m e).contains e d = true) : Double.round d.value = m * 2 ^ e := by
  obtain ⟨hlow, hhigh, hopen⟩ := contains_iff.1 h
  rw [closed_around, high_around, quarter] at hopen
  rw [quarter] at hlow
  rw [high_around, quarter] at hhigh
  by_cases hlowest : Lowest m e
  · rw [low_around_of_lowest hlowest] at hlow
    obtain ⟨rfl, he⟩ := hlowest
    rcases lt_or_ge d.value ((2 ^ 52 : ℕ) * 2 ^ e) with hlt | hge
    · exact round_of_lowest he (by linarith) hlt
    · refine round_of_not_lowest hc hm ?_ (by linarith) (by norm_num) fun _ => hge
      have hpos := two_zpow_pos e
      linarith
  · rw [low_around hm hlowest] at hlow hopen
    refine round_of_not_lowest hc hm (by linarith) (by linarith) (fun hodd => ?_)
      fun h => absurd h hlowest
    obtain ⟨hlow', hhigh'⟩ := hopen hodd
    exact ⟨by linarith, by linarith⟩

/-! ## Grids -/

variable {tie : Tie} {m : ℕ} {d : Scaled}

theorem contains_of_onGrid (h : onGrid tie m e s = some d) :
    (Interval.around m e).contains e d = true := by
  unfold onGrid at h
  dsimp only at h
  split at h
  · rename_i hbelow habove
    obtain rfl := Option.some.inj h
    split_ifs
    · exact habove
    · exact hbelow
  · rename_i hbelow _
    exact Option.some.inj h ▸ hbelow
  · rename_i _ habove
    exact Option.some.inj h ▸ habove
  · cases h

theorem onGrid_isSome_iff : (onGrid tie m e s).isSome ↔
    (Interval.around m e).contains e (gridBelow m e s) = true ∨
      (Interval.around m e).contains e ⟨(gridBelow m e s).coefficient + 1, s⟩ = true := by
  unfold onGrid
  dsimp only
  split <;> simp_all

theorem gridBelow_le (m : ℕ) (e s : ℤ) : (gridBelow m e s).value ≤ m * 2 ^ e ∧
    (m * 2 ^ e : ℚ) < ((gridBelow m e s).coefficient + 1 : ℕ) * 10 ^ s := by
  obtain ⟨k, hk, h₁, h₂⟩ := commensurate_eq m e 1 s
  have hunit : 0 < (commensurate m e 1 s).2 := by
    rw [← Nat.cast_pos (α := ℚ), h₂]
    positivity
  have hle := Nat.div_mul_le_self (commensurate m e 1 s).1 (commensurate m e 1 s).2
  have hlt := Nat.lt_mul_of_div_lt
    (Nat.lt_succ_self ((commensurate m e 1 s).1 / (commensurate m e 1 s).2)) hunit
  rw [← Nat.cast_le (α := ℚ), Nat.cast_mul, h₁, h₂, Nat.cast_one, one_mul, ← mul_assoc,
    mul_le_mul_iff_of_pos_right hk] at hle
  rw [← Nat.cast_lt (α := ℚ), Nat.cast_mul, h₁, h₂, Nat.cast_one, one_mul, ← mul_assoc,
    mul_lt_mul_iff_of_pos_right hk] at hlt
  exact ⟨hle, hlt⟩

/-- A grid as fine as this has a point in the interval. -/
theorem onGrid_isSome (hc : Canonical m e) (hm : 0 < m) (h : (10 : ℚ) ^ (s + 16) ≤ m * 2 ^ e) :
    (onGrid tie m e s).isSome := by
  rw [onGrid_isSome_iff]
  by_contra hnone
  push Not at hnone
  obtain ⟨hbelow, habove⟩ := hnone
  obtain ⟨hle, hlt⟩ := gridBelow_le m e s
  have hpos := two_zpow_pos e
  have hinside := inside_around hm e
  have hlow : (gridBelow m e s).value ≤ (Interval.around m e).low * 2 ^ (e - 2) := by
    by_contra hgt
    push Not at hgt
    have hbelow' := hle.trans_lt hinside.2
    exact hbelow (contains_iff.2 ⟨hgt.le, hbelow'.le, fun _ => ⟨hgt, hbelow'⟩⟩)
  have hhigh : ((Interval.around m e).high * 2 ^ (e - 2) : ℚ) ≤
      ((gridBelow m e s).coefficient + 1 : ℕ) * 10 ^ s := by
    by_contra hgt
    push Not at hgt
    have habove' := hinside.1.trans hlt
    exact habove (contains_iff.2 ⟨habove'.le, hgt.le, fun _ => ⟨habove', hgt⟩⟩)
  have hstep : (((gridBelow m e s).coefficient + 1 : ℕ) * 10 ^ s : ℚ) =
      (gridBelow m e s).value + 10 ^ s := by
    have hscale : (gridBelow m e s).scale = s := rfl
    rw [Scaled.value, hscale]
    push_cast
    ring
  rw [zpow_add₀ (by norm_num)] at h
  rw [hstep, high_around, quarter] at hhigh
  rw [quarter] at hlow
  by_cases hlowest : Lowest m e
  · rw [low_around_of_lowest hlowest] at hlow
    obtain ⟨rfl, -⟩ := hlowest
    push_cast at h hlow hhigh
    nlinarith
  · have hmax : (m : ℚ) + 1 ≤ 2 ^ 53 := by exact_mod_cast hc.lt
    rw [low_around hm hlowest] at hlow
    nlinarith

theorem zpow_length_digits_le {n : ℕ} (hn : 0 < n) :
    (10 : ℚ) ^ (((digits n).length : ℤ) - 1) ≤ n := by
  have hlength := List.length_pos_iff.2 (digits_ne_nil n)
  rw [show ((digits n).length : ℤ) - 1 = ((digits n).length - 1 : ℕ) by omega, zpow_natCast]
  exact_mod_cast (pow_length_digits hn).1

theorem pow_leadingExponent_le (hm : 0 < m) (e : ℤ) :
    (10 : ℚ) ^ leadingExponent m e ≤ m * 2 ^ e := by
  unfold leadingExponent
  by_cases he : 0 ≤ e
  · rw [if_pos he]
    obtain ⟨k, rfl⟩ := Int.eq_ofNat_of_zero_le he
    have h := zpow_length_digits_le (n := m * 2 ^ k) (by positivity)
    push_cast at h
    simpa using h
  · rw [if_neg he]
    obtain ⟨k, hk⟩ := Int.eq_ofNat_of_zero_le (show 0 ≤ -e by omega)
    obtain rfl : e = -k := by omega
    dsimp only
    rw [neg_neg, Int.toNat_natCast, Nat.pow_eq, zpow_neg (2 : ℚ), zpow_natCast, ← div_eq_mul_inv]
    have hden : 0 < 2 ^ k := by positivity
    split_ifs with hle
    · refine (zpow_length_digits_le (Nat.div_pos hle hden)).trans ?_
      exact_mod_cast Nat.cast_div_le (α := ℚ)
    · have hlt := (pow_length_digits (n := (2 ^ k - 1) / m) (Nat.div_pos (by omega) hm)).2
      generalize (digits ((2 ^ k - 1) / m)).length = n at hlt
      rw [Nat.div_lt_iff_lt_mul hm] at hlt
      have hle' : (2 : ℚ) ^ k ≤ 10 ^ n * m := by exact_mod_cast (show 2 ^ k ≤ 10 ^ n * m by omega)
      rw [zpow_neg, zpow_natCast, inv_eq_one_div, div_le_div_iff₀ (by positivity) (by positivity)]
      linarith

theorem searchGrids_contains : ∀ {count : ℕ} {s : ℤ}, searchGrids tie m e count s = some d →
    (Interval.around m e).contains e d = true
  | 0, _, h => by cases h
  | count + 1, s, h => by
    rw [searchGrids, Option.or_eq_some_iff] at h
    rcases h with h | ⟨-, h⟩
    · exact contains_of_onGrid h
    · exact searchGrids_contains h

theorem searchGrids_isSome {i : ℕ} : ∀ {count : ℕ} {s : ℤ}, i < count →
    (onGrid tie m e (s - i)).isSome → (searchGrids tie m e count s).isSome := by
  induction i with
  | zero =>
    rintro (_ | count) s hi h
    · cases hi
    · rw [searchGrids, Option.isSome_or]
      rw [Nat.cast_zero, sub_zero] at h
      rw [h, Bool.true_or]
  | succ i ih =>
    rintro (_ | count) s hi h
    · cases hi
    · rw [searchGrids, Option.isSome_or, Bool.or_eq_true]
      refine Or.inr (ih (Nat.lt_of_succ_lt_succ hi) ?_)
      rw [Nat.cast_succ] at h
      rwa [sub_sub, add_comm]

theorem value_dropZeros : ∀ (fuel : ℕ) (d : Scaled), (dropZeros fuel d).value = d.value
  | 0, _ => rfl
  | fuel + 1, d => by
    unfold dropZeros
    split_ifs with h
    · rw [value_dropZeros fuel]
      obtain ⟨c, hc⟩ := Nat.dvd_of_mod_eq_zero h
      simp only [Scaled.value, hc]
      rw [Nat.mul_div_cancel_left _ (by norm_num), zpow_add_one₀ (by norm_num)]
      push_cast
      ring
    · rfl

/-- The shortest decimal of a double is rounded to it. -/
theorem round_shortest (hc : Canonical m e) (hm : 0 < m) :
    Double.round (shortest tie m e).value = m * 2 ^ e := by
  have hsearch : (searchGrids tie m e 17 (leadingExponent m e)).isSome := by
    refine searchGrids_isSome (i := 16) (by norm_num) (onGrid_isSome hc hm ?_)
    have hlead := pow_leadingExponent_le hm e
    rwa [Nat.cast_ofNat, sub_add_cancel]
  obtain ⟨d, hd⟩ := Option.isSome_iff_exists.1 hsearch
  rw [shortest, if_neg hm.ne', hd]
  dsimp only
  rw [Option.getD_some, value_dropZeros]
  exact round_of_contains hc hm (searchGrids_contains hd)

end Exploration.Decimal
