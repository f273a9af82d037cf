import Mathlib
import Exploration.Time.Calendar

/-!
# Dates and their numbers

Numbers and dates are inverse to each other (`number_ofNumber`, `ofNumber_number`), and with the
next number comes the next day of the month, or the first day of the next one (`ofNumber_counts`).
Both directions count in years that begin in March. Their lengths follow from the rule for leap
years (`march_succ`). Each day is in such a year (`exists_march`), and so is each date
(`eq_ofMarch`).
-/

namespace Exploration.Time.Date

theorem isLeapYear_iff {y : Int} :
    isLeapYear y = true ↔ y % 4 = 0 ∧ (y % 100 ≠ 0 ∨ y % 400 = 0) := by
  simp [isLeapYear]

/-! ## Years that begin in March -/

/-- Days before the first of March of the year `y`. -/
def march (y : Int) : Int := y / 400 * eraDays + beforeYear (y % 400).toNat

theorem march_eq (y : Int) : march y = 365 * y + y / 4 - y / 100 + y / 400 := by
  unfold march eraDays beforeYear
  omega

theorem march_era (era : Int) {r : Nat} (h : r < 400) :
    march (era * 400 + r) = era * eraDays + beforeYear r := by
  have hdiv : (era * 400 + r) / 400 = era := by omega
  have hmod : ((era * 400 + r) % 400).toNat = r := by omega
  rw [march, hdiv, hmod]

theorem march_succ (y : Int) :
    march (y + 1) = march y + if isLeapYear (y + 1) then 366 else 365 := by
  rw [march_eq, march_eq]
  split_ifs with h
  · rw [isLeapYear_iff] at h
    omega
  · rw [isLeapYear_iff] at h
    omega

/-- Day `k` of the year that begins in March of `y`. It ends with a leap day if the next year has
one. -/
def InYear (y : Int) (k : Nat) : Prop := k < 365 ∨ k = 365 ∧ isLeapYear (y + 1) = true

theorem InYear.le {y : Int} {k : Nat} (h : InYear y k) : k ≤ 365 :=
  h.elim Nat.le_of_lt fun h => h.1.le

/-- The same in year `r` of an era. -/
def InEraYear (r k : Nat) : Prop := k < 365 ∨ k = 365 ∧ r % 4 = 3 ∧ (r % 100 ≠ 99 ∨ r = 399)

theorem inYear_era (era : Int) {r k : Nat} (h : r < 400) :
    InYear (era * 400 + r) k ↔ InEraYear r k := by
  unfold InYear InEraYear
  rw [isLeapYear_iff]
  omega

theorem beforeYear_eq {c q s : Nat} (hq : q < 25) (hs : s < 4) :
    beforeYear (100 * c + 4 * q + s) = 36524 * c + 1461 * q + 365 * s := by
  unfold beforeYear
  omega

theorem exists_inEraYear {e : Nat} (h : e < eraDays) :
    ∃ r k, r < 400 ∧ InEraYear r k ∧ e = beforeYear r + k := by
  unfold eraDays at h
  -- the last century, the last four years and the last year are longer than the others
  obtain ⟨c, hc⟩ : ∃ c, c = min (e / 36524) 3 := ⟨_, rfl⟩
  obtain ⟨q, hq⟩ : ∃ q, q = (e - 36524 * c) / 1461 := ⟨_, rfl⟩
  obtain ⟨s, hs⟩ : ∃ s, s = min ((e - 36524 * c - 1461 * q) / 365) 3 := ⟨_, rfl⟩
  have hbefore := beforeYear_eq (c := c) (q := q) (s := s) (by omega) (by omega)
  refine ⟨100 * c + 4 * q + s, e - (36524 * c + 1461 * q + 365 * s), by omega, ?_, by omega⟩
  unfold InEraYear
  omega

theorem eraYear_eq {r k : Nat} (hr : r < 400) (hk : InEraYear r k) {e : Nat}
    (he : e = beforeYear r + k) : (e - e / 1460 + e / 36524 - e / 146096) / 365 = r := by
  unfold beforeYear at he
  unfold InEraYear at hk
  have hcentury : e / 36524 = r / 100 ∧ e / 146096 = 0 ∨
      e / 36524 = r / 100 + 1 ∧ e / 146096 = 1 := by omega
  have hfours : e / 1460 = r / 4 ∨ e / 1460 = r / 4 + 1 := by omega
  omega

theorem exists_march (n : Int) : ∃ y k, InYear y k ∧ n = march y + k := by
  have hera : (n % eraDays).toNat < eraDays := by
    unfold eraDays
    omega
  obtain ⟨r, k, hr, hk, he⟩ := exists_inEraYear hera
  refine ⟨n / eraDays * 400 + r, k, (inYear_era _ hr).2 hk, ?_⟩
  rw [march_era _ hr]
  unfold eraDays at *
  omega

/-! ## Their dates -/

/-- The date of day `k` of the year that begins in March of `y`. -/
def ofMarch (y : Int) (k : Nat) : Date :=
  let month := (5 * k + 2) / 153
  if month < 10 then ⟨y, month + 3, k - beforeMonth month + 1⟩
  else ⟨y + 1, month - 9, k - beforeMonth month + 1⟩

theorem ofNumber_march {y : Int} {k : Nat} (h : InYear y k) :
    ofNumber (march y + k - epoch) = ofMarch y k := by
  obtain ⟨r, hr, hy⟩ : ∃ r : Nat, r < 400 ∧ y = y / 400 * 400 + r := ⟨(y % 400).toNat, by omega⟩
  rw [hy, inYear_era _ hr] at h
  have hyear := eraYear_eq hr h rfl
  have hmarch : march y = y / 400 * eraDays + beforeYear r := by rw [← march_era _ hr, ← hy]
  have hlt : beforeYear r + k < eraDays := by
    unfold InEraYear beforeYear eraDays at *
    omega
  have hdiv : (march y + k) / eraDays = y / 400 := by
    rw [hmarch]
    unfold eraDays at *
    omega
  have hmod : ((march y + k) % eraDays).toNat = beforeYear r + k := by
    rw [hmarch]
    unfold eraDays at *
    omega
  simp only [ofNumber, ofMarch, Int.sub_add_cancel, hdiv, hmod, hyear, Nat.add_sub_cancel_left,
    ← hy]

theorem number_eq (d : Date) : d.number = march (if d.month ≤ 2 then d.year - 1 else d.year) +
    (beforeMonth ((d.month + 9) % 12) + (d.day - 1) : Nat) - epoch := by
  unfold number march
  push_cast
  omega

theorem number_ofMarch {y : Int} {k : Nat} (h : k ≤ 365) :
    (ofMarch y k).number = march y + k - epoch := by
  have hmonth : beforeMonth ((5 * k + 2) / 153) ≤ k := by
    unfold beforeMonth
    omega
  unfold ofMarch
  dsimp only
  split_ifs with hm <;> rw [number_eq]
  · have hsame : ((5 * k + 2) / 153 + 3 + 9) % 12 = (5 * k + 2) / 153 := by omega
    rw [if_neg (by show ¬ (5 * k + 2) / 153 + 3 ≤ 2; omega), hsame]
    dsimp only
    omega
  · have hsame : ((5 * k + 2) / 153 - 9 + 9) % 12 = (5 * k + 2) / 153 := by omega
    rw [if_pos (by show (5 * k + 2) / 153 - 9 ≤ 2; omega), hsame]
    dsimp only
    rw [Int.add_sub_cancel]
    omega

theorem isValid_iff {d : Date} : d.isValid = true ↔
    (1 ≤ d.month ∧ d.month ≤ 12) ∧ 1 ≤ d.day ∧ d.day ≤ monthLength d.year d.month := by
  simp [isValid, and_assoc]

theorem month_iff {k m : Nat} :
    (5 * k + 2) / 153 = m ↔ beforeMonth m ≤ k ∧ k < beforeMonth (m + 1) := by
  unfold beforeMonth
  omega

theorem monthLength_february (year : Int) :
    monthLength year 2 = if isLeapYear year then 29 else 28 := if_pos rfl

theorem monthLength_of_ne (year : Int) {month : Nat} (h : 1 ≤ month) (h' : month ≤ 12)
    (hne : month ≠ 2) : beforeMonth ((month + 9) % 12) + monthLength year month =
      beforeMonth ((month + 9) % 12 + 1) := by
  interval_cases month <;> first | rfl | exact absurd rfl hne

theorem isValid_ofMarch {y : Int} {k : Nat} (h : InYear y k) : (ofMarch y k).isValid = true := by
  obtain ⟨m, hm⟩ : ∃ m, (5 * k + 2) / 153 = m := ⟨_, rfl⟩
  obtain ⟨hfirst, hlast⟩ := month_iff.1 hm
  unfold InYear at h
  simp only [ofMarch, hm]
  split_ifs with hten <;> simp only [isValid_iff]
  · have hlength : beforeMonth ((m + 3 + 9) % 12) + monthLength y (m + 3) = _ :=
      monthLength_of_ne y (by omega) (by omega) (by omega)
    rw [show (m + 3 + 9) % 12 = m by omega] at hlength
    omega
  · obtain rfl | rfl : m = 10 ∨ m = 11 := by omega
    · have hlength : beforeMonth 10 + monthLength (y + 1) (10 - 9) = beforeMonth (10 + 1) := rfl
      omega
    · have hbefore : beforeMonth 11 = 337 := rfl
      have hlength : monthLength (y + 1) (11 - 9) = _ := monthLength_february (y + 1)
      split_ifs at hlength with hleap
      · omega
      · have hk : k < 365 := h.resolve_right fun hk => hleap hk.2
        omega

/-- The days of February are the last ones of such a year. -/
theorem lt_beforeMonth {year : Int} {month day : Nat} (h : isValid ⟨year, month, day⟩ = true) :
    beforeMonth ((month + 9) % 12) + (day - 1) < beforeMonth ((month + 9) % 12 + 1) ∧
      (month = 2 → beforeMonth ((month + 9) % 12) + (day - 1) <
        if isLeapYear year then 366 else 365) := by
  obtain ⟨⟨hmonth, hmonth'⟩, hday, hday'⟩ := isValid_iff.1 h
  dsimp only at *
  by_cases hfeb : month = 2
  · subst hfeb
    have hlast : beforeMonth 11 = 337 ∧ beforeMonth 12 = 367 := ⟨rfl, rfl⟩
    rw [monthLength_february] at hday'
    show beforeMonth 11 + (day - 1) < beforeMonth 12 ∧ (_ → beforeMonth 11 + (day - 1) < _)
    split_ifs at hday' ⊢ <;> omega
  · have hlength := monthLength_of_ne year hmonth hmonth' hfeb
    omega

theorem eq_ofMarch {d : Date} (h : d.isValid = true) : ∃ y k, InYear y k ∧ d = ofMarch y k := by
  obtain ⟨year, month, day⟩ := d
  obtain ⟨⟨hmonth, hmonth'⟩, hday, -⟩ := isValid_iff.1 h
  obtain ⟨hlt, hfeb⟩ := lt_beforeMonth h
  dsimp only at *
  generalize hm : (month + 9) % 12 = m at hlt hfeb
  have hfrom : month ≤ 2 ∧ m = month + 9 ∨ 2 < month ∧ m + 3 = month := by omega
  have hsame : (5 * (beforeMonth m + (day - 1)) + 2) / 153 = m :=
    month_iff.2 ⟨Nat.le_add_right _ _, hlt⟩
  refine ⟨if month ≤ 2 then year - 1 else year, beforeMonth m + (day - 1), ?_, ?_⟩
  · by_cases hlast : month = 2
    · have hbound := hfeb hlast
      rw [InYear, if_pos hlast.le, Int.sub_add_cancel]
      split_ifs at hbound with hleap
      · exact (Nat.lt_succ_iff_lt_or_eq.1 hbound).imp_right fun hk => ⟨hk, hleap⟩
      · exact Or.inl hbound
    · left
      clear hfeb hsame hm
      unfold beforeMonth at *
      omega
  · simp only [ofMarch, hsame, Nat.add_sub_cancel_left]
    clear hsame hm hlt hfeb
    split_ifs <;> simp only [Date.mk.injEq, true_and] <;> omega

/-! ## Numbers and dates -/

theorem number_ofNumber (n : Int) : (ofNumber n).number = n := by
  obtain ⟨y, k, hk, hn⟩ := exists_march (n + epoch)
  obtain rfl : n = march y + k - epoch := by omega
  rw [ofNumber_march hk, number_ofMarch hk.le]

theorem isValid_ofNumber (n : Int) : (ofNumber n).isValid = true := by
  obtain ⟨y, k, hk, hn⟩ := exists_march (n + epoch)
  obtain rfl : n = march y + k - epoch := by omega
  rw [ofNumber_march hk]
  exact isValid_ofMarch hk

theorem ofNumber_number {d : Date} (h : d.isValid = true) : ofNumber d.number = d := by
  obtain ⟨y, k, hk, rfl⟩ := eq_ofMarch h
  rw [number_ofMarch hk.le, ofNumber_march hk]

/-- The day after. -/
def next (d : Date) : Date :=
  if d.day < monthLength d.year d.month then { d with day := d.day + 1 }
  else if d.month < 12 then ⟨d.year, d.month + 1, 1⟩
  else ⟨d.year + 1, 1, 1⟩

theorem one_le_monthLength (year : Int) (month : Nat) : 1 ≤ monthLength year month := by
  unfold monthLength
  split_ifs <;> decide

theorem monthLength_le (year : Int) (month : Nat) : monthLength year month ≤ 31 := by
  unfold monthLength
  split_ifs <;> decide

theorem isValid_next {d : Date} (h : d.isValid = true) : d.next.isValid = true := by
  rw [isValid_iff] at h
  unfold next
  split_ifs <;> rw [isValid_iff] <;> dsimp only
  · omega
  · exact ⟨by omega, le_rfl, one_le_monthLength _ _⟩
  · exact ⟨by omega, le_rfl, one_le_monthLength _ _⟩

theorem number_next {d : Date} (h : d.isValid = true) : d.next.number = d.number + 1 := by
  obtain ⟨year, month, day⟩ := d
  obtain ⟨⟨hmonth, hmonth'⟩, hday, hday'⟩ := isValid_iff.1 h
  unfold next
  dsimp only at *
  split_ifs with hwithin hyear
  · rw [number_eq, number_eq]
    dsimp only
    omega
  · obtain rfl : day = monthLength year month := by omega
    rw [number_eq, number_eq]
    dsimp only
    by_cases hfeb : month = 2
    · subst hfeb
      have hmarch := march_succ (year - 1)
      rw [Int.sub_add_cancel] at hmarch
      have hbefore : beforeMonth 11 = 337 ∧ beforeMonth 0 = 0 := ⟨rfl, rfl⟩
      show march year + (beforeMonth 0 + (1 - 1) : Nat) - epoch =
        march (year - 1) + (beforeMonth 11 + (monthLength year 2 - 1) : Nat) - epoch + 1
      rw [hmarch, monthLength_february]
      split_ifs <;> omega
    · have hlength := monthLength_of_ne year hmonth hmonth' hfeb
      rw [show (month + 1 + 9) % 12 = (month + 9) % 12 + 1 by omega]
      split_ifs <;> omega
  · obtain rfl : month = 12 := by omega
    obtain rfl : day = 31 := le_antisymm hday' (not_lt.1 hwithin)
    rw [number_eq, number_eq]
    have hbefore : beforeMonth ((12 + 9) % 12) = 275 ∧ beforeMonth ((1 + 9) % 12) = 306 :=
      ⟨rfl, rfl⟩
    dsimp only
    rw [if_pos (by decide), if_neg (by decide), Int.add_sub_cancel]
    omega

/-- The calendar as one counts it, day by day from the first one. -/
theorem ofNumber_counts :
    ofNumber 0 = ⟨1970, 1, 1⟩ ∧ ∀ n, ofNumber (n + 1) = (ofNumber n).next := by
  refine ⟨by decide, fun n => ?_⟩
  have hvalid := isValid_ofNumber n
  rw [← ofNumber_number (isValid_next hvalid), number_next hvalid, number_ofNumber]

/-! ## Years -/

theorem number_newYear (y : Int) : number ⟨y, 1, 1⟩ = march (y - 1) + 306 - epoch := by
  have hbefore : beforeMonth ((1 + 9) % 12) = 306 := rfl
  rw [number_eq]
  dsimp only
  rw [if_pos (by decide), hbefore]
  rfl

theorem newYear_le {y y' : Int} (h : y ≤ y') : number ⟨y, 1, 1⟩ ≤ number ⟨y', 1, 1⟩ := by
  rw [number_newYear, number_newYear, march_eq, march_eq]
  rcases h.eq_or_lt with rfl | h
  · exact le_rfl
  · omega

theorem year_ofMarch (y : Int) (k : Nat) : (ofMarch y k).year = if k < 306 then y else y + 1 := by
  unfold ofMarch
  dsimp only
  split_ifs <;> first | rfl | omega

theorem number_of_year {d : Date} (h : d.isValid = true) :
    number ⟨d.year, 1, 1⟩ ≤ d.number ∧ d.number < number ⟨d.year + 1, 1, 1⟩ := by
  obtain ⟨y, k, hk, rfl⟩ := eq_ofMarch h
  have hle := hk.le
  have hlong : ∀ y, march y + 365 ≤ march (y + 1) := by
    intro y
    rw [march_succ]
    split_ifs <;> omega
  have hbefore := hlong (y - 1)
  have hafter := hlong y
  rw [Int.sub_add_cancel] at hbefore
  rw [number_newYear, number_newYear, number_ofMarch hle, year_ofMarch, Int.add_sub_cancel]
  split_ifs
  · omega
  · rw [Int.add_sub_cancel]
    omega

theorem le_year_iff {n y : Int} : y ≤ (ofNumber n).year ↔ number ⟨y, 1, 1⟩ ≤ n := by
  obtain ⟨hfirst, hlast⟩ := number_of_year (isValid_ofNumber n)
  rw [number_ofNumber] at hfirst hlast
  constructor
  · exact fun h => (newYear_le h).trans hfirst
  · intro h
    by_contra hlt
    have := newYear_le (Int.add_one_le_iff.2 (not_le.1 hlt))
    omega

end Exploration.Time.Date
