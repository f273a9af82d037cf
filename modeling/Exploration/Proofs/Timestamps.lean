import Mathlib
import Exploration.Proofs.Calendar
import Exploration.Proofs.Chronology
import Exploration.Proofs.Digits

/-!
# Timestamps that are read back

Each part of a timestamp is read back from what has been written of it, whatever follows. A leap
second is written as second sixty, and no other second is. So an instant comes back as it was
(`readInstant_writeInstant`) unless its year is written with a sign (`readInstant_eq_none`).
-/

namespace Exploration.Time

open Decimal

/-! ## Parts of a timestamp -/

theorem readDigits_padded {count n : Nat} (hcount : 0 < count) (h : n < 10 ^ count)
    (rest : List Char) : readDigits count (padded count n ++ rest) = some (n, rest) := by
  have hlength := length_padded hcount h
  have hall : (padded count n).all isDigit = true :=
    List.all_eq_true.2 fun c => isDigit_of_mem_padded
  rw [readDigits, List.take_left' hlength, List.drop_left' hlength, if_pos ⟨hlength, hall⟩,
    ofDigits_padded]

theorem readDigits_two {n : Nat} (h : n < 100) (rest : List Char) :
    readDigits 2 (padded 2 n ++ rest) = some (n, rest) :=
  readDigits_padded (by decide) h rest

theorem readDigits_eq_none {count : Nat} {c : Char} {cs : List Char} (hcount : 0 < count)
    (h : isDigit c = false) : readDigits count (c :: cs) = none := by
  obtain ⟨count, rfl⟩ := Nat.exists_eq_add_one.2 hcount
  simp [readDigits, h]

theorem readChar_cons {p : Char → Bool} {c : Char} (h : p c = true) (cs : List Char) :
    readChar p (c :: cs) = some cs := if_pos h

theorem readDate_writeDate {d : Date} (h : d.isValid = true) (hyear : 0 ≤ d.year ∧ d.year ≤ 9999)
    (rest : List Char) : readDate (writeDate d ++ rest) = some (d, rest) := by
  obtain ⟨year, month, day⟩ := d
  obtain ⟨⟨-, hmonth⟩, -, hday⟩ := Date.isValid_iff.1 h
  have hle := hday.trans (Date.monthLength_le year month)
  dsimp only at *
  obtain ⟨year, rfl⟩ := Int.eq_ofNat_of_zero_le hyear.1
  have hfour := @readDigits_padded 4 year (by decide) (by omega)
  have hmonth' := @readDigits_two month (by omega)
  have hday' := @readDigits_two day (by omega)
  rw [writeDate, writeYear, if_pos hyear, Int.toNat_natCast]
  simp [readDate, hfour, hmonth', hday', readChar_cons, h]

/-- A year with a sign does not begin with a digit. -/
theorem readDate_eq_none {d : Date} (hyear : ¬ (0 ≤ d.year ∧ d.year ≤ 9999)) (rest : List Char) :
    readDate (writeDate d ++ rest) = none := by
  have hsign : isDigit (if d.year < 0 then '-' else '+') = false := by
    split_ifs <;> rfl
  rw [writeDate, writeYear, if_neg hyear]
  exact congrArg (Option.bind · _) (readDigits_eq_none (by decide) hsign)

theorem readClock_writeClock {hour minute second : Nat} (hhour : hour ≤ 23) (hminute : minute ≤ 59)
    (hsecond : second ≤ 60) (rest : List Char) :
    readClock (writeClock hour minute second ++ rest) = some ((hour, minute, second), rest) := by
  have hhour' := @readDigits_two hour (by omega)
  have hminute' := @readDigits_two minute (by omega)
  have hsecond' := @readDigits_two second (by omega)
  rw [writeClock]
  simp [readClock, hhour', hminute', hsecond', readChar_cons, hhour, hminute, hsecond]

theorem readFraction_padded {places n nanos : Nat} (hplaces : 0 < places) (hle : places ≤ 9)
    (h : n < 10 ^ places) (hnanos : n * 10 ^ (9 - places) = nanos) {c : Char}
    (hc : isDigit c = false) (rest : List Char) :
    readFraction ('.' :: padded places n ++ c :: rest) = some (nanos, c :: rest) := by
  have hlength := length_padded hplaces h
  have htake : (padded places n ++ c :: rest).takeWhile isDigit = padded places n := by
    rw [List.takeWhile_append_of_pos fun _ => isDigit_of_mem_padded]
    simp [hc]
  have hdrop : (padded places n ++ c :: rest).dropWhile isDigit = c :: rest := by
    rw [List.dropWhile_append_of_pos fun _ => isDigit_of_mem_padded]
    simp [hc]
  have hne : padded places n ≠ [] := by
    rw [← List.length_pos_iff, hlength]
    exact hplaces
  simp only [List.cons_append, readFraction, htake, hdrop]
  rw [if_neg hne, List.take_of_length_le (hlength.trans_le hle), ofDigits_padded, hlength,
    ← hnanos]
  rfl

theorem readFraction_writeFraction {nanos : Nat} (h : nanos < perSecond) (rest : List Char) :
    readFraction (writeFraction nanos ++ '+' :: rest) = some (nanos, '+' :: rest) := by
  have hplus : isDigit '+' = false := rfl
  unfold perSecond at h
  unfold writeFraction
  split_ifs with hzero hmillis hmicros
  · rw [hzero]
    rfl
  · exact readFraction_padded (by decide) (by decide) (by omega)
      (Nat.div_mul_cancel (Nat.dvd_of_mod_eq_zero hmillis)) hplus rest
  · exact readFraction_padded (by decide) (by decide) (by omega)
      (Nat.div_mul_cancel (Nat.dvd_of_mod_eq_zero hmicros)) hplus rest
  · exact readFraction_padded (by decide) (by decide) h (Nat.mul_one nanos) hplus rest

/-! ## Instants -/

/-- The year of an instant in UTC. -/
def Instant.year (i : Instant) : Int := (Date.ofNumber (i.seconds / 86400)).year

theorem readInstant_writeInstant {i : Instant} (hyear : 0 ≤ i.year ∧ i.year ≤ 9999) :
    readInstant (writeInstant i) = some i := by
  obtain ⟨seconds, nanos, hfits⟩ := i
  obtain ⟨-, -, hnanos, hleap⟩ := id hfits
  unfold perSecond at hnanos hleap
  obtain ⟨second, hsecond⟩ : ∃ second, second = (seconds % 86400).toNat := ⟨_, rfl⟩
  -- a leap second ends a minute, so that it is added to 59
  have hdate := readDate_writeDate (Date.isValid_ofNumber (seconds / 86400)) hyear
  have hclock := @readClock_writeClock (second / 3600) (second / 60 % 60)
    (second % 60 + nanos / perSecond) (by omega) (by omega) (by unfold perSecond; omega)
  have hfraction := @readFraction_writeFraction (nanos % perSecond) (Nat.mod_lt _ (by decide))
  have hending : "+00:00".toList = '+' :: "00:00".toList := rfl
  have hoffset : readOffset ('+' :: "00:00".toList) = some 0 := by decide
  simp only [writeInstant, readInstant, ← hsecond, hending, hdate, hclock, hfraction, hoffset,
    readChar_cons, Option.bind_eq_bind, Option.bind_some, Date.number_ofNumber, decide_true,
    Bool.true_or]
  have hsame : seconds / 86400 * 86400 + (3600 * ↑(second / 3600) + 60 * ↑(second / 60 % 60) +
      (↑(second % 60 + nanos / perSecond) - ↑((second % 60 + nanos / perSecond) / 60))) - 60 * 0 =
        seconds := by
    unfold perSecond
    omega
  have hsame' : nanos % perSecond + (second % 60 + nanos / perSecond) / 60 * perSecond = nanos := by
    unfold perSecond
    omega
  rw [hsame, hsame']
  exact dif_pos hfits

theorem readInstant_eq_none {i : Instant} (hyear : ¬ (0 ≤ i.year ∧ i.year ≤ 9999)) :
    readInstant (writeInstant i) = none := by
  simp only [writeInstant, readInstant, readDate_eq_none hyear, Option.bind_eq_bind,
    Option.bind_none]

/-- These are the seconds of the years 0 to 9999. -/
theorem Instant.year_iff {i : Instant} : 0 ≤ i.year ∧ i.year ≤ 9999 ↔
    -62167219200 ≤ i.seconds ∧ i.seconds < 253402300800 := by
  have hfirst : Date.number ⟨0, 1, 1⟩ = -719528 := by decide
  have hlast : Date.number ⟨10000, 1, 1⟩ = 2932897 := by decide
  have hle : i.year ≤ 9999 ↔ ¬ 10000 ≤ i.year := by omega
  rw [hle, Instant.year, Date.le_year_iff, Date.le_year_iff, hfirst, hlast]
  omega

end Exploration.Time

namespace Exploration.Trace

open Time

theorem parsedTimestamp_fresh (runId : String) (created : Instant) (version : UInt32) :
    (fresh runId created version).parsedTimestamp =
      if 0 ≤ created.year ∧ created.year ≤ 9999 then some created else none := by
  rw [parsedTimestamp, Instant.read, fresh, Instant.text, String.toList_ofList]
  split_ifs with h
  · exact readInstant_writeInstant h
  · exact readInstant_eq_none h

theorem moment_fresh {runId : String} {created : Instant} (version : UInt32)
    (h : 0 ≤ created.year ∧ created.year ≤ 9999) :
    (fresh runId created version).moment = toLex (↑created.key, runId) := by
  have hparsed := parsedTimestamp_fresh runId created version
  rw [parsedTimestamp, if_pos h] at hparsed
  rw [moment, hparsed]
  rfl

/-- New traces are in the order of their instants, those of one instant in the order of their run
ids. -/
theorem fresh_timestamps :
    (∀ runId (created : Instant) version, (fresh runId created version).parsedTimestamp =
      if 0 ≤ created.year ∧ created.year ≤ 9999 then some created else none) ∧
    (∀ i : Instant, 0 ≤ i.year ∧ i.year ≤ 9999 ↔
      -62167219200 ≤ i.seconds ∧ i.seconds < 253402300800) ∧
    ∀ runId runId' (i j : Instant) version version', 0 ≤ i.year ∧ i.year ≤ 9999 →
      0 ≤ j.year ∧ j.year ≤ 9999 →
        ((fresh runId i version).chronological (fresh runId' j version') = true ↔
          i.key < j.key ∨ i.key = j.key ∧ runId ≤ runId') := by
  refine ⟨parsedTimestamp_fresh, fun _ => Instant.year_iff, fun _ _ i j v w hi hj => ?_⟩
  rw [chronological_iff, moment_fresh v hi, moment_fresh w hj, Prod.Lex.toLex_le_toLex,
    WithBot.coe_lt_coe, WithBot.coe_inj]

/-- A leap second, and the last nanosecond of a year that has a sign. -/
example : (⟨78796799, 1500000000, by decide⟩ : Instant).text = "1972-06-30T23:59:60.500+00:00" ∧
    (⟨-62167219201, 999999999, by decide⟩ : Instant).text =
      "-0001-12-31T23:59:59.999999999+00:00" := by
  decide +kernel

end Exploration.Trace
