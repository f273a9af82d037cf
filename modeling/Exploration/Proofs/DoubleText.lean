import Mathlib
import Exploration.Decimal.Layout
import Exploration.Proofs.DoubleLiteral
import Exploration.Proofs.FiniteDoubles
import Exploration.Proofs.JsonNumber
import Exploration.Proofs.ShortestDecimal

/-!
# Written doubles read back

Each way to set out the digits of a decimal is a number of a JSON text with the same value
(`unsignedNumber_unsigned`). The shortest decimal of a double stands for the double, so that the
text of each finite double does (`readsBack_iff`).
-/

namespace Exploration.Json

open Decimal (isDigit ofDigits Literal Layout Scaled)

/-! ## Forms of a number -/

theorem unsignedNumber_fixed {negative : Bool} {ds fs : List Char}
    (hw : whole (ds ++ '.' :: fs) = some (ds, '.' :: fs)) (hne : fs ≠ [])
    (hfs : ∀ c ∈ fs, isDigit c = true) :
    unsignedNumber negative (ds ++ '.' :: fs) =
      some (doubleValue (.ofParts negative ds fs 0), []) := by
  simp [unsignedNumber, hw, fraction, digits_of_forall hne hfs, exponent, numberValue]

theorem exponent_signed (e : Int) :
    exponent ('e' :: (if e < 0 then '-' else '+') :: Decimal.digits e.natAbs) =
      some (some e, []) := by
  have hdigits : digits (Decimal.digits e.natAbs) = some (Decimal.digits e.natAbs, []) :=
    digits_of_forall (Decimal.digits_ne_nil _) fun _ => Decimal.isDigit_of_mem_digits
  have hread : ∀ negative, exponentDigits negative (Decimal.digits e.natAbs) =
      some (some (if negative then -e.natAbs else e.natAbs : Int), []) := by
    intro negative
    simp only [exponentDigits, hdigits, Option.map_some, Decimal.ofDigits_digits]
  split_ifs with h
  · refine (hread true).trans ?_
    rw [if_pos rfl, show (-e.natAbs : Int) = e by omega]
  · refine (hread false).trans ?_
    rw [if_neg Bool.false_ne_true, show (e.natAbs : Int) = e by omega]

theorem unsignedNumber_scientific {negative : Bool} {ds fs : List Char} {f : Option (List Char)}
    {e : Int} (hw : whole (ds ++ fs) = some (ds, fs))
    (hf : fraction fs = some (f, 'e' :: (if e < 0 then '-' else '+') :: Decimal.digits e.natAbs)) :
    unsignedNumber negative (ds ++ fs) =
      some (doubleValue (.ofParts negative ds (f.getD []) e), []) := by
  cases f <;> simp [unsignedNumber, hw, hf, exponent_signed, numberValue]

/-! ## Layouts -/

/-- The literal has the sign and stands for the number. -/
def Stands (l : Literal) (negative : Bool) (d : Scaled) : Prop :=
  l.negative = negative ∧ 0 < l.coefficient ∧ (l.coefficient * 10 ^ l.scale : ℚ) = d.value

theorem isDigit_of_mem_drop {n w : Nat} :
    ∀ c ∈ (Decimal.digits n).drop w, isDigit c = true :=
  fun _ hc => Decimal.isDigit_of_mem_digits (List.mem_of_mem_drop hc)

section Layouts

variable {negative : Bool} {d : Scaled} (hpos : 0 < d.coefficient)

include hpos

theorem stands_ofParts {ds fs : List Char} {e : Int} {j : Nat}
    (hcoefficient : ofDigits (ds ++ fs) = d.coefficient * 10 ^ j)
    (hscale : e - fs.length + j = d.scale) : Stands (.ofParts negative ds fs e) negative d := by
  refine ⟨rfl, ?_, ?_⟩
  · rw [Literal.ofParts, hcoefficient]
    positivity
  · rw [Literal.ofParts, hcoefficient, Scaled.value, ← hscale, zpow_add₀ (by norm_num),
      zpow_natCast]
    push_cast
    ring

theorem unsignedNumber_below_one {k : Nat}
    (hk : d.scale + (Decimal.digits d.coefficient).length + k = 0) :
    ∃ l : Literal, unsignedNumber negative
        ('0' :: '.' :: (List.replicate k '0' ++ Decimal.digits d.coefficient)) =
          some (doubleValue l, []) ∧ Stands l negative d := by
  refine ⟨_, @unsignedNumber_fixed negative ['0'] _ rfl ?_ ?_,
    @stands_ofParts _ _ hpos _ _ _ 0 ?_ ?_⟩
  · simp [Decimal.digits_ne_nil]
  · intro c hc
    rcases List.mem_append.1 hc with hc | hc
    · exact Decimal.isDigit_of_mem_zeros hc
    · exact Decimal.isDigit_of_mem_digits hc
  · have hzeros := Decimal.ofDigits_zeros (k + 1)
    rw [List.replicate_succ] at hzeros
    rw [List.singleton_append, ← List.cons_append, Decimal.ofDigits_append, hzeros,
      Decimal.ofDigits_digits]
    ring
  · rw [List.length_append, List.length_replicate]
    omega

theorem whole_digits_append {cs rest : List Char} (hcs : ∀ c ∈ cs, isDigit c = true)
    (hrest : ∀ c ∈ rest.head?, isDigit c = false) :
    whole (Decimal.digits d.coefficient ++ cs ++ rest) =
      some (Decimal.digits d.coefficient ++ cs, rest) := by
  refine whole_append_of_digits (by simp [Decimal.digits_ne_nil]) (fun c hc => ?_) ?_ hrest
  · rcases List.mem_append.1 hc with hc | hc
    · exact Decimal.isDigit_of_mem_digits hc
    · exact hcs c hc
  · rw [List.head?_append_of_ne_nil _ (Decimal.digits_ne_nil _)]
    exact Decimal.head_digits_ne_zero hpos

theorem unsignedNumber_whole {k : Nat} (hk : d.scale = k) :
    ∃ l : Literal, unsignedNumber negative
        (Decimal.digits d.coefficient ++ List.replicate k '0' ++ ['.', '0']) =
          some (doubleValue l, []) ∧ Stands l negative d := by
  refine ⟨_, unsignedNumber_fixed (whole_digits_append hpos ?_ ?_) ?_ ?_,
    @stands_ofParts _ _ hpos _ _ _ (k + 1) ?_ ?_⟩
  · exact fun c => Decimal.isDigit_of_mem_zeros
  · simp [isDigit]
  · simp
  · simp [isDigit]
  · have hzeros := Decimal.ofDigits_zeros (k + 1)
    rw [List.replicate_succ'] at hzeros
    rw [List.append_assoc, Decimal.ofDigits_append, hzeros, Decimal.ofDigits_digits]
    simp
  · rw [hk, List.length_singleton]
    push_cast
    ring

theorem whole_take_digits {w : Nat} (hw : 0 < w) {rest : List Char}
    (hrest : ∀ c ∈ rest.head?, isDigit c = false) :
    whole ((Decimal.digits d.coefficient).take w ++ rest) =
      some ((Decimal.digits d.coefficient).take w, rest) := by
  refine whole_append_of_digits ?_ ?_ ?_ hrest
  · simp [hw.ne', Decimal.digits_ne_nil]
  · exact fun c hc => Decimal.isDigit_of_mem_digits (List.mem_of_mem_take hc)
  · rw [List.head?_take, if_neg hw.ne']
    exact Decimal.head_digits_ne_zero hpos

theorem stands_take_drop {w : Nat} {e : Int}
    (hscale : e + w = d.scale + (Decimal.digits d.coefficient).length)
    (hw : w ≤ (Decimal.digits d.coefficient).length) :
    Stands (.ofParts negative ((Decimal.digits d.coefficient).take w)
      ((Decimal.digits d.coefficient).drop w) e) negative d := by
  refine @stands_ofParts _ _ hpos _ _ _ 0 ?_ ?_
  · rw [List.take_append_drop, Decimal.ofDigits_digits, pow_zero, mul_one]
  · rw [List.length_drop]
    omega

theorem unsignedNumber_inside {w : Nat} (hw : 0 < w)
    (hlt : w < (Decimal.digits d.coefficient).length)
    (hscale : w = d.scale + (Decimal.digits d.coefficient).length) :
    ∃ l : Literal, unsignedNumber negative
        ((Decimal.digits d.coefficient).take w ++ '.' :: (Decimal.digits d.coefficient).drop w) =
          some (doubleValue l, []) ∧ Stands l negative d := by
  refine ⟨_, unsignedNumber_fixed (whole_take_digits hpos hw (by simp [isDigit])) ?_
    isDigit_of_mem_drop, stands_take_drop hpos (by omega) hlt.le⟩
  simpa using hlt

theorem unsignedNumber_exponential {e : Int}
    (hscale : e + 1 = d.scale + (Decimal.digits d.coefficient).length) :
    ∃ l : Literal, unsignedNumber negative
        (Decimal.exponential (Decimal.digits d.coefficient) e) =
          some (doubleValue l, []) ∧ Stands l negative d := by
  have hlength := List.length_pos_iff.2 (Decimal.digits_ne_nil d.coefficient)
  have hstands := @stands_take_drop negative _ hpos 1 e (by exact_mod_cast hscale) hlength
  unfold Decimal.exponential
  dsimp only
  by_cases hone : (Decimal.digits d.coefficient).length ≤ 1
  · rw [if_pos hone, List.append_nil]
    rw [List.drop_eq_nil_of_le hone] at hstands
    exact ⟨_, @unsignedNumber_scientific _ _ _ none _
      (whole_take_digits hpos Nat.one_pos (by simp [isDigit])) rfl, hstands⟩
  · rw [if_neg hone, List.append_assoc]
    refine ⟨_, @unsignedNumber_scientific _ _ _ (some _) _
      (whole_take_digits hpos Nat.one_pos (by simp [isDigit])) ?_, hstands⟩
    rw [List.cons_append, fraction, digits_eq_some.2 ⟨rfl, ?_, isDigit_of_mem_drop, ?_⟩]
    · rfl
    · rwa [Ne, List.drop_eq_nil_iff]
    · simp [isDigit]

/-- However its digits are set out, a number is read as a literal that stands for it. -/
theorem unsignedNumber_unsigned : ∃ l : Literal,
    unsignedNumber negative (Layout.exact.unsigned d) = some (doubleValue l, []) ∧
      Stands l negative d := by
  have hlength := List.length_pos_iff.2 (Decimal.digits_ne_nil d.coefficient)
  unfold Layout.unsigned
  dsimp only
  split_ifs
  · unfold Layout.place
    dsimp only
    split_ifs with hneg hwhole
    · exact unsignedNumber_below_one hpos (by omega)
    · exact unsignedNumber_whole hpos (by omega)
    · exact unsignedNumber_inside hpos (by omega) (by omega) (by omega)
  · exact unsignedNumber_exponential hpos (by omega)

end Layouts

/-! ## Doubles -/

theorem number_signed {negative : Bool} {cs r : List Char} {v : Value}
    (h : unsignedNumber negative cs = some (v, r)) :
    number (if negative then '-' :: cs else cs) = some (v, r) := by
  cases negative
  · exact number_of_unsignedNumber h
  · exact h

/-- What rounds to a double is read as that double. -/
theorem toDouble_eq {l : Literal} {x : Float} {m : ℕ} {e : ℤ}
    (hparts : Double.parts x = .finite l.negative m e) (hm : 0 < m) (hc : Double.Canonical m e)
    (he : e ≤ 971) (hl : 0 < l.coefficient)
    (hround : Double.round (l.coefficient * 10 ^ l.scale) = m * 2 ^ e) : l.toDouble = x := by
  have hpos : (0 : ℚ) < m * 2 ^ e := mul_pos (Nat.cast_pos.2 hm) (Double.two_zpow_pos e)
  obtain ⟨m', e', hm', hu, hc', -, hvalue⟩ := Double.finite_of_nearest (Double.nearest_toDouble hl)
    (hround ▸ hpos) (hround ▸ hc.lt_top he)
  obtain ⟨rfl, rfl⟩ := hc'.eq_of_value_eq hm' hm hc (hvalue.trans hround)
  refine Double.eq_of_parts ?_ hparts
  rw [Double.parts_eq, hu, Double.Parts.ofUnpacked]
  cases l.negative <;> rfl

theorem readsBack_zero (negative : Bool) {x : Float}
    (h : Double.parts x = .finite negative 0 Double.leastExponent) : ReadsBack x := by
  have hzero : x = if negative then -0.0 else 0.0 :=
    Double.eq_of_parts h (by cases negative <;> rfl)
  rw [hzero]
  cases negative
  · rfl
  · rfl

theorem readsBack_of_isFinite {x : Float} (h : Double.isFinite x = true) : ReadsBack x := by
  obtain ⟨negative, m, e, hparts⟩ := Double.parts_of_isFinite h
  rcases Double.canonical_of_parts hparts with ⟨rfl, rfl⟩ | ⟨hm, hc, he⟩
  · exact readsBack_zero negative hparts
  have hround : Double.round (Decimal.shortest .even m e).value = m * 2 ^ e :=
    Decimal.round_shortest hc hm
  have hpos : (0 : ℚ) < m * 2 ^ e := mul_pos (Nat.cast_pos.2 hm) (Double.two_zpow_pos e)
  have hd : 0 < (Decimal.shortest .even m e).coefficient := by
    refine Nat.pos_of_ne_zero fun hzero => ?_
    rw [Scaled.value, hzero, Nat.cast_zero, zero_mul, Double.round_zero] at hround
    exact hpos.ne hround
  obtain ⟨l, hread, rfl, hl, hvalue⟩ := @unsignedNumber_unsigned negative _ hd
  have hx := toDouble_eq hparts hm hc he hl (hvalue ▸ hround)
  have hdouble : doubleValue l = .double x := by
    rw [doubleValue, hx, if_pos h]
  unfold ReadsBack double Decimal.Layout.write
  rw [if_pos h, hparts]
  exact number_signed (hdouble ▸ hread)

/-- Just the finite doubles have a text that stands for them. -/
theorem readsBack_iff {x : Float} : ReadsBack x ↔ Double.isFinite x = true := by
  refine ⟨fun h => ?_, readsBack_of_isFinite⟩
  by_contra hx
  rw [ReadsBack, double, if_neg hx] at h
  cases h

end Exploration.Json
