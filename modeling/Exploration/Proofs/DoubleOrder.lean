import Mathlib

/-!
# The order of doubles

Apart from NaN, doubles are ordered by a key: the side of zero they are on, then exponent and
mantissa (`lt_iff`, `le_iff`). Both zeros have the same key.
-/

namespace Exploration.Double

open Float.Model (UnpackedFloat)
open Float.Model.UnpackedFloat

/-- Below zero the greater exponents and mantissas come first. -/
def key : UnpackedFloat → ℤ ×ₗ ℤ ×ₗ ℤ
  | .notANumber => toLex (0, toLex (0, 0))
  | .infinity .negative => toLex (-2, toLex (0, 0))
  | .infinity .positive => toLex (2, toLex (0, 0))
  | .zero _ => toLex (0, toLex (0, 0))
  | .finite .negative m e _ => toLex (-1, toLex (-e, -m))
  | .finite .positive m e _ => toLex (1, toLex (e, m))

theorem then_eq_lt {e e' : ℤ} {m m' : ℕ} :
    (compare e e').then (compare m m') = .lt ↔ e < e' ∨ e = e' ∧ m < m' := by
  rw [Ordering.then_eq_lt, compare_lt_iff_lt, compare_eq_iff_eq, compare_lt_iff_lt]

theorem then_eq_gt {e e' : ℤ} {m m' : ℕ} :
    (compare e e').then (compare m m') = .gt ↔ e' < e ∨ e = e' ∧ m' < m := by
  rw [Ordering.then_eq_gt, compare_gt_iff_gt, compare_eq_iff_eq, compare_gt_iff_gt]

theorem compare_eq_lt {a b : UnpackedFloat} (ha : a.isNaN = false) (hb : b.isNaN = false) :
    a.compare b = some .lt ↔ key a < key b := by
  rcases a with (_ | _) | _ | s | ⟨_ | _, m, e, hm⟩ <;>
    rcases b with (_ | _) | _ | s' | ⟨_ | _, m', e', hm'⟩ <;>
    simp [UnpackedFloat.compare, UnpackedFloat.isNaN, key, Prod.Lex.toLex_lt_toLex, then_eq_lt,
      then_eq_gt] at ha hb ⊢
  all_goals rfl

theorem compare_eq_eq {a b : UnpackedFloat} (ha : a.isNaN = false) (hb : b.isNaN = false) :
    a.compare b = some .eq ↔ key a = key b := by
  rcases a with (_ | _) | _ | s | ⟨_ | _, m, e, hm⟩ <;>
    rcases b with (_ | _) | _ | s' | ⟨_ | _, m', e', hm'⟩ <;>
    simp [UnpackedFloat.compare, UnpackedFloat.isNaN, key] at ha hb ⊢
  all_goals rfl

/-- NaN compares with nothing. -/
theorem isNaN_of_compare {a b : UnpackedFloat} {o : Ordering} (h : a.compare b = some o) :
    a.isNaN = false ∧ b.isNaN = false := by
  rcases a with (_ | _) | _ | s | ⟨_ | _, m, e, hm⟩ <;>
    rcases b with (_ | _) | _ | s' | ⟨_ | _, m', e', hm'⟩ <;>
    first | exact ⟨rfl, rfl⟩ | cases h

theorem lt_iff (x y : Float) : x < y ↔ x.isNaN = false ∧ y.isNaN = false ∧
    key x.toModel.unpack < key y.toModel.unpack := by
  have hlt : x < y ↔ x.toModel.unpack.compare y.toModel.unpack = some .lt := by
    show decide (x.toModel < y.toModel) = true ↔ _
    rw [decide_eq_true_iff]
    exact beq_iff_eq
  rw [hlt]
  refine ⟨fun h => ?_, fun ⟨hx, hy, h⟩ => (compare_eq_lt hx hy).2 h⟩
  obtain ⟨hx, hy⟩ := isNaN_of_compare h
  exact ⟨hx, hy, (compare_eq_lt hx hy).1 h⟩

theorem le_iff (x y : Float) : x ≤ y ↔ x.isNaN = false ∧ y.isNaN = false ∧
    key x.toModel.unpack ≤ key y.toModel.unpack := by
  have hle : x ≤ y ↔ x.toModel.unpack.compare y.toModel.unpack = some .lt ∨
      x.toModel.unpack.compare y.toModel.unpack = some .eq := by
    show decide (x.toModel ≤ y.toModel) = true ↔ _
    rw [decide_eq_true_iff]
    show (x.toModel.unpack.compare y.toModel.unpack).any (·.isLE) = true ↔ _
    rcases x.toModel.unpack.compare y.toModel.unpack with _ | _ | _ | _ <;> simp
  rw [hle]
  constructor
  · rintro (h | h) <;> obtain ⟨hx, hy⟩ := isNaN_of_compare h
    · exact ⟨hx, hy, ((compare_eq_lt hx hy).1 h).le⟩
    · exact ⟨hx, hy, ((compare_eq_eq hx hy).1 h).le⟩
  · rintro ⟨hx, hy, h⟩
    exact h.lt_or_eq.imp (compare_eq_lt hx hy).2 (compare_eq_eq hx hy).2

theorem lt_of_le_of_lt {x y z : Float} (hxy : x ≤ y) (hyz : y < z) : x < z := by
  rw [le_iff] at hxy
  rw [lt_iff] at hyz ⊢
  exact ⟨hxy.1, hyz.2.1, hxy.2.2.trans_lt hyz.2.2⟩

protected theorem lt_irrefl (x : Float) : ¬ x < x := fun h =>
  lt_irrefl _ ((lt_iff x x).1 h).2.2

protected theorem lt_trans {x y z : Float} (hxy : x < y) (hyz : y < z) : x < z := by
  rw [lt_iff] at hxy hyz ⊢
  exact ⟨hxy.1, hyz.2.1, hxy.2.2.trans hyz.2.2⟩

theorem le_iff_not_lt {x y : Float} (hx : x.isNaN = false) (hy : y.isNaN = false) :
    y ≤ x ↔ ¬ x < y := by
  simp only [lt_iff, le_iff, hx, hy, true_and, not_lt]

end Exploration.Double
