import Mathlib.Tactic.Linarith
import Mathlib.Tactic.Ring
import SegmentQuery.Decimal.Basic
/-!
# The order of decimals

Decimals are compared by cross-multiplying with powers of ten, which
orders them by the rational numbers that they stand for. Two decimals
tie exactly when dropping the zeros at the end of their fractions leaves
the same decimal, so `normalize` picks one representative of each number.
-/


namespace SegmentQuery

open Std (TransCmp OrientedCmp OrientedOrd)

namespace Number

theorem tenPow_eq (n : Nat) : tenPow n = 10 ^ n := rfl

theorem tenPow_pos (n : Nat) : 0 < tenPow n := Nat.pow_pos (by decide)

theorem tenPow_add (m n : Nat) : tenPow (m + n) = tenPow m * tenPow n := Nat.pow_add 10 m n

theorem tenPow_succ (n : Nat) : tenPow (n + 1) = 10 * tenPow n := Nat.pow_succ'

end Number

namespace Scaled

/-- A comparison says `≤` exactly when the cross products do. -/
theorem isLE_compare {x y : Scaled} :
    (x.compare y).isLE ↔
      x.coeff * (Number.tenPow y.scale : Int) ≤ y.coeff * (Number.tenPow x.scale : Int) :=
  Int.isLE_compare

instance : TransCmp Scaled.compare where
  eq_swap {_ _} := @OrientedOrd.eq_swap Int _ _ _ _
  isLE_trans {x y z} hxy hyz := by
    rw [isLE_compare] at hxy hyz ⊢
    have hx : (0 : Int) < Number.tenPow x.scale := by exact_mod_cast Number.tenPow_pos _
    have hy : (0 : Int) < Number.tenPow y.scale := by exact_mod_cast Number.tenPow_pos _
    have hz : (0 : Int) < Number.tenPow z.scale := by exact_mod_cast Number.tenPow_pos _
    -- the middle scale is multiplied in and cancelled at the end
    refine le_of_mul_le_mul_right ?_ hy
    calc x.coeff * (Number.tenPow z.scale : Int) * Number.tenPow y.scale
        = x.coeff * Number.tenPow y.scale * Number.tenPow z.scale := by ring
      _ ≤ y.coeff * Number.tenPow x.scale * Number.tenPow z.scale :=
          mul_le_mul_of_nonneg_right hxy hz.le
      _ = y.coeff * Number.tenPow z.scale * Number.tenPow x.scale := by ring
      _ ≤ z.coeff * Number.tenPow y.scale * Number.tenPow x.scale :=
          mul_le_mul_of_nonneg_right hyz hx.le
      _ = z.coeff * Number.tenPow x.scale * Number.tenPow y.scale := by ring

/-! ## Representatives -/

/-- What `stripZeros` leaves: the same number, with no zero at the end of
its fraction. -/
theorem stripZeros_spec (coeff : Int) (scale : Nat) :
    ∃ c s, stripZeros coeff scale = .ofCoeff c s ∧ s ≤ scale ∧
      coeff = c * (Number.tenPow (scale - s) : Int) ∧ (s = 0 ∨ c % 10 ≠ 0) := by
  induction scale generalizing coeff with
  | zero => exact ⟨coeff, 0, rfl, Nat.le_refl 0, by simp [Number.tenPow], .inl rfl⟩
  | succ scale ih =>
    unfold stripZeros
    split
    · rename_i hzero
      obtain ⟨c, s, heq, hle, hmul, hlast⟩ := ih (coeff / 10)
      refine ⟨c, s, heq, by omega, ?_, hlast⟩
      have hten : coeff = coeff / 10 * 10 := by omega
      have hpow : (Number.tenPow (scale + 1 - s) : Int) = Number.tenPow (scale - s) * 10 := by
        rw [show scale + 1 - s = scale - s + 1 by omega, Number.tenPow_add]
        norm_num [Number.tenPow_eq]
      rw [hten, hmul, hpow]
      ring
    · rename_i hlast
      exact ⟨coeff, scale + 1, rfl, Nat.le_refl _, by simp [Number.tenPow], .inr hlast⟩

/-- The zeros that `stripZeros` drops do not count. -/
theorem compare_stripZeros (coeff : Int) (scale : Nat) :
    (Scaled.ofCoeff coeff scale).compare (stripZeros coeff scale) = .eq := by
  obtain ⟨c, s, heq, hle, hmul, -⟩ := stripZeros_spec coeff scale
  rw [heq]
  unfold compare
  rw [coeff_ofCoeff, coeff_ofCoeff, compare_eq_iff_eq]
  have hpow : Number.tenPow scale = Number.tenPow (scale - s) * Number.tenPow s := by
    rw [← Number.tenPow_add, Nat.sub_add_cancel hle]
  change coeff * (Number.tenPow s : Int) = c * (Number.tenPow scale : Int)
  rw [hmul, hpow]
  push_cast
  ring

/-- Between two spellings of one number without zeros at the end, the
scale cannot grow. -/
theorem scale_le_of_tie {c c' : Int} {s s' : Nat} (hlast : s = 0 ∨ c % 10 ≠ 0)
    (h : c * (Number.tenPow s' : Int) = c' * (Number.tenPow s : Int)) : s ≤ s' := by
  by_contra hlt
  obtain ⟨d, rfl⟩ : ∃ d, s = s' + (d + 1) := ⟨s - s' - 1, by omega⟩
  have hpos : (0 : Int) < Number.tenPow s' := by exact_mod_cast Number.tenPow_pos _
  have hten : c = c' * Number.tenPow d * 10 := by
    apply mul_right_cancel₀ hpos.ne'
    rw [h, Number.tenPow_add, Number.tenPow_add]
    norm_num [Number.tenPow_eq]
    ring
  rcases hlast with h0 | h0
  · omega
  · exact h0 (by rw [hten]; omega)

/-- **One number has one spelling without zeros at the end.** -/
theorem eq_of_tie {c c' : Int} {s s' : Nat} (hlast : s = 0 ∨ c % 10 ≠ 0)
    (hlast' : s' = 0 ∨ c' % 10 ≠ 0)
    (h : c * (Number.tenPow s' : Int) = c' * (Number.tenPow s : Int)) : c = c' ∧ s = s' := by
  have hs : s = s' := le_antisymm (scale_le_of_tie hlast h) (scale_le_of_tie hlast' h.symm)
  subst hs
  have hpos : (0 : Int) < Number.tenPow s := by exact_mod_cast Number.tenPow_pos _
  exact ⟨mul_right_cancel₀ hpos.ne' h, rfl⟩

end Scaled

namespace Decimal

instance : TransCmp Decimal.compare where
  eq_swap {_ _} := @OrientedCmp.eq_swap _ Scaled.compare _ _ _
  isLE_trans {_ _ _} := @TransCmp.isLE_trans _ Scaled.compare _ _ _ _

@[ext] theorem ext_toScaled {x y : Decimal} (h : x.toScaled = y.toScaled) : x = y := by
  cases x; cases y; cases h; rfl

/-- A decimal ties with its representative. -/
theorem compare_normalize (x : Decimal) : x.compare x.normalize = .eq := by
  have h := Scaled.compare_stripZeros x.coeff x.scale
  unfold Scaled.compare at h
  rw [Scaled.coeff_ofCoeff] at h
  exact h

/-- **Decimals tie exactly when they have the same representative.** -/
theorem compare_eq_iff {x y : Decimal} : x.compare y = .eq ↔ x.normalize = y.normalize := by
  constructor
  · intro h
    have hxy : x.normalize.compare y.normalize = .eq :=
      TransCmp.eq_trans (OrientedCmp.eq_symm (compare_normalize x))
        (TransCmp.eq_trans h (compare_normalize y))
    apply ext_toScaled
    obtain ⟨c, s, heq, -, -, hlast⟩ := Scaled.stripZeros_spec x.coeff x.scale
    obtain ⟨c', s', heq', -, -, hlast'⟩ := Scaled.stripZeros_spec y.coeff y.scale
    have hx : x.normalize.toScaled = .ofCoeff c s := heq
    have hy : y.normalize.toScaled = .ofCoeff c' s' := heq'
    unfold Decimal.compare Scaled.compare at hxy
    rw [hx, hy, Scaled.coeff_ofCoeff, Scaled.coeff_ofCoeff, compare_eq_iff_eq] at hxy
    obtain ⟨rfl, rfl⟩ := Scaled.eq_of_tie hlast hlast' hxy
    rw [hx, hy]
  · intro h
    exact TransCmp.eq_trans (compare_normalize x) (h ▸ OrientedCmp.eq_symm (compare_normalize y))

/-- Normalizing twice is normalizing once. -/
@[simp] theorem normalize_normalize (x : Decimal) : x.normalize.normalize = x.normalize :=
  (compare_eq_iff.1 (compare_normalize x)).symm

end Decimal

end SegmentQuery
