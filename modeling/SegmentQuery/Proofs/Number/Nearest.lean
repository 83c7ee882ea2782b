import Mathlib.Order.MinMax
import Mathlib.Tactic.SplitIfs
import SegmentQuery.Number.Double
/-!
# Rounding keeps the order

The nearest pattern grows with the number, and the double of an integer
grows with the integer: a comparison of doubles never contradicts the
integers that they come from. Where two integers have doubles of one rank
they have the same double, since an integer is never a negative zero or a
NaN. The lesser and the greater of two such doubles are therefore those
of the lesser and the greater integer.
-/


namespace SegmentQuery

namespace Number

theorem twoPow_pos (n : Nat) : 0 < twoPow n := Nat.two_pow_pos n

theorem twoPow_add (m n : Nat) : twoPow (m + n) = twoPow m * twoPow n := Nat.pow_add 2 m n

theorem twoPow_mono {m n : Nat} (h : m ≤ n) : twoPow m ≤ twoPow n :=
  Nat.pow_le_pow_right Nat.two_pos h

namespace Layout

/-! ## Quotients -/

theorem roundDiv_eq (n d : Nat) : roundDiv n d =
    if 2 * (n % d) < d then n / d
    else if d < 2 * (n % d) then n / d + 1
    else if n / d % 2 = 0 then n / d else n / d + 1 := rfl

/-- Dividing a multiple needs no rounding. -/
theorem roundDiv_mul (k : Nat) {d : Nat} (hd : 0 < d) : roundDiv (k * d) d = k := by
  rw [roundDiv_eq, Nat.mul_mod_left, Nat.mul_div_left k hd, if_pos hd]

/-- A rounded quotient is the quotient or one more. -/
theorem le_roundDiv (n d : Nat) : n / d ≤ roundDiv n d := by
  rw [roundDiv_eq]
  split_ifs <;> omega

theorem roundDiv_le (n d : Nat) : roundDiv n d ≤ n / d + 1 := by
  rw [roundDiv_eq]
  split_ifs <;> omega

/-- **Rounded quotients grow with the dividend.** -/
theorem roundDiv_mono (d : Nat) : Monotone (roundDiv · d) := by
  intro n n' h
  have hquot : n / d ≤ n' / d := Nat.div_le_div_right h
  by_cases hless : n / d < n' / d
  · exact (roundDiv_le n d).trans (Nat.le_trans hless (le_roundDiv n' d))
  · -- the quotients are one, and the remainders decide
    have heq : n / d = n' / d := by omega
    have hn := Nat.div_add_mod n d
    have hn' := Nat.div_add_mod n' d
    rw [heq] at hn
    have hrem : n % d ≤ n' % d := by omega
    show roundDiv n d ≤ roundDiv n' d
    rw [roundDiv_eq, roundDiv_eq, heq]
    split_ifs <;> omega

/-! ## Magnitudes -/

/-- The significand of `m · 2 ^ e` in units of `2 ^ ulp`. -/
def rounded (ulp e : Int) (m : Nat) : Nat :=
  if ulp ≤ e then m * twoPow (e - ulp).toNat else roundDiv m (twoPow (ulp - e).toNat)

theorem rounded_mono (ulp e : Int) : Monotone (rounded ulp e) := by
  intro m m' h
  unfold rounded
  split
  · exact Nat.mul_le_mul_right _ h
  · exact roundDiv_mono _ h

/-- A power of two that is no less than the unit is not rounded. -/
theorem rounded_twoPow {ulp e : Int} {n k : Nat} (h : e + n = ulp + k) :
    rounded ulp e (twoPow n) = twoPow k := by
  unfold rounded
  split
  · rw [← twoPow_add]
    congr 1
    omega
  · rw [show n = k + (ulp - e).toNat by omega, twoPow_add]
    exact roundDiv_mul _ (twoPow_pos _)

/-- The unit in which a number of this bit length is written. -/
def ulp (l : Layout) (e : Int) (length : Nat) : Int :=
  max (e + length - (l.fractionBits + 1)) l.leastExponent

theorem magnitude_of_ne_zero (l : Layout) {m : Nat} (hm : m ≠ 0) (e : Int) :
    l.magnitude m e = min ((l.ulp e (m.log2 + 1) - l.leastExponent).toNat * twoPow l.fractionBits +
      rounded (l.ulp e (m.log2 + 1)) e m) l.infinity := by
  unfold magnitude
  rw [if_neg hm]
  rfl

/-- A significand has at most one bit more than the fraction has, where
rounding carries. -/
theorem rounded_le (l : Layout) (e : Int) (m : Nat) :
    rounded (l.ulp e (m.log2 + 1)) e m ≤ twoPow (l.fractionBits + 1) := by
  -- in the unit of its length, a power of two above the number is the bound
  have hpow : m ≤ twoPow (m.log2 + 1) := Nat.lt_log2_self.le
  obtain ⟨more, hmore⟩ : ∃ more : Nat,
      l.ulp e (m.log2 + 1) = e + (m.log2 + 1 : Nat) - (l.fractionBits + 1) + more :=
    ⟨(l.ulp e (m.log2 + 1) - (e + (m.log2 + 1 : Nat) - (l.fractionBits + 1))).toNat, by
      unfold ulp; omega⟩
  have hfit : m ≤ twoPow (m.log2 + 1 + more) := hpow.trans (twoPow_mono (Nat.le_add_right _ _))
  refine (rounded_mono _ _ hfit).trans_eq (rounded_twoPow ?_)
  rw [hmore]
  push_cast
  omega

/-- Above the least unit a significand has a bit more than the
fraction. -/
theorem le_rounded (l : Layout) {e : Int} {m : Nat} (hm : m ≠ 0)
    (habove : l.leastExponent < l.ulp e (m.log2 + 1)) :
    twoPow l.fractionBits ≤ rounded (l.ulp e (m.log2 + 1)) e m := by
  have hulp : l.ulp e (m.log2 + 1) = e + (m.log2 + 1 : Nat) - (l.fractionBits + 1) := by
    unfold ulp at habove ⊢
    omega
  have hpow : twoPow m.log2 ≤ m := Nat.log2_self_le hm
  refine (rounded_twoPow ?_).symm.trans_le (rounded_mono _ _ hpow)
  rw [hulp]
  push_cast
  omega

/-- **The nearest pattern grows with the number.** -/
theorem magnitude_mono (l : Layout) (e : Int) : Monotone (l.magnitude · e) := by
  intro m m' h
  show l.magnitude m e ≤ l.magnitude m' e
  by_cases hm : m = 0
  · rw [hm, magnitude, if_pos rfl]
    exact Nat.zero_le _
  · have hm' : m' ≠ 0 := by omega
    rw [magnitude_of_ne_zero l hm, magnitude_of_ne_zero l hm']
    refine min_le_min_right _ ?_
    have hlength : m.log2 ≤ m'.log2 := (Nat.le_log2 hm').2 ((Nat.log2_self_le hm).trans h)
    have hulp : l.ulp e (m.log2 + 1) ≤ l.ulp e (m'.log2 + 1) := by
      unfold ulp
      omega
    rcases hulp.eq_or_lt with heq | hlt
    · -- in one unit, rounding keeps the order
      rw [heq]
      exact Nat.add_le_add_left (rounded_mono _ _ h) _
    · -- a greater unit starts where the lesser one ends
      have hleast : l.leastExponent ≤ l.ulp e (m.log2 + 1) := le_max_right _ _
      have hover := rounded_le l e m
      have hunder := le_rounded l hm' (hleast.trans_lt hlt)
      rw [twoPow_add] at hover
      obtain ⟨k, hk⟩ : ∃ k, (l.ulp e (m'.log2 + 1) - l.leastExponent).toNat =
          (l.ulp e (m.log2 + 1) - l.leastExponent).toNat + 1 + k := Nat.exists_eq_add_of_le (by omega)
      rw [hk, Nat.add_mul, Nat.add_mul, Nat.one_mul]
      have htwo : twoPow 1 = 2 := rfl
      rw [htwo] at hover
      omega

theorem magnitude_le (l : Layout) (m : Nat) (e : Int) : l.magnitude m e ≤ l.infinity := by
  by_cases hm : m = 0
  · rw [hm, magnitude, if_pos rfl]
    exact Nat.zero_le _
  · rw [magnitude_of_ne_zero l hm]
    exact min_le_right _ _

end Layout

end Number

open Number

namespace Double

/-! ## Doubles of integers -/

/-- The magnitude of the double of an integer. -/
theorem magnitude_lt_signBit (i : Int) :
    Layout.double.magnitude i.natAbs 0 < Layout.double.signBit :=
  (Layout.magnitude_le _ _ _).trans_lt (by decide)

theorem toNat_bits_ofInt (i : Int) : (ofInt i).bits.toNat =
    (if i < 0 then Layout.double.signBit else 0) + Layout.double.magnitude i.natAbs 0 := by
  have hlt := magnitude_lt_signBit i
  have hsize : UInt64.size = Layout.double.signBit + Layout.double.signBit := by decide
  have hpattern : Layout.double.pattern (.finite (decide (i < 0)) i.natAbs 0) =
      (if i < 0 then Layout.double.signBit else 0) + Layout.double.magnitude i.natAbs 0 := by
    simp [Layout.pattern]
  have hbits : Layout.double.pattern (.finite (decide (i < 0)) i.natAbs 0) < UInt64.size := by
    rw [hpattern, hsize]
    split <;> omega
  exact (UInt64.toNat_ofNat_of_lt' hbits).trans hpattern

/-- The double of an integer is a number. -/
@[simp] theorem isNan_ofInt (i : Int) : (ofInt i).isNan = false := by
  have hlt := magnitude_lt_signBit i
  have hle := Layout.magnitude_le Layout.double i.natAbs 0
  have hmod : (ofInt i).bits.toNat % Layout.double.signBit =
      Layout.double.magnitude i.natAbs 0 := by
    rw [toNat_bits_ofInt]
    split
    · rw [Nat.add_mod_left, Nat.mod_eq_of_lt hlt]
    · rw [Nat.zero_add, Nat.mod_eq_of_lt hlt]
  rw [isNan, hmod]
  exact decide_eq_false (Nat.not_lt.2 hle)

theorem rank_ofInt (i : Int) : (ofInt i).rank =
    if i < 0 then -(Layout.double.magnitude i.natAbs 0 : Int)
    else (Layout.double.magnitude i.natAbs 0 : Int) := by
  have hlt := magnitude_lt_signBit i
  rw [rank, signedMagnitude, toNat_bits_ofInt]
  split
  · rw [if_neg (by omega), Nat.add_sub_cancel_left]
  · rw [if_pos (by omega), Nat.zero_add]

/-- **The double of an integer grows with the integer.** -/
theorem rank_ofInt_mono {a b : Int} (h : a ≤ b) : (ofInt a).rank ≤ (ofInt b).rank := by
  have hmono {m n : Nat} (hmn : m ≤ n) := Layout.magnitude_mono Layout.double 0 hmn
  rw [rank_ofInt, rank_ofInt]
  split <;> split
  · have := hmono (show b.natAbs ≤ a.natAbs by omega)
    dsimp only at this
    omega
  · omega
  · omega
  · have := hmono (show a.natAbs ≤ b.natAbs by omega)
    dsimp only at this
    omega

/-- Numbers of one rank are one, but for the zeros. -/
theorem eq_of_rank_eq {x y : Double} (h : x.rank = y.rank) (hne : x.rank ≠ 0) : x = y := by
  have hbits : x.bits.toNat = y.bits.toNat := by
    unfold rank signedMagnitude at h hne
    split_ifs at h hne <;> omega
  obtain ⟨x⟩ := x
  obtain ⟨y⟩ := y
  exact congrArg Double.mk (UInt64.toNat_inj.1 hbits)

/-- Only the double of 0 is a zero. -/
theorem rank_ofInt_eq_zero {i : Int} (h : (ofInt i).rank = 0) : i = 0 := by
  by_contra hne
  have hone : Layout.double.magnitude 1 0 ≠ 0 := by decide
  have hle : Layout.double.magnitude 1 0 ≤ Layout.double.magnitude i.natAbs 0 :=
    Layout.magnitude_mono Layout.double 0 (show 1 ≤ i.natAbs by omega)
  rw [rank_ofInt] at h
  split at h <;> omega

/-- **Doubles of integers that have one rank are one double.** -/
theorem ofInt_eq_of_rank_eq {a b : Int} (h : (ofInt a).rank = (ofInt b).rank) :
    ofInt a = ofInt b := by
  by_cases hzero : (ofInt a).rank = 0
  · rw [rank_ofInt_eq_zero hzero, rank_ofInt_eq_zero (h.symm.trans hzero)]
  · exact eq_of_rank_eq h hzero

theorem rank_ofInt_le_infinity (i : Int) : (ofInt i).rank ≤ infinity.rank := by
  have hle := Layout.magnitude_le Layout.double i.natAbs 0
  have hrank : infinity.rank = Layout.double.infinity := by decide
  rw [rank_ofInt, hrank]
  split <;> omega

theorem negInfinity_le_rank_ofInt (i : Int) : negInfinity.rank ≤ (ofInt i).rank := by
  have hle := Layout.magnitude_le Layout.double i.natAbs 0
  have hrank : negInfinity.rank = -(Layout.double.infinity : Int) := by decide
  rw [rank_ofInt, hrank]
  split <;> omega

/-! ## Comparisons -/

theorem lt_eq_of_not_nan {x y : Double} (hx : x.isNan = false) (hy : y.isNan = false) :
    x.lt y = decide (x.rank < y.rank) := by simp [lt, hx, hy]

theorem le_eq_of_not_nan {x y : Double} (hx : x.isNan = false) (hy : y.isNan = false) :
    x.le y = decide (x.rank ≤ y.rank) := by simp [le, hx, hy]

/-- Of two numbers one is the lesser exactly where the other one is not at
most as great. -/
theorem lt_eq_not_le {x y : Double} (hx : x.isNan = false) (hy : y.isNan = false) :
    x.lt y = !y.le x := by
  rw [lt_eq_of_not_nan hx hy, le_eq_of_not_nan hy hx, ← decide_not]
  exact decide_eq_decide.2 Int.not_le.symm

variable {a b i : Int}

/-- No double of an integer is below that of a lesser one. -/
theorem not_ofInt_lt (h : b ≤ a) : (ofInt a).lt (ofInt b) = false := by
  rw [lt_eq_of_not_nan (isNan_ofInt a) (isNan_ofInt b)]
  exact decide_eq_false (Int.not_lt.2 (rank_ofInt_mono h))

theorem ofInt_le (h : a ≤ b) : (ofInt a).le (ofInt b) = true := by
  rw [le_eq_of_not_nan (isNan_ofInt a) (isNan_ofInt b)]
  exact decide_eq_true (rank_ofInt_mono h)

/-- A double of an integer that is not below that of a greater one is the
same. -/
theorem ofInt_eq_of_not_lt (h : a ≤ b) (hlt : (ofInt a).lt (ofInt b) = false) :
    ofInt a = ofInt b := by
  rw [lt_eq_of_not_nan (isNan_ofInt a) (isNan_ofInt b), decide_eq_false_iff_not] at hlt
  exact ofInt_eq_of_rank_eq (Int.le_antisymm (rank_ofInt_mono h) (Int.not_lt.1 hlt))

theorem ofInt_eq_of_le (h : b ≤ a) (hle : (ofInt a).le (ofInt b) = true) : ofInt a = ofInt b := by
  rw [le_eq_of_not_nan (isNan_ofInt a) (isNan_ofInt b), decide_eq_true_iff] at hle
  exact ofInt_eq_of_rank_eq (Int.le_antisymm hle (rank_ofInt_mono h))

/-- A double of an integer that is not below infinity is infinity. -/
theorem ofInt_eq_infinity (hlt : (ofInt i).lt infinity = false) : ofInt i = infinity := by
  rw [lt_eq_of_not_nan (isNan_ofInt i) (by decide), decide_eq_false_iff_not, Int.not_lt] at hlt
  have heq := Int.le_antisymm hlt (rank_ofInt_le_infinity i)
  exact (eq_of_rank_eq heq (by decide)).symm

theorem ofInt_eq_negInfinity (hle : (ofInt i).le negInfinity = true) : ofInt i = negInfinity := by
  rw [le_eq_of_not_nan (isNan_ofInt i) (by decide), decide_eq_true_iff] at hle
  have heq := Int.le_antisymm (negInfinity_le_rank_ofInt i) hle
  exact (eq_of_rank_eq heq (by decide)).symm

/-- **The lesser double is that of the lesser integer.** -/
theorem min_ofInt (a b : Int) : (ofInt a).min (ofInt b) = ofInt (Min.min a b) := by
  rw [Double.min, isNan_ofInt, isNan_ofInt, if_neg Bool.false_ne_true, if_neg Bool.false_ne_true]
  rcases Int.le_total a b with h | h
  · rw [not_ofInt_lt h, if_neg Bool.false_ne_true, Int.min_eq_left h]
  · rw [Int.min_eq_right h]
    split
    · rfl
    · rename_i hlt
      exact (ofInt_eq_of_not_lt h (Bool.eq_false_iff.2 hlt)).symm

/-- **The greater double is that of the greater integer.** -/
theorem max_ofInt (a b : Int) : (ofInt a).max (ofInt b) = ofInt (Max.max a b) := by
  rw [Double.max, isNan_ofInt, isNan_ofInt, if_neg Bool.false_ne_true, if_neg Bool.false_ne_true]
  rcases Int.le_total a b with h | h
  · rw [Int.max_eq_right h]
    split
    · rfl
    · rename_i hlt
      exact ofInt_eq_of_not_lt h (Bool.eq_false_iff.2 hlt)
  · rw [not_ofInt_lt h, if_neg Bool.false_ne_true, Int.max_eq_left h]

end Double

end SegmentQuery
