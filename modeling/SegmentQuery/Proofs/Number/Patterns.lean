import SegmentQuery.Proofs.Number.Nearest
/-!
# Patterns read back

A pattern that is no NaN is the pattern of the number that it stands for,
and the pattern of a number depends on the number alone, however its
significand and exponent share it. A layout with room for another one
keeps all of its numbers, so a single that was widened is narrowed to the
single that it was.
-/


namespace SegmentQuery

namespace Number

namespace Layout

/-- A rounded quotient does not depend on a common factor. -/
theorem roundDiv_mul_mul (n d : Nat) {c : Nat} (hc : 0 < c) :
    roundDiv (n * c) (d * c) = roundDiv n d := by
  have hless : 2 * (n % d * c) < d * c ↔ 2 * (n % d) < d := by
    rw [← Nat.mul_assoc]
    exact Nat.mul_lt_mul_right hc
  have hmore : d * c < 2 * (n % d * c) ↔ d < 2 * (n % d) := by
    rw [← Nat.mul_assoc]
    exact Nat.mul_lt_mul_right hc
  rw [roundDiv_eq, roundDiv_eq, Nat.mul_div_mul_right n d hc, Nat.mul_mod_mul_right]
  simp only [hless, hmore]

/-- A significand does not depend on how a number is written. -/
theorem rounded_mul (ulp e : Int) (m k : Nat) :
    rounded ulp (e - k) (m * twoPow k) = rounded ulp e m := by
  unfold rounded
  split
  · rename_i hle
    rw [if_pos (by omega), Nat.mul_assoc, ← twoPow_add]
    congr 2
    omega
  · split
    · -- the factor makes up for the places that were whole
      rename_i hle
      obtain ⟨whole, hwhole⟩ : ∃ whole, k = whole + (ulp - (e - k)).toNat :=
        ⟨(e - ulp).toNat, by omega⟩
      conv_lhs => rw [hwhole]
      rw [twoPow_add, ← Nat.mul_assoc, show (e - ulp).toNat = whole by omega]
      rw [show (ulp - (e - ((whole + (ulp - (e - k)).toNat : Nat) : Int))).toNat =
        (ulp - (e - k)).toNat by omega]
      exact roundDiv_mul _ (twoPow_pos _)
    · rw [show (ulp - (e - k)).toNat = (ulp - e).toNat + k by omega, twoPow_add]
      exact roundDiv_mul_mul _ _ (twoPow_pos k)

theorem log2_mul_twoPow {m : Nat} (hm : m ≠ 0) (k : Nat) : (m * twoPow k).log2 = m.log2 + k := by
  have hpos : m * twoPow k ≠ 0 := Nat.mul_ne_zero hm (twoPow_pos k).ne'
  rw [Nat.log2_eq_iff hpos]
  have hlow := Nat.log2_self_le hm
  have hhigh := @Nat.lt_log2_self m
  show 2 ^ _ ≤ m * 2 ^ k ∧ m * 2 ^ k < 2 ^ _
  rw [show m.log2 + k + 1 = m.log2 + 1 + k by omega, Nat.pow_add, Nat.pow_add]
  exact ⟨Nat.mul_le_mul_right _ hlow, Nat.mul_lt_mul_of_pos_right hhigh (twoPow_pos k)⟩

/-- **The nearest pattern depends on the number alone.** -/
theorem magnitude_mul (l : Layout) (m : Nat) (e : Int) (k : Nat) :
    l.magnitude (m * twoPow k) (e - k) = l.magnitude m e := by
  by_cases hm : m = 0
  · rw [hm, Nat.zero_mul, magnitude, magnitude, if_pos rfl, if_pos rfl]
  · have hpos : m * twoPow k ≠ 0 := Nat.mul_ne_zero hm (twoPow_pos k).ne'
    have hulp : l.ulp (e - k) (m.log2 + k + 1) = l.ulp e (m.log2 + 1) := by
      unfold ulp
      push_cast
      congr 1
      omega
    rw [magnitude_of_ne_zero l hpos, magnitude_of_ne_zero l hm, log2_mul_twoPow hm, hulp,
      rounded_mul]

/-- The same in lesser units. -/
theorem magnitude_of_le (l : Layout) (m : Nat) {unit e : Int} (h : unit ≤ e) :
    l.magnitude (m * twoPow (e - unit).toNat) unit = l.magnitude m e := by
  have hunit : e - ((e - unit).toNat : Int) = unit := by omega
  have hmul := l.magnitude_mul m e (e - unit).toNat
  rwa [hunit] at hmul

/-! ## Reading -/

/-- The significand of a pattern without its sign. -/
def significand (l : Layout) (g : Nat) : Nat :=
  if g / twoPow l.fractionBits = 0 then g % twoPow l.fractionBits
  else twoPow l.fractionBits + g % twoPow l.fractionBits

/-- The exponent of a pattern without its sign. -/
def exponentOf (l : Layout) (g : Nat) : Int :=
  l.leastExponent + (g / twoPow l.fractionBits - 1 : Nat)

/-- A significand has at most a bit more than the fraction. -/
theorem significand_lt (l : Layout) (g : Nat) : l.significand g < 2 * twoPow l.fractionBits := by
  have hmod := Nat.mod_lt g (twoPow_pos l.fractionBits)
  unfold significand
  split <;> omega

theorem leastExponent_le_exponentOf (l : Layout) (g : Nat) : l.leastExponent ≤ l.exponentOf g :=
  Int.le_add_of_nonneg_right (Int.natCast_nonneg _)

/-- The exponents of finite patterns are fewer than the fields. -/
theorem exponentOf_lt (l : Layout) {g : Nat} (hg : g < l.infinity) :
    l.exponentOf g < l.leastExponent + twoPow l.exponentBits := by
  have hfield : g / twoPow l.fractionBits < twoPow l.exponentBits - 1 :=
    (Nat.div_lt_iff_lt_mul (twoPow_pos _)).2 hg
  have hnat : g / twoPow l.fractionBits - 1 < twoPow l.exponentBits :=
    (Nat.sub_le _ _).trans_lt (hfield.trans_le (Nat.sub_le _ _))
  exact Int.add_lt_add_left (Int.ofNat_lt.2 hnat) _

/-- The part of a pattern that is its sign. -/
def signPart (l : Layout) (negative : Bool) : Nat := if negative then l.signBit else 0

theorem infinity_lt_signBit (l : Layout) : l.infinity < l.signBit := by
  have hpos := twoPow_pos l.exponentBits
  unfold infinity signBit
  rw [twoPow_add]
  exact Nat.mul_lt_mul_of_pos_right (Nat.sub_lt hpos Nat.one_pos) (twoPow_pos _)

/-- Without its sign a pattern is the rest. -/
theorem signPart_add_mod (l : Layout) (negative : Bool) {g : Nat} (hg : g < l.signBit) :
    (l.signPart negative + g) % l.signBit = g := by
  cases negative
  · rw [signPart, if_neg Bool.false_ne_true, Nat.zero_add, Nat.mod_eq_of_lt hg]
  · rw [signPart, if_pos rfl, Nat.add_mod_left, Nat.mod_eq_of_lt hg]

/-- What a pattern stands for. -/
theorem datum_signPart_add (l : Layout) (negative : Bool) {g : Nat} (hg : g < l.signBit) :
    l.datum (l.signPart negative + g) =
      if l.infinity < g then .nan
      else if g = l.infinity then .infinite negative
      else .finite negative (l.significand g) (l.exponentOf g) := by
  have hmod := l.signPart_add_mod negative hg
  have hsign : decide (l.signBit ≤ l.signPart negative + g) = negative := by
    unfold signPart
    cases negative <;> simp [hg]
  unfold datum significand exponentOf
  simp only [hmod, hsign]
  split
  · rfl
  · split
    · rfl
    · split
      · rename_i hzero
        rw [hzero]
        simp
      · rfl

/-- Every pattern is a sign and the rest. -/
theorem exists_signPart_add (l : Layout) {bits : Nat} (h : bits < 2 * l.signBit) :
    ∃ negative g, g < l.signBit ∧ bits = l.signPart negative + g := by
  by_cases hsign : l.signBit ≤ bits
  · exact ⟨true, bits - l.signBit, by omega, by rw [signPart, if_pos rfl]; omega⟩
  · exact ⟨false, bits, by omega, by rw [signPart, if_neg Bool.false_ne_true]; omega⟩

/-- **A finite pattern is that of the number that it stands for.** -/
theorem magnitude_significand (l : Layout) {g : Nat} (hg : g < l.infinity) :
    l.magnitude (l.significand g) (l.exponentOf g) = g := by
  have hpos := twoPow_pos l.fractionBits
  have hdiv := Nat.div_add_mod g (twoPow l.fractionBits)
  have hmod := Nat.mod_lt g hpos
  have hself (e : Int) (m : Nat) : rounded e e m = m := by
    rw [rounded, if_pos (Int.le_refl e), Int.sub_self]
    exact Nat.mul_one m
  unfold significand exponentOf
  by_cases hzero : g / twoPow l.fractionBits = 0
  · -- one of the least patterns, in units of the least exponent
    rw [hzero, Nat.mul_zero, Nat.zero_add] at hdiv
    rw [hzero, if_pos rfl, hdiv]
    by_cases hg0 : g = 0
    · rw [hg0, magnitude, if_pos rfl]
    · have hlog : g.log2 < l.fractionBits := (Nat.log2_lt hg0).2 (hdiv ▸ hmod)
      have hulp : l.ulp l.leastExponent (g.log2 + 1) = l.leastExponent := by
        unfold ulp
        push_cast
        omega
      rw [show l.leastExponent + ((0 - 1 : Nat) : Int) = l.leastExponent from Int.add_zero _,
        magnitude_of_ne_zero l hg0, hulp, hself, Int.sub_self, Int.toNat_zero, Nat.zero_mul,
        Nat.zero_add]
      exact min_eq_left hg.le
  · -- the significand has its full length, and the exponent is its unit
    rw [if_neg hzero]
    have hm : twoPow l.fractionBits + g % twoPow l.fractionBits ≠ 0 := by omega
    have hlog : (twoPow l.fractionBits + g % twoPow l.fractionBits).log2 = l.fractionBits := by
      rw [Nat.log2_eq_iff hm]
      have hnext : twoPow (l.fractionBits + 1) = twoPow l.fractionBits * 2 := Nat.pow_succ ..
      exact ⟨Nat.le_add_right _ _, by show _ < twoPow (l.fractionBits + 1); omega⟩
    have hulp : l.ulp (l.leastExponent + (g / twoPow l.fractionBits - 1 : Nat))
        (l.fractionBits + 1) = l.leastExponent + (g / twoPow l.fractionBits - 1 : Nat) := by
      unfold ulp
      push_cast
      omega
    have hunits : (l.leastExponent + (g / twoPow l.fractionBits - 1 : Nat) -
        l.leastExponent).toNat = g / twoPow l.fractionBits - 1 := by omega
    have hsum : (g / twoPow l.fractionBits - 1) * twoPow l.fractionBits +
        (twoPow l.fractionBits + g % twoPow l.fractionBits) = g := by
      obtain ⟨n, hn⟩ : ∃ n, g / twoPow l.fractionBits = n + 1 := Nat.exists_eq_succ_of_ne_zero hzero
      rw [hn, Nat.mul_succ, Nat.mul_comm] at hdiv
      rw [hn, Nat.add_sub_cancel]
      omega
    rw [magnitude_of_ne_zero l hm, hlog, hulp, hself, hunits, hsum]
    exact min_eq_left hg.le

/-- **A pattern that is no NaN reads back.** -/
theorem pattern_datum (l : Layout) (negative : Bool) {g : Nat} (hg : g ≤ l.infinity) :
    l.pattern (l.datum (l.signPart negative + g)) = l.signPart negative + g := by
  have hlt := l.infinity_lt_signBit
  rw [datum_signPart_add l negative (hg.trans_lt hlt), if_neg (Nat.not_lt.2 hg)]
  by_cases heq : g = l.infinity
  · rw [if_pos heq, heq]
    rfl
  · rw [if_neg heq]
    show l.signPart negative + l.magnitude (l.significand g) (l.exponentOf g) = _
    rw [magnitude_significand l (Nat.lt_of_le_of_ne hg heq)]

/-- Writing what a pattern stands for changes it only if it is a NaN. -/
theorem pattern_datum_eq (l : Layout) {bits : Nat} (h : bits < 2 * l.signBit) :
    l.pattern (l.datum bits) =
      if l.infinity < bits % l.signBit then l.quietNan else bits := by
  obtain ⟨negative, g, hg, rfl⟩ := exists_signPart_add l h
  rw [l.signPart_add_mod negative hg]
  split
  · rename_i hnan
    rw [datum_signPart_add l negative hg, if_pos hnan]
    rfl
  · rename_i hle
    exact pattern_datum l negative (Nat.not_lt.1 hle)

/-- A pattern has as many bits as the layout. -/
theorem pattern_lt (l : Layout) (hfit : l.quietNan < l.signBit) (d : Datum) :
    l.pattern d < 2 * l.signBit := by
  have hlt := l.infinity_lt_signBit
  cases d with
  | nan =>
    show l.quietNan < _
    omega
  | infinite negative =>
    show (if negative then l.signBit else 0) + l.infinity < _
    split <;> omega
  | finite negative m e =>
    have hle := magnitude_le l m e
    show (if negative then l.signBit else 0) + l.magnitude m e < _
    split <;> omega

/-! ## Numbers that a layout keeps -/

/-- **What a layout makes of a number that it need not round** is the
number. -/
theorem datum_magnitude (l : Layout) (negative : Bool) {m : Nat} {e : Int} (hm : m ≠ 0)
    (hulp : l.ulp e (m.log2 + 1) ≤ e) (hfit : l.magnitude m e < l.infinity) :
    l.datum (l.signPart negative + l.magnitude m e) =
      .finite negative (m * twoPow (e - l.ulp e (m.log2 + 1)).toNat) (l.ulp e (m.log2 + 1)) := by
  have hpos := twoPow_pos l.fractionBits
  have hleast : l.leastExponent ≤ l.ulp e (m.log2 + 1) := le_max_right _ _
  have hrounded : rounded (l.ulp e (m.log2 + 1)) e m =
      m * twoPow (e - l.ulp e (m.log2 + 1)).toNat := if_pos hulp
  have hvalue : l.magnitude m e = (l.ulp e (m.log2 + 1) - l.leastExponent).toNat *
      twoPow l.fractionBits + m * twoPow (e - l.ulp e (m.log2 + 1)).toNat := by
    rw [magnitude_of_ne_zero l hm, hrounded] at hfit ⊢
    omega
  -- the significand has at most a bit more than the fraction
  have hlong : m * twoPow (e - l.ulp e (m.log2 + 1)).toNat < 2 * twoPow l.fractionBits := by
    have hlt : m * twoPow (e - l.ulp e (m.log2 + 1)).toNat <
        twoPow (m.log2 + 1 + (e - l.ulp e (m.log2 + 1)).toNat) := by
      rw [twoPow_add]
      exact Nat.mul_lt_mul_of_pos_right Nat.lt_log2_self (twoPow_pos _)
    have hle : m.log2 + 1 + (e - l.ulp e (m.log2 + 1)).toNat ≤ l.fractionBits + 1 := by
      have hunit : e + (m.log2 + 1 : Nat) - (l.fractionBits + 1) ≤ l.ulp e (m.log2 + 1) :=
        le_max_left _ _
      omega
    have htwo : twoPow (l.fractionBits + 1) = 2 * twoPow l.fractionBits := by
      rw [twoPow_add, Nat.mul_comm]
      rfl
    exact htwo ▸ hlt.trans_le (twoPow_mono hle)
  rw [datum_signPart_add l negative (hfit.trans l.infinity_lt_signBit), if_neg (by omega),
    if_neg (by omega)]
  unfold significand exponentOf
  by_cases hshort : m * twoPow (e - l.ulp e (m.log2 + 1)).toNat < twoPow l.fractionBits
  · -- then the unit is the least one
    have hunit : l.ulp e (m.log2 + 1) = l.leastExponent := by
      by_contra hne
      have hfull := le_rounded l hm (lt_of_le_of_ne hleast (Ne.symm hne))
      rw [hrounded] at hfull
      omega
    rw [hvalue]
    rw [hunit] at hshort ⊢
    rw [Int.sub_self, Int.toNat_zero, Nat.zero_mul, Nat.zero_add, Nat.div_eq_of_lt hshort,
      if_pos rfl, Nat.mod_eq_of_lt hshort]
    simp
  · obtain ⟨fraction, hfraction⟩ := Nat.exists_eq_add_of_le (Nat.le_of_not_lt hshort)
    have hless : fraction < twoPow l.fractionBits := by omega
    have hquot : l.magnitude m e / twoPow l.fractionBits =
        (l.ulp e (m.log2 + 1) - l.leastExponent).toNat + 1 := by
      rw [hvalue, hfraction, Nat.mul_comm, ← Nat.add_assoc, ← Nat.mul_succ,
        Nat.mul_add_div hpos, Nat.div_eq_of_lt hless, Nat.add_zero]
    have hrem : l.magnitude m e % twoPow l.fractionBits = fraction := by
      rw [hvalue, hfraction, Nat.mul_comm, ← Nat.add_assoc, ← Nat.mul_succ, Nat.mul_add_mod,
        Nat.mod_eq_of_lt hless]
    rw [hquot, hrem, if_neg (Nat.succ_ne_zero _), hfraction]
    congr 1
    omega

end Layout

end Number

open Number

/-! ## Doubles -/

namespace Double

/-- The double with the quiet NaN for any other. -/
def quiet (x : Double) : Double := if x.isNan then nan else x

/-- A double that is no NaN stays as it is. -/
theorem quiet_of_not_nan {x : Double} (h : x.isNan = false) : x.quiet = x := by
  rw [quiet, h, if_neg Bool.false_ne_true]

theorem toNat_bits_ofDatum (d : Datum) : (ofDatum d).bits.toNat = Layout.double.pattern d :=
  UInt64.toNat_ofNat_of_lt' (Layout.pattern_lt _ (by decide) d)

/-- **The number that a double stands for makes the double again**, or
the quiet NaN. -/
theorem ofDatum_datum (x : Double) : ofDatum x.datum = x.quiet := by
  have hbits : x.bits.toNat < 2 * Layout.double.signBit := x.bits.toNat_lt
  unfold ofDatum datum quiet isNan
  rw [Layout.pattern_datum_eq _ hbits]
  by_cases hnan : Layout.double.infinity < x.bits.toNat % Layout.double.signBit
  · rw [if_pos hnan, decide_eq_true hnan, if_pos rfl]
    rfl
  · rw [if_neg hnan, decide_eq_false hnan, if_neg Bool.false_ne_true, UInt64.ofNat_toNat]

/-- Only what is no number makes a NaN, and it makes the quiet one. -/
@[simp] theorem quiet_ofDatum (d : Datum) : (ofDatum d).quiet = ofDatum d := by
  cases d with
  | nan => decide
  | infinite negative => cases negative <;> decide
  | finite negative m e =>
    apply quiet_of_not_nan
    have hle := Layout.magnitude_le Layout.double m e
    have hlt := Layout.infinity_lt_signBit Layout.double
    rw [isNan, toNat_bits_ofDatum]
    show decide (_ < (Layout.double.signPart negative + Layout.double.magnitude m e) % _) = false
    rw [Layout.signPart_add_mod _ negative (hle.trans_lt hlt)]
    exact decide_eq_false (Nat.not_lt.2 hle)

end Double

/-! ## Singles -/

namespace Single

/-- The single with the quiet NaN for any other. -/
def quiet (x : Single) : Single := if x.isNan then ⟨0x7fc00000⟩ else x

theorem ofDatum_datum (x : Single) : ofDatum x.datum = x.quiet := by
  have hbits : x.bits.toNat < 2 * Layout.single.signBit := x.bits.toNat_lt
  unfold ofDatum datum quiet isNan
  rw [Layout.pattern_datum_eq _ hbits]
  by_cases hnan : Layout.single.infinity < x.bits.toNat % Layout.single.signBit
  · rw [if_pos hnan, decide_eq_true hnan, if_pos rfl]
    rfl
  · rw [if_neg hnan, decide_eq_false hnan, if_neg Bool.false_ne_true, UInt32.ofNat_toNat]

/-- Doubles have room for the significand and the exponent of a single:
the number needs no rounding and is not too great. -/
theorem double_keeps {g : Nat} (hg : g < Layout.single.infinity)
    (hm : Layout.single.significand g ≠ 0) :
    Layout.double.ulp (Layout.single.exponentOf g) ((Layout.single.significand g).log2 + 1) ≤
        Layout.single.exponentOf g ∧
      Layout.double.magnitude (Layout.single.significand g) (Layout.single.exponentOf g) <
        Layout.double.infinity := by
  have hlength : (Layout.single.significand g).log2 < 24 :=
    (Nat.log2_lt hm).2 (Layout.single.significand_lt g)
  have hlow := Layout.single.leastExponent_le_exponentOf g
  have hhigh := Layout.exponentOf_lt Layout.single hg
  rw [show Layout.single.leastExponent = -149 by decide] at hlow hhigh
  rw [show twoPow Layout.single.exponentBits = 256 from rfl] at hhigh
  obtain ⟨unit, hunit⟩ : ∃ unit, unit = Layout.double.ulp (Layout.single.exponentOf g)
      ((Layout.single.significand g).log2 + 1) := ⟨_, rfl⟩
  have hbounds : unit ≤ Layout.single.exponentOf g ∧ unit ≤ 80 := by
    rw [hunit, Layout.ulp, show Layout.double.leastExponent = -1074 by decide,
      show Layout.double.fractionBits = 52 from rfl]
    push_cast
    omega
  have hrounded := Layout.rounded_le Layout.double (Layout.single.exponentOf g)
    (Layout.single.significand g)
  rw [← hunit] at hrounded ⊢
  refine ⟨hbounds.1, ?_⟩
  rw [Layout.magnitude_of_ne_zero _ hm, ← hunit]
  calc min _ Layout.double.infinity
      ≤ (unit - Layout.double.leastExponent).toNat * twoPow Layout.double.fractionBits +
          twoPow (Layout.double.fractionBits + 1) :=
        (min_le_left _ _).trans (Nat.add_le_add_left hrounded _)
    _ ≤ 1154 * twoPow Layout.double.fractionBits + twoPow (Layout.double.fractionBits + 1) := by
        rw [show Layout.double.leastExponent = -1074 by decide]
        exact Nat.add_le_add_right (Nat.mul_le_mul_right _ (by omega)) _
    _ < Layout.double.infinity := by decide

/-- **A single that was widened is narrowed to itself.** -/
theorem narrow_widen (x : Single) : x.widen.narrow = x.quiet := by
  rw [← ofDatum_datum]
  have hbits : x.bits.toNat < 2 * Layout.single.signBit := x.bits.toNat_lt
  obtain ⟨negative, g, hg, hx⟩ := Layout.exists_signPart_add Layout.single hbits
  have hdatum : x.datum = _ :=
    (congrArg Layout.single.datum hx).trans (Layout.datum_signPart_add _ negative hg)
  rw [widen, Double.narrow, Double.datum, Double.toNat_bits_ofDatum, hdatum]
  split
  · decide
  · split
    · cases negative <;> decide
    · rename_i hnan hinf
      have hfinite : g < Layout.single.infinity := by omega
      by_cases hm : Layout.single.significand g = 0
      · have hzero (l : Layout) (e : Int) : l.pattern (.finite negative 0 e) = l.signPart negative := by
          show l.signPart negative + l.magnitude 0 e = _
          rw [Layout.magnitude, if_pos rfl, Nat.add_zero]
        rw [hm, hzero, ofDatum, ofDatum, hzero]
        cases negative <;> rfl
      · -- the double writes the same number in other units
        obtain ⟨hulp, hfit⟩ := double_keeps hfinite hm
        show ofDatum (Layout.double.datum (Layout.double.signPart negative + _)) = _
        rw [Layout.datum_magnitude _ negative hm hulp hfit, ofDatum, ofDatum, Layout.pattern,
          Layout.magnitude_of_le _ _ hulp]
        rfl

end Single

end SegmentQuery
