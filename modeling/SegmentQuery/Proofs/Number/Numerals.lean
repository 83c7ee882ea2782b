import SegmentQuery.Decimal.Text
import SegmentQuery.Text.Numeral
/-!
# Numerals read back

The digits of a number make the number again, and so does the plain text
of a decimal with its point: the places before it never outgrow the
coefficient and those behind it never the scale. Only the sign of a zero
is lost.
-/


namespace SegmentQuery

namespace Text

/-! ## Natural numbers -/

theorem digit?_of_isDigit {c : Char} (h : c.isDigit) : digit? c = some (c.toNat - '0'.toNat) := by
  unfold Char.isDigit at h
  rw [Bool.and_eq_true, decide_eq_true_iff, decide_eq_true_iff] at h
  exact if_pos h

/-- Digits have the value that they have by themselves after `acc`. -/
theorem digitsValue?_eq {cs : List Char} (h : ∀ c ∈ cs, c.isDigit) (acc : Nat) :
    digitsValue? acc cs = some (Nat.ofDigitChars 10 cs acc) := by
  induction cs generalizing acc with
  | nil => rfl
  | cons c cs ih =>
    obtain ⟨hc, hcs⟩ := List.forall_mem_cons.1 h
    rw [digitsValue?, digit?_of_isDigit hc, Option.bind_some, ih hcs, Nat.ofDigitChars_cons]

theorem isDigit_toDigits (n : Nat) : ∀ c ∈ Nat.toDigits 10 n, c.isDigit :=
  fun _ hc => Nat.isDigit_of_mem_toDigits (by decide) (by decide) hc

/-- **A number is read from its digits.** -/
theorem natural?_toString {n bound : Nat} (hn : n < bound) :
    natural? bound (toString n).toList = some n := by
  have hdigits : (toString n).toList = Nat.toDigits 10 n := Nat.toList_repr
  have hvalue := digitsValue?_eq (isDigit_toDigits n) 0
  rw [Nat.ofDigitChars_ten_toDigits] at hvalue
  have hplus : '+' ∉ Nat.toDigits 10 n := fun h => absurd (isDigit_toDigits n _ h) (by decide)
  rw [hdigits]
  cases hcs : Nat.toDigits 10 n with
  | nil => exact absurd hcs Nat.toDigits_ne_nil
  | cons c cs =>
    rw [hcs] at hvalue hplus
    have hc : c ≠ '+' := fun h => hplus (h ▸ List.mem_cons_self)
    unfold natural?
    dsimp only
    split
    · rename_i heq
      exact absurd (List.cons.inj heq).1 hc
    · show (digitsValue? 0 (c :: cs)).filter _ = _
      rw [hvalue, Option.filter_some, decide_eq_true hn, if_pos rfl]

end Text

namespace Decimal

/-! ## Decimals -/

/-- The decimal with a positive zero for a negative one. -/
def unsignedZero (d : Decimal) : Decimal := if d.isZero then { d with negative := false } else d

/-- A decimal that is no zero stays as it is. -/
theorem unsignedZero_of_ne_zero {d : Decimal} (h : d.magnitude ≠ 0) : d.unsignedZero = d := by
  have hzero : d.isZero = false := beq_eq_false_iff_ne.2 h
  rw [unsignedZero, hzero, if_neg Bool.false_ne_true]

theorem ofDigitChars_mono (cs : List Char) (acc : Nat) : acc ≤ Nat.ofDigitChars 10 cs acc := by
  induction cs generalizing acc with
  | nil => exact Nat.le_refl acc
  | cons c cs ih =>
    rw [Nat.ofDigitChars_cons]
    exact Nat.le_trans (by omega) (ih _)

/-- **Digits that fit are read into the coefficient**, and behind the
point each one is a place. -/
theorem readPlain_digits {negative point : Bool} {cs : List Char} (h : ∀ c ∈ cs, c.isDigit)
    {coeff scale : Nat} (hfit : Nat.ofDigitChars 10 cs coeff < coeffLimit)
    (hplaces : point → scale + cs.length ≤ maxScale) (started : Bool) (rest : List Char) :
    readPlain negative coeff scale point started (cs ++ rest) =
      readPlain negative (Nat.ofDigitChars 10 cs coeff)
        (if point then scale + cs.length else scale) point (started || !cs.isEmpty) rest := by
  induction cs generalizing coeff scale started with
  | nil => simp [Nat.ofDigitChars]
  | cons c cs ih =>
    obtain ⟨hc, hcs⟩ := List.forall_mem_cons.1 h
    rw [Nat.ofDigitChars_cons] at hfit
    have hnext := Nat.lt_of_le_of_lt (ofDigitChars_mono cs _) hfit
    have hroom : (point && decide (maxScale ≤ scale)) = false := by
      cases point with
      | false => rfl
      | true =>
        have := hplaces rfl
        rw [List.length_cons] at this
        exact decide_eq_false (by omega)
    have hrest : point → (if point then scale + 1 else scale) + cs.length ≤ maxScale := by
      intro hpoint
      have := hplaces hpoint
      rw [List.length_cons] at this
      rw [if_pos hpoint]
      omega
    rw [List.cons_append, readPlain, hroom, if_neg Bool.false_ne_true, Text.digit?_of_isDigit hc]
    show (if 10 * coeff + (c.toNat - '0'.toNat) < coeffLimit then _ else _) = _
    rw [if_pos hnext, ih hcs hfit hrest true, Nat.ofDigitChars_cons]
    have hscale : (if point then (if point then scale + 1 else scale) + cs.length
        else if point then scale + 1 else scale) =
          if point then scale + (c :: cs).length else scale := by
      cases point with
      | false => rfl
      | true =>
        simp only [if_true, List.length_cons]
        omega
    rw [hscale]
    cases started <;> rfl

theorem ofDigitChars_replicate_zero (n : Nat) (cs : List Char) :
    Nat.ofDigitChars 10 (List.replicate n '0' ++ cs) 0 = Nat.ofDigitChars 10 cs 0 := by
  induction n with
  | zero => rfl
  | succ n ih =>
    rw [List.replicate_succ, List.cons_append, Nat.ofDigitChars_cons]
    exact ih

/-- What is within the bounds is a decimal. -/
theorem ofScaled_eq (d : Decimal) : ofScaled d.toScaled = .ok d := by
  rw [ofScaled, dif_pos d.scale_le, dif_pos d.magnitude_lt]

/-- The coefficient and the sign make the decimal, but for the sign of a
zero. -/
theorem ofParts_signed (d : Decimal) :
    ofParts (signed d.negative d.magnitude) d.scale = .ok d.unsignedZero := by
  have hscaled : Scaled.ofCoeff (signed d.negative d.magnitude) d.scale =
      d.unsignedZero.toScaled := by
    have habs : (signed d.negative d.magnitude).natAbs = d.magnitude := by
      unfold signed
      split <;> omega
    by_cases hzero : d.magnitude = 0
    · have hsigned : signed d.negative d.magnitude = 0 := by omega
      rw [unsignedZero, if_pos (show d.isZero = true from beq_iff_eq.2 hzero), hsigned]
      show (⟨false, 0, d.scale⟩ : Scaled) = ⟨false, d.magnitude, d.scale⟩
      rw [hzero]
    · rw [unsignedZero_of_ne_zero hzero, Scaled.ofCoeff, habs]
      have hsign : decide (signed d.negative d.magnitude < 0) = d.negative := by
        unfold signed
        cases d.negative
        · exact decide_eq_false (by rw [if_neg Bool.false_ne_true]; omega)
        · exact decide_eq_true (by rw [if_pos rfl]; omega)
      rw [hsign]
  rw [ofParts, hscaled, ofScaled_eq]

/-- The digits of a plain text, before and behind the point. -/
theorem exists_toList_plainText (negative : Bool) (magnitude places : Nat) :
    ∃ whole fraction, (Number.plainText negative magnitude places).toList =
        (if negative then ['-'] else []) ++
          (whole ++ if places = 0 then [] else '.' :: fraction) ∧
      whole ≠ [] ∧ fraction.length = places ∧ (∀ c ∈ whole ++ fraction, c.isDigit) ∧
      Nat.ofDigitChars 10 (whole ++ fraction) 0 = magnitude := by
  let padded := List.replicate (places + 1 - (Nat.toDigits 10 magnitude).length) '0' ++
    Nat.toDigits 10 magnitude
  have hlong : places + 1 ≤ padded.length := by
    rw [List.length_append, List.length_replicate]
    omega
  refine ⟨padded.take (padded.length - places), padded.drop (padded.length - places), ?_, ?_, ?_, ?_⟩
  · rw [← List.append_assoc]
    exact String.toList_ofList
  · rw [← List.length_pos_iff, List.length_take]
    omega
  · rw [List.length_drop]
    omega
  rw [List.take_append_drop]
  refine ⟨fun c hc => ?_, ?_⟩
  · rcases List.mem_append.1 hc with hc | hc
    · rw [List.eq_of_mem_replicate hc]
      decide
    · exact Text.isDigit_toDigits magnitude c hc
  · rw [ofDigitChars_replicate_zero, Nat.ofDigitChars_ten_toDigits]

/-- **A decimal is read back from its text.** -/
theorem read_text (d : Decimal) : read d.text.toList = .ok d.unsignedZero := by
  obtain ⟨whole, fraction, htext, hwhole, hplaces, hdigits, hvalue⟩ :=
    exists_toList_plainText d.negative d.magnitude d.scale
  obtain ⟨hwholeDigits, hfractionDigits⟩ := List.forall_mem_append.1 hdigits
  rw [Nat.ofDigitChars_append] at hvalue
  have hfit : Nat.ofDigitChars 10 fraction (Nat.ofDigitChars 10 whole 0) < coeffLimit :=
    hvalue ▸ d.magnitude_lt
  have hfitWhole := Nat.lt_of_le_of_lt (ofDigitChars_mono fraction _) hfit
  -- the digits before the point, the point, and the digits behind it
  have hread : readPlain d.negative 0 0 false false
      (whole ++ if d.scale = 0 then [] else '.' :: fraction) = .ok d.unsignedZero := by
    rw [readPlain_digits hwholeDigits hfitWhole (fun h => absurd h Bool.false_ne_true), ← ofParts_signed]
    have hstarted : (false || !whole.isEmpty) = true := by
      cases whole with
      | nil => exact absurd rfl hwhole
      | cons => rfl
    rw [hstarted, if_neg Bool.false_ne_true]
    split
    · rename_i hzero
      obtain rfl := List.eq_nil_of_length_eq_zero (hplaces.trans hzero)
      rw [hzero, ← hvalue]
      rfl
    · have hpoint : readPlain d.negative (Nat.ofDigitChars 10 whole 0) 0 false true
          ('.' :: fraction) =
          readPlain d.negative (Nat.ofDigitChars 10 whole 0) 0 true true (fraction ++ []) := by
        rw [List.append_nil]
        rfl
      have hroom : 0 + fraction.length ≤ maxScale := by
        have := d.scale_le
        omega
      rw [hpoint, readPlain_digits hfractionDigits hfit fun _ => hroom, hvalue, if_pos rfl,
        Nat.zero_add, hplaces]
      rfl
  have hplain : ofPlain d.text.toList = .ok d.unsignedZero := by
    rw [text, Scaled.text, htext]
    cases hsign : d.negative with
    | true => rwa [hsign] at hread
    | false =>
      rw [hsign] at hread
      rw [if_neg Bool.false_ne_true, List.nil_append]
      cases whole with
      | nil => exact absurd rfl hwhole
      | cons c whole =>
        have hc : c.isDigit := hwholeDigits c List.mem_cons_self
        rw [List.cons_append] at hread ⊢
        unfold ofPlain
        split
        · rename_i heq
          cases heq
        · rename_i heq
          obtain rfl := (List.cons.inj heq).1
          exact absurd hc (by decide)
        · rename_i heq
          obtain rfl := (List.cons.inj heq).1
          exact absurd hc (by decide)
        · exact hread
  rw [read, hplain]

end Decimal

end SegmentQuery
