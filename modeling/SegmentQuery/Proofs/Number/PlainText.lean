import SegmentQuery.Proofs.Number.Numerals
import SegmentQuery.Proofs.Order.Directions
/-!
# What a plain text shows

The text of a number has a sign, digits, and a point with digits behind it
unless there are none. It shows one number with one count of fractional
digits, and it shows the sign of a zero too: nothing of the sign, the
magnitude and the scale is lost in it.
-/


namespace SegmentQuery

/-- The number that a sign, a magnitude and a scale stand for. -/
def Scaled.toRat (x : Scaled) : ℚ := x.coeff / 10 ^ x.scale

/-- A plain numeral of a sign, digits and, if there are any, digits behind
a point. -/
structure IsNumeral (cs : List Char) (negative : Bool) (whole fraction : List Char) : Prop where
  eq_append : cs = (if negative then ['-'] else []) ++
    (whole ++ if fraction.length = 0 then [] else '.' :: fraction)
  whole_ne_nil : whole ≠ []
  isDigit_whole : ∀ c ∈ whole, c.isDigit
  isDigit_fraction : ∀ c ∈ fraction, c.isDigit

/-- The text is the plain numeral of a number with `places` fractional
digits. -/
def Shows (text : String) (places : ℕ) (q : ℚ) : Prop :=
  ∃ negative whole fraction, IsNumeral text.toList negative whole fraction ∧
    fraction.length = places ∧
    q = (if negative then -1 else 1) * Nat.ofDigitChars 10 (whole ++ fraction) 0 / 10 ^ places

variable {cs whole fraction whole' fraction' : List Char} {negative negative' : Bool} {x y : Scaled}

/-! ## Numerals -/

/-- A numeral without its sign begins with a digit. -/
theorem IsNumeral.exists_cons (h : IsNumeral cs negative whole fraction) : ∃ c rest,
    cs = (if negative then ['-'] else []) ++ c :: rest ∧ c.isDigit := by
  obtain ⟨hcs, hne, hwhole, -⟩ := h
  cases whole with
  | nil => exact absurd rfl hne
  | cons c rest => exact ⟨c, _, hcs, hwhole c List.mem_cons_self⟩

theorem IsNumeral.negative_eq (h : IsNumeral cs negative whole fraction)
    (h' : IsNumeral cs negative' whole' fraction') : negative = negative' := by
  obtain ⟨c, rest, hcs, hc⟩ := h.exists_cons
  obtain ⟨c', rest', hcs', hc'⟩ := h'.exists_cons
  rw [hcs] at hcs'
  -- the sign is no digit
  cases negative <;> cases negative'
  · rfl
  · obtain ⟨rfl, -⟩ := List.cons.inj hcs'
    exact absurd hc (by decide)
  · obtain ⟨rfl, -⟩ := List.cons.inj hcs'
    exact absurd hc' (by decide)
  · rfl

/-- The digits in front of the point are those up to the first character
that is none. -/
theorem IsNumeral.takeWhile (h : IsNumeral cs negative whole fraction) :
    (cs.drop (if negative then 1 else 0)).takeWhile Char.isDigit = whole := by
  obtain ⟨rfl, -, hwhole, -⟩ := h
  have hdrop (rest : List Char) :
      ((if negative then ['-'] else []) ++ rest).drop (if negative then 1 else 0) = rest := by
    cases negative <;> rfl
  rw [hdrop, List.takeWhile_append_of_pos hwhole]
  split
  · rw [List.takeWhile_nil, List.append_nil]
  · rw [List.takeWhile_cons_of_neg (by decide), List.append_nil]

/-- **A text is a numeral in one way.** -/
theorem IsNumeral.unique (h : IsNumeral cs negative whole fraction)
    (h' : IsNumeral cs negative' whole' fraction') :
    negative = negative' ∧ whole = whole' ∧ fraction = fraction' := by
  obtain rfl := h.negative_eq h'
  obtain rfl : whole = whole' := h.takeWhile.symm.trans h'.takeWhile
  refine ⟨rfl, rfl, ?_⟩
  have hrest := List.append_cancel_left (List.append_cancel_left (h.eq_append.symm.trans h'.eq_append))
  split at hrest <;> split at hrest <;> simp_all

/-- **A text shows one number**, with one count of fractional digits. -/
theorem Shows.unique {text : String} {places places' : ℕ} {q q' : ℚ} (h : Shows text places q)
    (h' : Shows text places' q') : places = places' ∧ q = q' := by
  obtain ⟨negative, whole, fraction, hnumeral, rfl, rfl⟩ := h
  obtain ⟨negative', whole', fraction', hnumeral', rfl, rfl⟩ := h'
  obtain ⟨rfl, rfl, rfl⟩ := hnumeral.unique hnumeral'
  exact ⟨rfl, rfl⟩

/-! ## Texts of numbers -/

/-- The text of a number is a numeral of its digits. -/
theorem Scaled.exists_isNumeral (x : Scaled) : ∃ whole fraction,
    IsNumeral x.text.toList x.negative whole fraction ∧ fraction.length = x.scale ∧
      Nat.ofDigitChars 10 (whole ++ fraction) 0 = x.magnitude := by
  obtain ⟨whole, fraction, htext, hne, hplaces, hdigits, hvalue⟩ :=
    Decimal.exists_toList_plainText x.negative x.magnitude x.scale
  obtain ⟨hwhole, hfraction⟩ := List.forall_mem_append.1 hdigits
  rw [← hplaces] at htext
  exact ⟨whole, fraction, ⟨hplaces ▸ htext, hne, hwhole, hfraction⟩, hplaces, hvalue⟩

/-- **The text of a number shows it.** -/
theorem Scaled.shows_text (x : Scaled) : Shows x.text x.scale x.toRat := by
  obtain ⟨whole, fraction, hnumeral, hplaces, hvalue⟩ := x.exists_isNumeral
  refine ⟨x.negative, whole, fraction, hnumeral, hplaces, ?_⟩
  rw [hvalue, toRat, coeff]
  cases x.negative <;> simp

/-- **Numbers of one text are one**, scale and sign included. -/
theorem Scaled.text_inj : x.text = y.text ↔ x = y := by
  refine ⟨fun htext => ?_, congrArg text⟩
  obtain ⟨whole, fraction, hnumeral, hplaces, hvalue⟩ := x.exists_isNumeral
  obtain ⟨whole', fraction', hnumeral', hplaces', hvalue'⟩ := y.exists_isNumeral
  rw [← htext] at hnumeral'
  obtain ⟨hnegative, rfl, rfl⟩ := hnumeral.unique hnumeral'
  obtain ⟨negative, magnitude, scale⟩ := x
  obtain ⟨negative', magnitude', scale'⟩ := y
  obtain rfl : negative = negative' := hnegative
  obtain rfl : magnitude = magnitude' := hvalue.symm.trans hvalue'
  obtain rfl : scale = scale' := hplaces.symm.trans hplaces'
  rfl

end SegmentQuery
