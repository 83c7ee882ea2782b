import SegmentQuery.Decimal.Bytes
import SegmentQuery.Proofs.Except
import SegmentQuery.Proofs.Number.Nearest
import SegmentQuery.Proofs.Number.Numerals
import SegmentQuery.Proofs.Wire.Bytes
/-!
# The bytes of a decimal read back

In two's complement, bytes stand for the numbers that their width holds:
one that is not negative for itself, a negative one for its sum with
`256 ^ width`. Of equally many bytes no others stand for the same number,
and one more in front changes nothing exactly when it repeats the sign. A
coefficient is therefore written in the shortest of its forms, any of them
is read, and what is read is written as it was exactly when it had been
the shortest.
-/


namespace SegmentQuery

namespace Bytes

open Number (twoPow twoPow_add twoPow_mono twoPow_pos)

/-! ## Numbers of many bytes -/

/-- A byte in front has 256 times the weight. -/
theorem twoPow_length_cons (b : UInt8) (bytes : List UInt8) :
    twoPow (8 * (b :: bytes).length) = 256 * twoPow (8 * bytes.length) := by
  rw [List.length_cons, Nat.mul_add, Nat.add_comm, twoPow_add]
  rfl

theorem ofLittleEndian_append (xs ys : List UInt8) :
    ofLittleEndian (xs ++ ys) = ofLittleEndian xs + twoPow (8 * xs.length) * ofLittleEndian ys := by
  induction xs with
  | nil => simp [ofLittleEndian, twoPow]
  | cons x xs ih =>
    rw [List.cons_append, ofLittleEndian, ofLittleEndian, ih, twoPow_length_cons, Nat.mul_add,
      Nat.mul_assoc, Nat.add_assoc]

theorem ofBigEndian_append (xs ys : List UInt8) :
    ofBigEndian (xs ++ ys) = twoPow (8 * ys.length) * ofBigEndian xs + ofBigEndian ys := by
  rw [ofBigEndian, List.reverse_append, ofLittleEndian_append, List.length_reverse, Nat.add_comm]
  rfl

theorem ofBigEndian_singleton (b : UInt8) : ofBigEndian [b] = b.toNat := rfl

theorem ofBigEndian_cons (b : UInt8) (bytes : List UInt8) :
    ofBigEndian (b :: bytes) = twoPow (8 * bytes.length) * b.toNat + ofBigEndian bytes :=
  ofBigEndian_append [b] bytes

theorem ofBigEndian_lt (bytes : List UInt8) : ofBigEndian bytes < twoPow (8 * bytes.length) := by
  induction bytes with
  | nil => exact Nat.one_pos
  | cons b bytes ih =>
    have hbyte : twoPow (8 * bytes.length) * b.toNat ≤ twoPow (8 * bytes.length) * 255 :=
      Nat.mul_le_mul_left _ (by have := b.toNat_lt; omega)
    rw [ofBigEndian_cons, twoPow_length_cons]
    omega

/-- **Equally many bytes of one number are the same bytes.** -/
theorem eq_of_ofBigEndian_eq {xs ys : List UInt8} (hlength : xs.length = ys.length)
    (h : ofBigEndian xs = ofBigEndian ys) : xs = ys := by
  induction xs generalizing ys with
  | nil => exact (List.length_eq_zero_iff.1 hlength.symm).symm
  | cons x xs ih =>
    cases ys with
    | nil => exact absurd hlength (Nat.succ_ne_zero _)
    | cons y ys =>
      have hlength' : xs.length = ys.length := Nat.succ_inj.1 hlength
      rw [ofBigEndian_cons, ofBigEndian_cons, ← hlength'] at h
      have hx := ofBigEndian_lt xs
      have hy := ofBigEndian_lt ys
      rw [← hlength'] at hy
      have hpos := twoPow_pos (8 * xs.length)
      -- first byte and rest are the quotient and the remainder
      have hfirst : x.toNat = y.toNat := by
        have hquotient := congrArg (· / twoPow (8 * xs.length)) h
        simpa only [Nat.mul_add_div hpos, Nat.div_eq_of_lt hx, Nat.div_eq_of_lt hy,
          Nat.add_zero] using hquotient
      rw [hfirst] at h
      rw [UInt8.toNat_inj.1 hfirst, ih hlength' (Nat.add_left_cancel h)]

/-! ## Two's complement -/

/-- Whether so many bytes hold a number with its sign. -/
def FitsSigned (width : Nat) (n : Int) : Prop :=
  -(twoPow (8 * width) : Int) ≤ 2 * n ∧ 2 * n < twoPow (8 * width)

/-- Bytes, high byte first, that stand for a number in two's complement. -/
structure SignedForm (bytes : List UInt8) (n : Int) : Prop where
  ne_nil : bytes ≠ []
  fits : FitsSigned bytes.length n
  ofBigEndian_eq :
    (ofBigEndian bytes : Int) = if n < 0 then n + twoPow (8 * bytes.length) else n

/-- The bytes among those that stand for a number than which none are
fewer. -/
structure ShortestForm (bytes : List UInt8) (n : Int) : Prop extends SignedForm bytes n where
  length_le : ∀ other, SignedForm other n → bytes.length ≤ other.length

variable {bytes other : List UInt8} {n : Int}

theorem FitsSigned.mono {width width' : Nat} (h : FitsSigned width n) (hle : width ≤ width') :
    FitsSigned width' n := by
  have := twoPow_mono (Nat.mul_le_mul_left 8 hle)
  unfold FitsSigned at h ⊢
  omega

theorem FitsSigned.emod_eq {width : Nat} (h : FitsSigned width n) :
    n % twoPow (8 * width) = if n < 0 then n + twoPow (8 * width) else n := by
  unfold FitsSigned at h
  split
  · rw [← Int.add_emod_right, Int.emod_eq_of_lt (by omega) (by omega)]
  · rw [Int.emod_eq_of_lt (by omega) (by omega)]

/-- A number has one form of each length. -/
theorem SignedForm.eq_of_length_eq (h : SignedForm bytes n) (hother : SignedForm other n)
    (hlength : bytes.length = other.length) : bytes = other := by
  refine eq_of_ofBigEndian_eq hlength (Int.natCast_inj.1 ?_)
  rw [h.ofBigEndian_eq, hother.ofBigEndian_eq, hlength]

/-- So it has one shortest form. -/
theorem ShortestForm.unique (h : ShortestForm bytes n) (hother : ShortestForm other n) :
    bytes = other :=
  h.eq_of_length_eq hother.toSignedForm
    (Nat.le_antisymm (h.length_le other hother.toSignedForm) (hother.length_le bytes h.toSignedForm))

/-- **A leading byte that repeats the sign of what follows** is one that the
number does not need. -/
theorem SignedForm.repeats_iff {a b : UInt8} {rest : List UInt8}
    (h : SignedForm (a :: b :: rest) n) :
    ((a = 0 ∧ b < 128) ∨ (a = 255 ∧ 128 ≤ b)) ↔ FitsSigned (b :: rest).length n := by
  obtain ⟨-, hfits, hvalue⟩ := h
  have ha := a.toNat_lt
  have hb := b.toNat_lt
  have hrest := ofBigEndian_lt rest
  -- the two leading bytes count multiples of the weight that the rest stays below
  have hlead : ofBigEndian (a :: b :: rest) =
      (256 * a.toNat + b.toNat) * twoPow (8 * rest.length) + ofBigEndian rest := by
    rw [ofBigEndian_cons, ofBigEndian_cons, twoPow_length_cons, Nat.add_mul, Nat.add_assoc,
      Nat.mul_comm b.toNat, Nat.mul_right_comm 256]
  have hsmall : (a = 0 ∧ b < 128) ↔ 256 * a.toNat + b.toNat < 128 := by
    rw [← UInt8.toNat_inj, UInt8.lt_iff_toNat_lt]
    show a.toNat = 0 ∧ b.toNat < 128 ↔ _
    omega
  have hgreat : (a = 255 ∧ 128 ≤ b) ↔ 65408 ≤ 256 * a.toNat + b.toNat := by
    rw [← UInt8.toNat_inj, UInt8.le_iff_toNat_le]
    show a.toNat = 255 ∧ 128 ≤ b.toNat ↔ _
    omega
  have hbound : 256 * a.toNat + b.toNat < 65536 := by omega
  unfold FitsSigned at hfits ⊢
  rw [twoPow_length_cons, twoPow_length_cons] at hfits
  rw [hlead, twoPow_length_cons, twoPow_length_cons] at hvalue
  rw [hsmall, hgreat, twoPow_length_cons]
  generalize twoPow (8 * rest.length) = weight at *
  generalize 256 * a.toNat + b.toNat = lead at *
  have hless (k : Nat) (hk : lead < k) : lead * weight + weight ≤ k * weight := by
    rw [← Nat.succ_mul]
    exact Nat.mul_le_mul_right weight hk
  have hmore (k : Nat) (hk : k ≤ lead) : k * weight ≤ lead * weight :=
    Nat.mul_le_mul_right weight hk
  constructor
  · rintro (hlt | hge)
    · have := hless 128 hlt
      omega
    · have := hmore 65408 hge
      have := hless 65536 hbound
      omega
  · intro hfit
    by_contra hnot
    have := hmore 128 (by omega)
    have := hless 65408 (by omega)
    omega

/-- Without such a byte the others stand for the same number. -/
theorem SignedForm.tail {a b : UInt8} {rest : List UInt8} (h : SignedForm (a :: b :: rest) n)
    (hrepeats : (a = 0 ∧ b < 128) ∨ (a = 255 ∧ 128 ≤ b)) : SignedForm (b :: rest) n := by
  have hfits := h.repeats_iff.1 hrepeats
  refine ⟨List.cons_ne_nil _ _, hfits, ?_⟩
  have hvalue := h.ofBigEndian_eq
  have hlt := ofBigEndian_lt (b :: rest)
  rw [ofBigEndian_cons, twoPow_length_cons a] at hvalue
  unfold FitsSigned at hfits
  rcases hrepeats with ⟨rfl, -⟩ | ⟨rfl, -⟩
  · rw [show (0 : UInt8).toNat = 0 from rfl] at hvalue
    split at hvalue <;> split <;> omega
  · rw [show (255 : UInt8).toNat = 255 from rfl] at hvalue
    split at hvalue <;> split <;> omega

end Bytes

namespace Decimal

open Bytes

variable {bytes unscaled : List UInt8} {n : Int}

/-! ## Reading and writing a coefficient -/

theorem ofTwosComplement_cons (first : UInt8) (rest : List UInt8) :
    ofTwosComplement (first :: rest) =
      if 128 ≤ first then
        (ofBigEndian (first :: rest) : Int) - Number.twoPow (8 * (first :: rest).length)
      else (ofBigEndian (first :: rest) : Int) := by
  have hvalue (bytes : List UInt8) :
      ofLittleEndian bytes = bytes.foldr (fun b acc => 256 * acc + b.toNat) 0 := by
    induction bytes with
    | nil => rfl
    | cons b bytes ih => rw [ofLittleEndian, List.foldr_cons, ih, Nat.add_comm]
  rw [ofBigEndian, hvalue, List.foldr_reverse]
  rfl

/-- **Bytes are read as the number that they stand for.** -/
theorem signedForm_iff : SignedForm bytes n ↔ bytes ≠ [] ∧ ofTwosComplement bytes = n := by
  cases bytes with
  | nil => exact iff_of_false (fun h => h.ne_nil rfl) fun h => h.1 rfl
  | cons first rest =>
    have hfirst := first.toNat_lt
    have hvalue := ofBigEndian_lt rest
    -- the first bit of the first byte is the sign
    have hsign : 128 ≤ first ↔
        Number.twoPow (8 * (first :: rest).length) ≤ 2 * ofBigEndian (first :: rest) := by
      rw [ofBigEndian_cons, twoPow_length_cons, UInt8.le_iff_toNat_le]
      show 128 ≤ first.toNat ↔ _
      constructor
      · intro hge
        have := Nat.mul_le_mul_left (Number.twoPow (8 * rest.length)) hge
        omega
      · intro hge
        by_contra hlt
        have := Nat.mul_le_mul_left (Number.twoPow (8 * rest.length))
          (show first.toNat ≤ 127 by omega)
        omega
    have hlt := ofBigEndian_lt (first :: rest)
    rw [ofTwosComplement_cons]
    simp only [hsign]
    constructor
    · rintro ⟨-, ⟨hleast, hgreatest⟩, hform⟩
      refine ⟨List.cons_ne_nil _ _, ?_⟩
      split at hform <;> split <;> omega
    · rintro ⟨-, hread⟩
      refine ⟨List.cons_ne_nil _ _, ?_, ?_⟩
      · unfold FitsSigned
        split at hread <;> omega
      · split at hread <;> split <;> omega

theorem length_twosComplement (n : Int) (width : Nat) : (twosComplement n width).length = width := by
  induction width generalizing n with
  | zero => rfl
  | succ width ih => rw [twosComplement, List.length_append, ih]; rfl

/-- Writing keeps what the width can hold. -/
theorem ofBigEndian_twosComplement (n : Int) (width : Nat) :
    (ofBigEndian (twosComplement n width) : Int) = n % Number.twoPow (8 * width) := by
  induction width generalizing n with
  | zero => exact (Int.emod_one n).symm
  | succ width ih =>
    have hlast : ((UInt8.ofNat (n % 256).toNat).toNat : Int) = n % 256 := by
      rw [UInt8.toNat_ofNat']
      omega
    have hweight : Number.twoPow (8 * (width + 1)) = 256 * Number.twoPow (8 * width) := by
      rw [Nat.mul_add, Nat.add_comm, Number.twoPow_add]
      rfl
    rw [twosComplement, ofBigEndian_append, ofBigEndian_singleton]
    show ((256 * ofBigEndian (twosComplement (n / 256) width) + _ : Nat) : Int) = _
    have hmod := Int.emod_def (n / 256) (Number.twoPow (8 * width))
    rw [Int.natCast_add, Int.natCast_mul, ih, hlast, hweight, Int.natCast_mul, Int.emod_def n (_ * _),
      Int.mul_assoc]
    show 256 * _ + _ = n - 256 * (_ * (n / (256 * _)))
    rw [← Int.ediv_ediv_of_nonneg (by decide)]
    omega

theorem signedForm_twosComplement {width : Nat} (hpos : 0 < width) (h : FitsSigned width n) :
    SignedForm (twosComplement n width) n where
  ne_nil := List.ne_nil_of_length_pos ((length_twosComplement n width).symm ▸ hpos)
  fits := (length_twosComplement n width).symm ▸ h
  ofBigEndian_eq := by rw [ofBigEndian_twosComplement, h.emod_eq, length_twosComplement]

/-- **Without the bytes that repeat the sign a form is the shortest.** -/
theorem shortestForm_dropSignBytes (h : SignedForm bytes n) :
    ShortestForm (dropSignBytes bytes) n := by
  have hiff (a b : UInt8) : ((a = 0 && b < 128) || (a = 255 && 128 ≤ b)) = true ↔
      (a = 0 ∧ b < 128) ∨ (a = 255 ∧ 128 ≤ b) := by
    rw [Bool.or_eq_true, Bool.and_eq_true, Bool.and_eq_true, decide_eq_true_iff, decide_eq_true_iff,
      decide_eq_true_iff, decide_eq_true_iff]
  fun_induction dropSignBytes bytes with
  | case1 a b rest hrepeats ih => exact ih (h.tail ((hiff a b).1 hrepeats))
  | case2 a b rest hneeded =>
    refine ⟨h, fun other hother => ?_⟩
    by_contra hless
    rw [List.length_cons, Nat.not_le, Nat.lt_succ_iff] at hless
    exact hneeded ((hiff a b).2 (h.repeats_iff.2 (hother.fits.mono hless)))
  | case3 bytes hshort =>
    refine ⟨h, fun other hother => ?_⟩
    have hother := List.length_pos_iff.2 hother.ne_nil
    match bytes, hshort with
    | [], _ => exact Nat.zero_le _
    | [_], _ => exact hother
    | a :: b :: rest, hshort => exact absurd rfl (hshort a b rest)

/-! ## Decimals -/

/-- A coefficient takes no more than 16 bytes. -/
theorem fitsSigned_coeff (d : Decimal) : FitsSigned 16 d.coeff := by
  have hlt := d.magnitude_lt
  have habs := d.natAbs_coeff
  have hweight : Number.twoPow (8 * 16) = 4294967296 * coeffLimit := rfl
  unfold FitsSigned
  omega

/-- **A decimal is written as its scale and the shortest form of its
coefficient.** -/
theorem exists_toBytes (d : Decimal) : ∃ unscaled,
    d.toBytes = bigEndian 2 d.scale ++ unscaled ∧ unscaled.length ≤ 16 ∧
      ShortestForm unscaled d.coeff := by
  have hform := signedForm_twosComplement (by decide) d.fitsSigned_coeff
  have hshortest := shortestForm_dropSignBytes hform
  refine ⟨dropSignBytes (twosComplement d.coeff 16), rfl, ?_, hshortest⟩
  have hlength := hshortest.length_le _ hform
  rwa [length_twosComplement] at hlength

/-- The coefficient and the scale make the decimal again, but for the sign
of a zero. -/
theorem ofParts_coeff (d : Decimal) : ofParts d.coeff d.scale = .ok d.unsignedZero := by
  have hsigned : signed d.negative d.magnitude = d.coeff := rfl
  rw [← hsigned, ofParts_signed]

theorem ofParts_eq_ok_iff {d : Decimal} {scale : Nat} :
    ofParts n scale = .ok d ↔ d.coeff = n ∧ d.scale = scale ∧ d.unsignedZero = d := by
  have hself := d.ofParts_coeff
  constructor
  · intro h
    have hparts : d.toScaled = .ofCoeff n scale := by
      unfold ofParts ofScaled at h
      split at h
      · split at h
        · rw [← Except.ok.inj h]
        · split at h <;> cases h
      · cases h
    have hcoeff : d.coeff = n := by rw [hparts, Scaled.coeff_ofCoeff]
    have hscale : d.scale = scale := by rw [hparts]; rfl
    rw [hcoeff, hscale, h] at hself
    exact ⟨hcoeff, hscale, (Except.ok.inj hself).symm⟩
  · rintro ⟨rfl, rfl, hzero⟩
    rw [hself, hzero]

theorem ofBigEndian_scale {scale : Nat} (hscale : scale ≤ maxScale) :
    ofBigEndian (bigEndian 2 scale) = scale := by
  rw [ofBigEndian_bigEndian]
  exact Nat.mod_eq_of_lt (Nat.lt_of_le_of_lt hscale (by decide))

/-- Two bytes are a scale exactly when they are how it is written. -/
theorem eq_bigEndian_iff {scale : Nat} (hscale : scale ≤ maxScale) (hlength : bytes.length = 2) :
    ofBigEndian bytes = scale ↔ bytes = bigEndian 2 scale := by
  have hwritten := ofBigEndian_scale hscale
  constructor
  · intro h
    exact eq_of_ofBigEndian_eq (hlength.trans (length_bigEndian 2 scale).symm)
      (h.trans hwritten.symm)
  · intro h
    rw [h, hwritten]

/-- **What is read** is the scale in the first two bytes and the coefficient
that the others stand for. -/
theorem ofBytes_eq_ok_iff {d : Decimal} : ofBytes bytes = .ok d ↔
    ∃ unscaled, bytes = bigEndian 2 d.scale ++ unscaled ∧ unscaled.length ≤ 16 ∧
      SignedForm unscaled d.coeff ∧ d.unsignedZero = d := by
  have hread (high low : UInt8) (unscaled : List UInt8) :
      ofBytes (high :: low :: unscaled) = .ok d ↔ unscaled ≠ [] ∧ unscaled.length ≤ 16 ∧
        256 * high.toNat + low.toNat < 0x8000 ∧
        ofParts (ofTwosComplement unscaled) (256 * high.toNat + low.toNat) = .ok d := by
    rw [ofBytes]
    dsimp only
    split
    · rename_i hlength
      refine iff_of_false (fun h => nomatch h) fun h => ?_
      rw [Bool.or_eq_true, List.isEmpty_iff, decide_eq_true_iff] at hlength
      exact hlength.elim h.1 (Nat.not_lt.2 h.2.1)
    · rename_i hlength
      rw [Bool.or_eq_true, List.isEmpty_iff, decide_eq_true_iff, not_or, Nat.not_lt] at hlength
      split
      · rename_i hscale
        exact iff_of_false (fun h => nomatch h) fun h => absurd h.2.2.1 (Nat.not_lt.2 hscale)
      · rename_i hscale
        rw [Except.mapError_eq_ok]
        exact ⟨fun h => ⟨hlength.1, hlength.2, Nat.not_le.1 hscale, h⟩, fun h => h.2.2.2⟩
  have hscale := d.scale_le
  have hpair (high low : UInt8) : 256 * high.toNat + low.toNat = d.scale ↔
      [high, low] = bigEndian 2 d.scale := by
    rw [← eq_bigEndian_iff hscale rfl]
    exact Eq.congr_left (ofBigEndian_cons high [low]).symm
  constructor
  · intro h
    match bytes, h with
    | high :: low :: unscaled, h =>
      obtain ⟨hnil, hlength, -, hparts⟩ := (hread high low unscaled).1 h
      obtain ⟨hcoeff, hsame, hzero⟩ := ofParts_eq_ok_iff.1 hparts
      refine ⟨unscaled, ?_, hlength, signedForm_iff.2 ⟨hnil, hcoeff.symm⟩, hzero⟩
      rw [← (hpair high low).1 hsame.symm]
      rfl
  · rintro ⟨unscaled, rfl, hlength, hform, hzero⟩
    obtain ⟨hnil, hcoeff⟩ := signedForm_iff.1 hform
    have hsame := (hpair (UInt8.ofNat (d.scale / 256)) (UInt8.ofNat d.scale)).2 rfl
    refine (hread _ _ unscaled).2
      ⟨hnil, hlength, ?_, ofParts_eq_ok_iff.2 ⟨hcoeff.symm, hsame.symm, hzero⟩⟩
    rw [hsame]
    exact Nat.lt_of_le_of_lt hscale (by decide)

/-- **The byte form of decimals is exact.** A decimal is written as two
bytes of scale and the shortest form of its coefficient, and read back as
it was but for the sign of a zero. Bytes are read exactly when they are 3
to 18, the first two a scale and the others a form of a coefficient; what
they are read as is that, and it is written as they are exactly when their
form was the shortest. -/
theorem byteForm_exact :
    (∀ d : Decimal, ofBytes d.toBytes = .ok d.unsignedZero ∧ ∃ unscaled,
      d.toBytes = bigEndian 2 d.scale ++ unscaled ∧ ShortestForm unscaled d.coeff) ∧
    ∀ bytes : List UInt8,
      ((∃ d, ofBytes bytes = .ok d) ↔
        (3 ≤ bytes.length ∧ bytes.length ≤ 18) ∧ ofBigEndian (bytes.take 2) ≤ maxScale ∧
          ∃ n, SignedForm (bytes.drop 2) n ∧ n.natAbs < coeffLimit) ∧
      ∀ d, ofBytes bytes = .ok d →
        d.scale = ofBigEndian (bytes.take 2) ∧ SignedForm (bytes.drop 2) d.coeff ∧
          (d.toBytes = bytes ↔ ShortestForm (bytes.drop 2) d.coeff) := by
  refine ⟨fun d => ?_, fun bytes => ⟨⟨?_, ?_⟩, fun d hread => ?_⟩⟩
  · obtain ⟨unscaled, hbytes, hlength, hshortest⟩ := d.exists_toBytes
    obtain ⟨hcoeff, hscale, hzero⟩ := ofParts_eq_ok_iff.1 d.ofParts_coeff
    refine ⟨ofBytes_eq_ok_iff.2 ⟨unscaled, ?_, hlength, ?_, hzero⟩, unscaled, hbytes, hshortest⟩
    · rw [hscale, hbytes]
    · rw [hcoeff]
      exact hshortest.toSignedForm
  · rintro ⟨d, hread⟩
    obtain ⟨unscaled, rfl, hlength, hform, -⟩ := ofBytes_eq_ok_iff.1 hread
    have hpos := List.length_pos_iff.2 hform.ne_nil
    rw [List.take_left' (length_bigEndian 2 _), List.drop_left' (length_bigEndian 2 _),
      List.length_append, length_bigEndian, ofBigEndian_scale d.scale_le]
    refine ⟨by omega, d.scale_le, d.coeff, hform, ?_⟩
    rw [d.natAbs_coeff]
    exact d.magnitude_lt
  · rintro ⟨hlength, hscale, n, hform, hlt⟩
    -- the decimal of the scale and the number that stand there
    obtain ⟨d, hparts⟩ : ∃ d, ofParts n (ofBigEndian (bytes.take 2)) = .ok d :=
      ⟨_, ofScaled_eq ⟨.ofCoeff n (ofBigEndian (bytes.take 2)), hlt, hscale⟩⟩
    obtain ⟨hcoeff, hsame, hzero⟩ := ofParts_eq_ok_iff.1 hparts
    refine ⟨d, ofBytes_eq_ok_iff.2 ⟨bytes.drop 2, ?_, ?_, hcoeff.symm ▸ hform, hzero⟩⟩
    · rw [hsame, ← (eq_bigEndian_iff hscale (List.length_take_of_le (by omega))).1 rfl,
        List.take_append_drop]
    · rw [List.length_drop]
      omega
  · obtain ⟨unscaled, rfl, -, hform, -⟩ := ofBytes_eq_ok_iff.1 hread
    obtain ⟨written, hwritten, -, hshortest⟩ := d.exists_toBytes
    rw [List.take_left' (length_bigEndian 2 _), List.drop_left' (length_bigEndian 2 _),
      ofBigEndian_scale d.scale_le, hwritten, List.append_cancel_left_eq]
    refine ⟨rfl, hform, ?_, fun hshort => hshortest.unique hshort⟩
    rintro rfl
    exact hshortest

/-- The bytes of -1.28 with one that it does not need are read, and are not
how it is written. -/
theorem byteForm_exact_padded : ∃ d, ofBytes [0, 2, 255, 128] = .ok d ∧ d.scale = 2 ∧
    d.coeff = -128 ∧ SignedForm [255, 128] d.coeff ∧
    (d.toBytes = [0, 2, 255, 128] ↔ ShortestForm [255, 128] d.coeff) ∧
    d.toBytes = [0, 2, 128] := by
  let d : Decimal := ⟨.ofCoeff (-128) 2, by decide, by decide⟩
  have hread : ofBytes [0, 2, 255, 128] = .ok d := rfl
  obtain ⟨hscale, hform, hwritten⟩ := (byteForm_exact.2 [0, 2, 255, 128]).2 d hread
  exact ⟨d, hread, hscale, rfl, hform, hwritten, by decide⟩

end Decimal

end SegmentQuery
