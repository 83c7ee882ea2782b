import SegmentQuery.Number.Layout
/-!
# Doubles and singles

Floating-point cells are kept as bit patterns, so that two cells are the
same exactly when their bits are. Every comparison is a comparison of
integers read off the bits: `lt` and `le` are the numeric ones (false on
NaN, the two zeros equal), `compareTotal` orders all patterns, and
`compareRanked` identifies the zeros and puts NaN above everything.
Sums, products and quotients are the machine's.
-/


namespace SegmentQuery

open Number

/-- A 64 bit floating-point number. -/
structure Double where
  bits : UInt64
  deriving DecidableEq, Repr

/-- A 32 bit floating-point number. -/
structure Single where
  bits : UInt32
  deriving DecidableEq, Repr

/-- The integer that orders sign-and-magnitude patterns numerically: the
magnitude, negated below the sign bit. Both zeros give 0. -/
def Number.signedMagnitude (signBit bits : Nat) : Int :=
  if bits < signBit then (bits : Int) else -((bits - signBit : Nat) : Int)

/-- The integer that orders all patterns, the negative zero before the
positive one. -/
def Number.totalRank (signBit bits : Nat) : Int :=
  if bits < signBit then (bits : Int) else -((bits - signBit : Nat) : Int) - 1

namespace Double

def ofDatum (d : Datum) : Double := ⟨UInt64.ofNat (Layout.double.pattern d)⟩

def datum (x : Double) : Datum := Layout.double.datum x.bits.toNat

def zero : Double := ⟨0⟩

def infinity : Double := ⟨0x7ff0000000000000⟩

def negInfinity : Double := ⟨0xfff0000000000000⟩

def nan : Double := ⟨0x7ff8000000000000⟩

/-- The nearest double of an integer. -/
def ofInt (i : Int) : Double := ofDatum (.finite (decide (i < 0)) i.natAbs 0)

/-! ## Order -/

def isNan (x : Double) : Bool :=
  decide (Layout.double.infinity < x.bits.toNat % Layout.double.signBit)

def isFinite (x : Double) : Bool :=
  decide (x.bits.toNat % Layout.double.signBit < Layout.double.infinity)

/-- The place of a number among the numbers. -/
def rank (x : Double) : Int := signedMagnitude Layout.double.signBit x.bits.toNat

def lt (x y : Double) : Bool := !x.isNan && !y.isNan && decide (x.rank < y.rank)

def le (x y : Double) : Bool := !x.isNan && !y.isNan && decide (x.rank ≤ y.rank)

/-- Numeric equality: the zeros are equal and a NaN equals nothing. -/
def numEq (x y : Double) : Bool := !x.isNan && !y.isNan && decide (x.rank = y.rank)

/-- The order of all patterns. -/
def compareTotal (x y : Double) : Ordering :=
  compare (totalRank Layout.double.signBit x.bits.toNat)
    (totalRank Layout.double.signBit y.bits.toNat)

/-- The place of a value among the values that keys tell apart: one
place for both zeros and one, above all others, for every NaN. -/
def keyRank (x : Double) : Int := if x.isNan then Layout.double.signBit else x.rank

def compareRanked (x y : Double) : Ordering := compare x.keyRank y.keyRank

/-- The lesser number; a NaN side is ignored. -/
def min (x y : Double) : Double :=
  if x.isNan then y else if y.isNan then x else if y.lt x then y else x

/-- The greater number; a NaN side is ignored. -/
def max (x y : Double) : Double :=
  if x.isNan then y else if y.isNan then x else if x.lt y then y else x

/-! ## Arithmetic -/

def toFloat (x : Double) : Float := Float.ofBits x.bits

def ofFloat (x : Float) : Double := ⟨x.toBits⟩

def add (x y : Double) : Double := ofFloat (x.toFloat + y.toFloat)

def mul (x y : Double) : Double := ofFloat (x.toFloat * y.toFloat)

def div (x y : Double) : Double := ofFloat (x.toFloat / y.toFloat)

def neg (x : Double) : Double := ⟨x.bits ^^^ 0x8000000000000000⟩

/-- The nearest whole number, a half away from zero. -/
def round (x : Double) : Double := ofFloat x.toFloat.round

/-- The whole part as a 64 bit integer, clamped at both ends; a NaN
gives 0. -/
def toInt64 (x : Double) : Int64 :=
  match x.datum with
  | .nan => 0
  | .infinite negative => if negative then Int64.minValue else Int64.maxValue
  | .finite negative m e =>
    let whole : Nat := if 0 ≤ e then m * twoPow e.toNat else m / twoPow (-e).toNat
    let signed : Int := if negative then -(whole : Int) else whole
    if signed < Int64.minValue.toInt then Int64.minValue
    else if Int64.maxValue.toInt < signed then Int64.maxValue
    else Int64.ofInt signed

end Double

namespace Single

def ofDatum (d : Datum) : Single := ⟨UInt32.ofNat (Layout.single.pattern d)⟩

def datum (x : Single) : Datum := Layout.single.datum x.bits.toNat

def zero : Single := ⟨0⟩

def negInfinity : Single := ⟨0xff800000⟩

/-- The nearest single of an integer. -/
def ofInt (i : Int) : Single := ofDatum (.finite (decide (i < 0)) i.natAbs 0)

def isNan (x : Single) : Bool :=
  decide (Layout.single.infinity < x.bits.toNat % Layout.single.signBit)

def isFinite (x : Single) : Bool :=
  decide (x.bits.toNat % Layout.single.signBit < Layout.single.infinity)

def rank (x : Single) : Int := signedMagnitude Layout.single.signBit x.bits.toNat

def le (x y : Single) : Bool := !x.isNan && !y.isNan && decide (x.rank ≤ y.rank)

def numEq (x y : Single) : Bool := !x.isNan && !y.isNan && decide (x.rank = y.rank)

def compareTotal (x y : Single) : Ordering :=
  compare (totalRank Layout.single.signBit x.bits.toNat)
    (totalRank Layout.single.signBit y.bits.toNat)

def keyRank (x : Single) : Int := if x.isNan then Layout.single.signBit else x.rank

def compareRanked (x y : Single) : Ordering := compare x.keyRank y.keyRank

/-- Every single is a double. -/
def widen (x : Single) : Double := Double.ofDatum x.datum

end Single

/-- The single nearest to a double. -/
def Double.narrow (x : Double) : Single := Single.ofDatum x.datum

end SegmentQuery
