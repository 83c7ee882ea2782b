import SegmentQuery.Error.Basic
/-!
# The byte form of decimals

Two bytes of scale, high byte first, and the coefficient in two's
complement in as few bytes as hold it, at least one. Reading takes 3 to
18 bytes and judges length, sign of the scale and range in that order.
-/


namespace SegmentQuery

namespace Decimal

/-- The last `width` bytes of `n` in two's complement, high byte
first. -/
def twosComplement (n : Int) : Nat → List UInt8
  | 0 => []
  | width + 1 => twosComplement (n / 256) width ++ [UInt8.ofNat (n % 256).toNat]

/-- Drop leading bytes that only repeat the sign of what follows. -/
def dropSignBytes : List UInt8 → List UInt8
  | a :: b :: rest =>
    if (a = 0 && b < 128) || (a = 255 && 128 ≤ b) then dropSignBytes (b :: rest) else a :: b :: rest
  | bytes => bytes

/-- The integer that bytes stand for in two's complement. -/
def ofTwosComplement (bytes : List UInt8) : Int :=
  let magnitude : Nat := bytes.foldl (fun acc b => 256 * acc + b.toNat) 0
  match bytes with
  | first :: _ => if 128 ≤ first then (magnitude : Int) - Number.twoPow (8 * bytes.length) else magnitude
  | [] => 0

def toBytes (d : Decimal) : List UInt8 :=
  [UInt8.ofNat (d.scale / 256), UInt8.ofNat d.scale] ++ dropSignBytes (twosComplement d.coeff 16)

def ofBytes (bytes : List UInt8) : Except QueryError Decimal :=
  match bytes with
  | high :: low :: unscaled =>
    if unscaled.isEmpty || decide (16 < unscaled.length) then
      .error (.decimalBytesLength bytes.length)
    else
      let scale := 256 * high.toNat + low.toNat
      if 0x8000 ≤ scale then .error (.negativeDecimalScale ((scale : Int) - 0x10000))
      else (ofParts (ofTwosComplement unscaled) scale).mapError .decimalBytesRange
  | _ => .error (.decimalBytesLength bytes.length)

end Decimal

end SegmentQuery
