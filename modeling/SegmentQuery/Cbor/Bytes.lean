/-!
# Bytes

Unsigned integers of a fixed number of bytes, in both byte orders, and
texts as UTF-8. Reading works on the front of a byte list and yields
what is left.
-/


namespace SegmentQuery

namespace Bytes

/-- The last `width` bytes of `n`, low byte first. -/
def littleEndian : (width : Nat) → (n : Nat) → List UInt8
  | 0, _ => []
  | width + 1, n => UInt8.ofNat n :: littleEndian width (n / 256)

/-- The last `width` bytes of `n`, high byte first. -/
def bigEndian (width n : Nat) : List UInt8 := (littleEndian width n).reverse

/-- The number that bytes stand for, low byte first. -/
def ofLittleEndian : List UInt8 → Nat
  | [] => 0
  | b :: rest => b.toNat + 256 * ofLittleEndian rest

/-- The number that bytes stand for, high byte first. -/
def ofBigEndian (bytes : List UInt8) : Nat := ofLittleEndian bytes.reverse

/-- Split off the first `n` bytes. -/
def take? : (n : Nat) → List UInt8 → Option (List UInt8 × List UInt8)
  | 0, bytes => some ([], bytes)
  | _ + 1, [] => none
  | n + 1, b :: rest => (take? n rest).map fun (taken, rest) => (b :: taken, rest)

/-- Split off a number of `width` bytes, high byte first. -/
def takeBigEndian? (width : Nat) (bytes : List UInt8) : Option (Nat × List UInt8) :=
  (take? width bytes).map fun (taken, rest) => (ofBigEndian taken, rest)

/-- Split off a number of `width` bytes, low byte first. -/
def takeLittleEndian? (width : Nat) (bytes : List UInt8) : Option (Nat × List UInt8) :=
  (take? width bytes).map fun (taken, rest) => (ofLittleEndian taken, rest)

/-- Run a reader `n` times. -/
def times {α : Type} (read : List UInt8 → Option (α × List UInt8)) :
    (n : Nat) → List UInt8 → Option (List α × List UInt8)
  | 0, bytes => some ([], bytes)
  | n + 1, bytes => do
    let (a, rest) ← read bytes
    let (as, rest) ← times read n rest
    return (a :: as, rest)

/-! ## Texts -/

/-- A text as UTF-8. -/
def ofText (s : String) : List UInt8 := s.toUTF8.data.toList

/-- The text that bytes spell in UTF-8. -/
def text? (bytes : List UInt8) : Option String := String.fromUTF8? ⟨bytes.toArray⟩

end Bytes

end SegmentQuery
