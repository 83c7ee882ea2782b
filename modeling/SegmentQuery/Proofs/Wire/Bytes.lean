import Mathlib.Algebra.Group.Nat.Defs
import Mathlib.Data.List.Forall2
import SegmentQuery.Cbor.Bytes
/-!
# Bytes read back

A reader that takes exactly some bytes from the front of a list, whatever
follows them, reads what was written before it goes on. Numbers of a
fixed width and texts are read like that, and so are runs of what a
reader takes.
-/


namespace SegmentQuery

namespace Bytes

variable {α β : Type} {read : List UInt8 → Option (α × List UInt8)}

/-- A reader takes these bytes from the front and makes `a` of them,
whatever follows. -/
def Takes (read : List UInt8 → Option (α × List UInt8)) (bytes : List UInt8) (a : α) : Prop :=
  ∀ rest, read (bytes ++ rest) = some (a, rest)

/-! ## Numbers -/

@[simp] theorem length_littleEndian (width n : Nat) : (littleEndian width n).length = width := by
  induction width generalizing n with
  | zero => rfl
  | succ width ih => rw [littleEndian, List.length_cons, ih]

@[simp] theorem length_bigEndian (width n : Nat) : (bigEndian width n).length = width := by
  rw [bigEndian, List.length_reverse, length_littleEndian]

/-- A number loses what its bytes cannot hold. -/
theorem ofLittleEndian_littleEndian (width n : Nat) :
    ofLittleEndian (littleEndian width n) = n % 256 ^ width := by
  induction width generalizing n with
  | zero => rw [Nat.pow_zero, Nat.mod_one]; rfl
  | succ width ih =>
    have hbyte : (UInt8.ofNat n).toNat = n % 256 := UInt8.toNat_ofNat'
    rw [littleEndian, ofLittleEndian, ih, hbyte, Nat.pow_succ', Nat.mod_mul]

theorem ofBigEndian_bigEndian (width n : Nat) : ofBigEndian (bigEndian width n) = n % 256 ^ width := by
  rw [ofBigEndian, bigEndian, List.reverse_reverse, ofLittleEndian_littleEndian]

/-! ## Readers -/

theorem takes_take? (bytes : List UInt8) : Takes (take? bytes.length) bytes bytes := by
  intro rest
  induction bytes with
  | nil => rfl
  | cons b bytes ih =>
    show (take? bytes.length (bytes ++ rest)).map _ = _
    rw [ih]
    rfl

/-- What a reader makes of the bytes may be made into something else. -/
theorem Takes.map {bytes : List UInt8} {a : α} (h : Takes read bytes a) (f : α → β) :
    Takes (fun bytes => (read bytes).map fun (a, rest) => (f a, rest)) bytes (f a) := by
  intro rest
  show (read (bytes ++ rest)).map _ = _
  rw [h, Option.map_some]

/-- A reader may go on by what it has read. -/
theorem Takes.bind {next : α → List UInt8 → Option (β × List UInt8)} {bytes more : List UInt8}
    {a : α} {b : β} (h : Takes read bytes a) (hnext : Takes (next a) more b) :
    Takes (fun bytes => do let (a, rest) ← read bytes; next a rest) (bytes ++ more) b := by
  intro rest
  show (read (bytes ++ more ++ rest)).bind _ = _
  rw [List.append_assoc, h]
  exact hnext rest

theorem takes_littleEndian (width n : Nat) :
    Takes (takeLittleEndian? width) (littleEndian width n) (n % 256 ^ width) := by
  have htake := (takes_take? (littleEndian width n)).map ofLittleEndian
  rwa [length_littleEndian, ofLittleEndian_littleEndian] at htake

theorem takes_bigEndian {width n : Nat} (hn : n < 256 ^ width) :
    Takes (takeBigEndian? width) (bigEndian width n) n := by
  have htake := (takes_take? (bigEndian width n)).map ofBigEndian
  rwa [length_bigEndian, ofBigEndian_bigEndian, Nat.mod_eq_of_lt hn] at htake

/-- **A reader run once for each piece takes the pieces**, one after the
other. -/
theorem takes_times {pieces : List (List UInt8)} {as : List α}
    (h : List.Forall₂ (Takes read) pieces as) : Takes (times read as.length) pieces.flatten as := by
  induction h with
  | nil => exact fun _ => rfl
  | @cons piece a pieces as hpiece _ ih =>
    intro rest
    rw [List.flatten_cons, List.append_assoc, List.length_cons, times, hpiece]
    show (times read as.length (pieces.flatten ++ rest)).bind _ = _
    rw [ih]
    rfl

/-! ## Texts -/

/-- **A text is read back from its bytes.** -/
@[simp] theorem text?_ofText (s : String) : text? (ofText s) = some s := by
  have hbytes : (⟨(ofText s).toArray⟩ : ByteArray) = s.toUTF8 := by
    rw [ofText, Array.toArray_toList]
  rw [text?, hbytes]
  have hvalid : s.toUTF8.IsValidUTF8 := s.isValidUTF8
  rw [String.fromUTF8?, dif_pos hvalid]
  rfl

end Bytes

end SegmentQuery
