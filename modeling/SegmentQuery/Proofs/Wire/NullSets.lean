import Mathlib.Data.List.Sort
import Mathlib.Data.List.TakeWhile
import SegmentQuery.Proofs.Result.NullSets
import SegmentQuery.Proofs.Wire.Bytes
import SegmentQuery.Wire.NullSet
/-!
# Null sets read back

The chunks of a set are read back one by one: a list of lower halves by
its numbers and a bitmap by its bits, which are those of the numbers.
Chunks are never empty, so the size that wraps around in an empty one
always fits, and there are no more of them than upper halves.
-/


namespace SegmentQuery

namespace NullSet

open Bytes (Takes)
open Number (twoPow)

/-! ## Bits -/

/-- The byte of ascending places has the bits at these places. -/
theorem testBit_foldl {places : List Nat} (hasc : places.Pairwise (· < ·)) {byte : Nat}
    (hbyte : ∀ place ∈ places, byte < 2 ^ place) (bit : Nat) :
    (places.foldl (fun byte place => byte + twoPow place) byte).testBit bit =
      (byte.testBit bit || decide (bit ∈ places)) := by
  induction places generalizing byte with
  | nil => simp
  | cons place places ih =>
    obtain ⟨hplace, hrest⟩ := List.pairwise_cons.1 hasc
    have hlt := hbyte place List.mem_cons_self
    -- the place is above all bits so far
    have hor : byte + twoPow place = 2 ^ place ||| byte := by
      have := Nat.two_pow_add_eq_or_of_lt hlt 1
      rw [Nat.mul_one] at this
      rw [← this, Nat.add_comm]
      rfl
    have hnext : ∀ next ∈ places, byte + twoPow place < 2 ^ next := by
      intro next hnext
      have hpow : 2 ^ (place + 1) ≤ 2 ^ next := Nat.pow_le_pow_right Nat.two_pos (hplace next hnext)
      have htwo : twoPow place = 2 ^ place := rfl
      rw [Nat.pow_succ] at hpow
      omega
    rw [List.foldl_cons, ih hrest hnext, hor, Nat.testBit_or, Nat.testBit_two_pow]
    simp only [List.mem_cons, Bool.decide_or, eq_comm (a := place)]
    rw [Bool.or_comm (decide (bit = place)), Bool.or_assoc]

theorem foldl_lt {places : List Nat} (hasc : places.Pairwise (· < ·)) {byte width : Nat}
    (hbyte : ∀ place ∈ places, byte < 2 ^ place) (hwidth : ∀ place ∈ places, place < width)
    (hlt : byte < 2 ^ width) :
    places.foldl (fun byte place => byte + twoPow place) byte < 2 ^ width := by
  refine Nat.lt_pow_two_of_testBit _ fun bit hbit => ?_
  rw [testBit_foldl hasc hbyte, Nat.testBit_lt_two_pow
    (Nat.lt_of_lt_of_le hlt (Nat.pow_le_pow_right Nat.two_pos hbit)), Bool.false_or]
  exact decide_eq_false fun hmem => absurd (hwidth bit hmem) (Nat.not_lt.2 hbit)

/-- **The bits of a byte are the numbers that it marks.** -/
theorem bits_of_byte {index : Nat} {here : List Nat} (hasc : here.Pairwise (· < ·))
    (hhere : ∀ low ∈ here, 8 * index ≤ low ∧ low < 8 * (index + 1)) :
    ((List.range 8).filter (UInt8.ofNat (here.foldl
      (fun byte low => byte + twoPow (low - 8 * index)) 0)).toNat.testBit).map (8 * index + ·) =
        here := by
  obtain ⟨places, hplaces⟩ : ∃ places, places = here.map (· - 8 * index) := ⟨_, rfl⟩
  have hback : places.map (8 * index + ·) = here := by
    rw [hplaces, List.map_map]
    exact (List.map_congr_left fun low hlow => Nat.add_sub_cancel' (hhere low hlow).1).trans
      (List.map_id here)
  have hwidth : ∀ place ∈ places, place < 8 := by
    rw [hplaces, List.forall_mem_map]
    intro low hlow
    have := hhere low hlow
    omega
  have hsorted : places.Pairwise (· < ·) := by
    rw [hplaces, List.pairwise_map]
    refine hasc.imp_of_mem fun {a b} ha hb hab => ?_
    have := hhere a ha
    omega
  have hpos : ∀ place ∈ places, 0 < 2 ^ place := fun place _ => Nat.two_pow_pos place
  have hfold : here.foldl (fun byte low => byte + twoPow (low - 8 * index)) 0 =
      places.foldl (fun byte place => byte + twoPow place) 0 := by
    rw [hplaces, List.foldl_map]
  have hbyte := foldl_lt hsorted hpos hwidth (show 0 < 2 ^ 8 by decide)
  rw [hfold, UInt8.toNat_ofNat_of_lt' hbyte]
  have hbits : (List.range 8).filter
      (places.foldl (fun byte place => byte + twoPow place) 0).testBit = places := by
    refine (List.pairwise_lt_range.filter _).eq_of_mem_iff hsorted fun bit => ?_
    rw [List.mem_filter, List.mem_range, testBit_foldl hsorted hpos, Nat.zero_testBit,
      Bool.false_or, decide_eq_true_iff]
    exact ⟨fun h => h.2, fun h => ⟨hwidth bit h, h⟩⟩
  rw [hbits, hback]

theorem length_bitmap (count index : Nat) (lows : List Nat) :
    (bitmap count index lows).length = count := by
  induction count generalizing index lows with
  | zero => rfl
  | succ count ih => rw [bitmap, List.length_cons, ih]

/-- What ascending numbers drop below a bound is all that is below it. -/
theorem le_of_mem_dropWhile {lows : List Nat} (hasc : lows.Pairwise (· < ·)) {bound low : Nat}
    (h : low ∈ lows.dropWhile (· < bound)) : bound ≤ low := by
  induction lows with
  | nil => exact absurd h List.not_mem_nil
  | cons first lows ih =>
    obtain ⟨hfirst, hrest⟩ := List.pairwise_cons.1 hasc
    rw [List.dropWhile_cons] at h
    split at h
    · exact ih hrest h
    · rename_i hge
      rw [decide_eq_true_iff, Nat.not_lt] at hge
      rcases List.mem_cons.1 h with rfl | h
      · exact hge
      · exact Nat.le_trans hge (hfirst low h).le

/-- **A bitmap marks the numbers that it was made of.** -/
theorem bits_of_bitmap {lows : List Nat} (hasc : lows.Pairwise (· < ·)) {count index : Nat}
    (hlow : ∀ low ∈ lows, 8 * index ≤ low ∧ low < 8 * (index + count)) :
    ((bitmap count index lows).zipIdx index).flatMap (fun (byte, index) =>
      ((List.range 8).filter byte.toNat.testBit).map (8 * index + ·)) = lows := by
  induction count generalizing index lows with
  | zero =>
    cases lows with
    | nil => rfl
    | cons low lows =>
      have := hlow low List.mem_cons_self
      omega
  | succ count ih =>
    have hsplit := @List.takeWhile_append_dropWhile _ (· < 8 * (index + 1)) lows
    have hhere : ∀ low ∈ lows.takeWhile (· < 8 * (index + 1)),
        8 * index ≤ low ∧ low < 8 * (index + 1) := by
      intro low hmem
      have hbelow := List.mem_takeWhile_imp hmem
      exact ⟨(hlow low ((List.takeWhile_sublist _).mem hmem)).1, of_decide_eq_true hbelow⟩
    have hthere : ∀ low ∈ lows.dropWhile (· < 8 * (index + 1)),
        8 * (index + 1) ≤ low ∧ low < 8 * (index + 1 + count) := by
      intro low hmem
      have := (hlow low ((List.dropWhile_sublist _).mem hmem)).2
      exact ⟨le_of_mem_dropWhile hasc hmem, by omega⟩
    rw [bitmap, List.zipIdx_cons, List.flatMap_cons,
      ih (hasc.sublist (List.dropWhile_sublist _)) hthere]
    conv_rhs => rw [← hsplit]
    congr 1
    exact bits_of_byte (hasc.sublist (List.takeWhile_sublist _)) hhere

/-! ## Chunks -/

/-- A chunk as sets are cut into: of numbers that ascend, in a bitmap
exactly where they are too many for a list. -/
structure Chunk.Cut (c : Chunk) : Prop where
  high_lt : c.high < halfBound
  size_pos : 0 < c.size
  low_lt : ∀ low ∈ c.lows, low < halfBound
  ascending : c.lows.Pairwise (· < ·)
  marked_eq : c.marked = decide (listLimit < c.size)

variable {c : Chunk}

theorem Chunk.Cut.size_le (h : c.Cut) : c.size ≤ halfBound :=
  DocSet.length_le_of_ascending h.ascending h.low_lt

theorem takes_word16 {n : Nat} (hn : n < halfBound) : Takes word16 (Bytes.littleEndian 2 n) n := by
  have h := Bytes.takes_littleEndian 2 n
  rwa [Nat.mod_eq_of_lt (show n < 256 ^ 2 from hn)] at h

/-- The upper half and the size are read from the description. -/
theorem takes_description (h : c.Cut) : Takes pair16 c.description (c.high, c.size - 1) := by
  have hlast := Bytes.takes_littleEndian 2 (c.size + (halfBound - 1))
  have hwrap : (c.size + (halfBound - 1)) % 256 ^ 2 = c.size - 1 := by
    have hpos := h.size_pos
    have hle := h.size_le
    unfold halfBound at hle ⊢
    omega
  rw [hwrap] at hlast
  intro rest
  rw [pair16, Chunk.description, List.append_assoc, takes_word16 h.high_lt]
  simp only [Option.bind_eq_bind, Option.bind_some]
  rw [word16, hlast]
  rfl

theorem isAscending_of_pairwise {lows : List Nat} (h : lows.Pairwise (· < ·)) :
    isAscending lows = true := by
  induction lows with
  | nil => rfl
  | cons a lows ih =>
    obtain ⟨ha, hrest⟩ := List.pairwise_cons.1 h
    cases lows with
    | nil => rfl
    | cons b lows =>
      rw [isAscending, decide_eq_true (ha b List.mem_cons_self), ih hrest]
      rfl

theorem takes_listed (h : c.Cut) :
    Takes (listed c.size) (c.lows.flatMap (Bytes.littleEndian 2)) c.lows := by
  have hwords : List.Forall₂ (Takes word16) (c.lows.map (Bytes.littleEndian 2)) c.lows := by
    rw [List.forall₂_map_left_iff, List.forall₂_same]
    exact fun low hlow => takes_word16 (h.low_lt low hlow)
  intro rest
  have htimes : Bytes.times word16 c.size _ = _ := Bytes.takes_times hwords rest
  rw [listed, List.flatMap_def, htimes]
  simp only [Option.bind_eq_bind, Option.bind_some]
  rw [isAscending_of_pairwise h.ascending, if_pos rfl]
  rfl

theorem takes_marked (h : c.Cut) :
    Takes (marked c.size) (bitmap bitmapSize 0 c.lows) c.lows := by
  have hbits : bitPlaces (bitmap bitmapSize 0 c.lows) = c.lows :=
    bits_of_bitmap h.ascending fun low hlow => ⟨Nat.zero_le _, by
      have := h.low_lt low hlow
      unfold halfBound at this
      unfold bitmapSize
      omega⟩
  intro rest
  have htake := Bytes.takes_take? (bitmap bitmapSize 0 c.lows) rest
  rw [length_bitmap] at htake
  rw [marked, htake]
  simp only [Option.bind_eq_bind, Option.bind_some]
  rw [hbits, if_pos (show c.lows.length = c.size from rfl)]
  rfl

/-- **A chunk is read back from its content.** -/
theorem takes_plain (h : c.Cut) : Takes (plain c.high c.size) c.content c := by
  have hsame : Chunk.ofLows c.high c.lows = c := by
    obtain ⟨high, lows, marked⟩ := c
    exact congrArg (Chunk.mk high lows) h.marked_eq.symm
  intro rest
  rw [plain, Chunk.content, h.marked_eq]
  by_cases hlist : c.size ≤ listLimit
  · rw [if_pos hlist, decide_eq_false (Nat.not_lt.2 hlist), if_neg Bool.false_ne_true,
      takes_listed h]
    exact congrArg (fun c => some (c, rest)) hsame
  · rw [if_neg hlist, decide_eq_true (Nat.not_le.1 hlist), if_pos rfl, takes_marked h]
    exact congrArg (fun c => some (c, rest)) hsame

/-- **Chunks are read back one after the other.** -/
theorem takes_readChunks {chunks : List Chunk} (h : ∀ c ∈ chunks, c.Cut) :
    Takes (readChunks [] (chunks.map fun c => (c.high, c.size - 1)))
      (chunks.map Chunk.content).flatten chunks := by
  induction chunks with
  | nil => exact fun _ => rfl
  | cons c chunks ih =>
    obtain ⟨hc, hrest⟩ := List.forall_mem_cons.1 h
    intro rest
    have hsize : c.size - 1 + 1 = c.size := Nat.sub_add_cancel hc.size_pos
    rw [List.map_cons, List.map_cons, List.flatten_cons, List.append_assoc, readChunks, hsize]
    show (Option.bind (plain c.high c.size _) _) = _
    rw [takes_plain hc]
    show (Option.bind (readChunks [] _ _) _) = _
    rw [ih hrest]
    rfl

/-! ## Sets -/

/-- The lower halves of a chunk are some and below their bound. -/
theorem lows_of_mem_split {ns : List Nat} {chunk : Nat × List Nat} (h : chunk ∈ split ns) :
    0 < chunk.2.length ∧ ∀ low ∈ chunk.2, low < halfBound := by
  have hmod (n : Nat) : n % halfBound < halfBound := Nat.mod_lt n (by decide)
  induction ns generalizing chunk with
  | nil => exact absurd h List.not_mem_nil
  | cons n rest ih =>
    rcases split_cons_cases n rest with ⟨lows, more, hrest, hsplit⟩ | ⟨hsplit, -⟩
    · rw [hrest] at ih
      rw [hsplit] at h
      rcases List.mem_cons.1 h with rfl | h
      · exact ⟨Nat.succ_pos _,
          List.forall_mem_cons.2 ⟨hmod n, (@ih _ List.mem_cons_self).2⟩⟩
      · exact ih (List.mem_cons_of_mem _ h)
    · rw [hsplit] at h
      rcases List.mem_cons.1 h with rfl | h
      · exact ⟨Nat.one_pos, List.forall_mem_singleton.2 (hmod n)⟩
      · exact ih h

/-- **The chunks of a set are as sets are cut into.** -/
theorem cut_ofDocSet {s : DocSet} (hs : ∀ n ∈ s.toList, n < Number.bound32) :
    ∀ c ∈ (ofDocSet s).chunks, c.Cut := by
  intro c hc
  obtain ⟨⟨high, lows⟩, hmem, rfl⟩ := List.mem_map.1 hc
  obtain ⟨hpos, hlow⟩ := lows_of_mem_split hmem
  have hascending := s.ascending
  rw [← flatMap_split s.toList, List.pairwise_flatMap] at hascending
  have hchunk := hascending.1 _ hmem
  rw [List.pairwise_map] at hchunk
  refine ⟨?_, hpos, hlow, hchunk.imp Nat.lt_of_add_lt_add_left, rfl⟩
  obtain ⟨n, hn, hhigh⟩ := exists_of_mem_split hmem
  have hlt := hs n hn
  show high < halfBound
  rw [show high = n / halfBound from hhigh, Nat.div_lt_iff_lt_mul (by decide)]
  exact hlt

/-- There are no more chunks than upper halves. -/
theorem length_chunks_le {s : DocSet} (hs : ∀ n ∈ s.toList, n < Number.bound32) :
    (ofDocSet s).chunks.length ≤ halfBound := by
  have hlt : ∀ high ∈ (ofDocSet s).chunks.map Chunk.high, high < halfBound :=
    List.forall_mem_map.2 fun c hc => (cut_ofDocSet hs c hc).high_lt
  have hle := DocSet.length_le_of_ascending (ascending_highs s) hlt
  rwa [List.length_map] at hle

theorem length_offsets (start : Nat) (contents : List (List UInt8)) :
    (offsets start contents).length = 4 * contents.length := by
  induction contents generalizing start with
  | nil => rfl
  | cons content contents ih =>
    rw [offsets, List.length_append, ih, Bytes.length_littleEndian, List.length_cons]
    omega

/-- What follows the header is read as the chunks, whatever the offsets
are. -/
theorem readBody_chunks {chunks : List Chunk} (hcut : ∀ c ∈ chunks, c.Cut)
    (hcount : chunks.length ≤ halfBound) {places : List UInt8}
    (hplaces : places.length = 4 * chunks.length) :
    readBody chunks.length [] true ((chunks.map Chunk.description).flatten ++
      (places ++ (chunks.map Chunk.content).flatten)) = some ⟨chunks⟩ := by
  have heach : List.Forall₂ (Takes pair16) (chunks.map Chunk.description)
      (chunks.map fun c => (c.high, c.size - 1)) := by
    rw [List.forall₂_map_left_iff, List.forall₂_map_right_iff, List.forall₂_same]
    exact fun c hc => takes_description (hcut c hc)
  have hdescriptions := Bytes.takes_times heach
  rw [List.length_map] at hdescriptions
  have hskipped := Bytes.takes_take? places
  rw [hplaces] at hskipped
  have hbody := takes_readChunks hcut []
  rw [List.append_nil] at hbody
  rw [readBody, if_neg (Nat.not_lt.2 hcount), hdescriptions]
  simp only [Option.bind_eq_bind, Option.bind_some]
  rw [if_pos trivial, hskipped]
  simp only [Option.bind_some]
  rw [hbody]
  rfl

/-- **A set is read back from its bytes.** -/
theorem ofBytes?_toBytes {s : DocSet} (hs : ∀ n ∈ s.toList, n < Number.bound32) :
    ofBytes? (ofDocSet s).toBytes = some (ofDocSet s) := by
  have hcount := length_chunks_le hs
  have hcookie := Bytes.takes_littleEndian 4 plainCookie
  have hlength := Bytes.takes_littleEndian 4 (ofDocSet s).chunks.length
  rw [Nat.mod_eq_of_lt (Nat.lt_of_le_of_lt hcount (by decide))] at hlength
  have hplaces := length_offsets (8 + 8 * (ofDocSet s).chunks.length)
    ((ofDocSet s).chunks.map Chunk.content)
  rw [List.length_map] at hplaces
  rw [toBytes, List.flatMap_def]
  simp only [List.append_assoc]
  rw [ofBytes?, word32, hcookie]
  simp only [Option.bind_eq_bind, Option.bind_some]
  rw [if_pos (by decide), hlength]
  exact readBody_chunks (cut_ofDocSet hs) hcount hplaces

end NullSet

end SegmentQuery
