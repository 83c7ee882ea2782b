import SegmentQuery.Cbor.Bytes
import SegmentQuery.Number.Power
import SegmentQuery.Result.NullSet
/-!
# The byte form of null sets

The portable roaring format. A header names the chunks' upper halves,
sizes and offsets, and each chunk lists its lower halves as ascending
numbers or marks them in a bitmap of 8192 bytes. Reading takes a chunk
of more than 4096 numbers for a bitmap. It also takes chunks that list
runs, which need neither ascend nor stay apart, and ignores offsets and
trailing bytes. Chunks may come in any order.
-/


namespace SegmentQuery

namespace NullSet

/-- The first number of a payload without runs. -/
def plainCookie : Nat := 12346

/-- The lower half of the first number of a payload with runs. -/
def runCookie : Nat := 12347

/-- The bytes of a bitmap. -/
def bitmapSize : Nat := 8192

/-- From this many chunks on, a payload with runs has offsets. -/
def offsetThreshold : Nat := 4

/-! ## Writing -/

/-- `count` bytes of the bitmap of ascending numbers, from byte `index`
on. -/
def bitmap : (count : Nat) → (index : Nat) → List Nat → List UInt8
  | 0, _, _ => []
  | count + 1, index, lows =>
    let here := lows.takeWhile (· < 8 * (index + 1))
    UInt8.ofNat (here.foldl (fun byte low => byte + Number.twoPow (low - 8 * index)) 0)
      :: bitmap count (index + 1) (lows.dropWhile (· < 8 * (index + 1)))

namespace Chunk

/-- The upper half and one less than the size, which wraps around in an
empty chunk. -/
def description (c : Chunk) : List UInt8 :=
  Bytes.littleEndian 2 c.high ++ Bytes.littleEndian 2 (c.size + (halfBound - 1))

def content (c : Chunk) : List UInt8 :=
  if c.marked then bitmap bitmapSize 0 c.lows else c.lows.flatMap (Bytes.littleEndian 2)

end Chunk

/-- The offsets of contents that follow each other from `start` on. -/
def offsets (start : Nat) : List (List UInt8) → List UInt8
  | [] => []
  | content :: rest => Bytes.littleEndian 4 start ++ offsets (start + content.length) rest

def toBytes (s : NullSet) : List UInt8 :=
  let contents := s.chunks.map Chunk.content
  Bytes.littleEndian 4 plainCookie ++ Bytes.littleEndian 4 s.chunks.length
    ++ s.chunks.flatMap Chunk.description
    ++ offsets (8 + 8 * s.chunks.length) contents
    ++ contents.flatten

/-! ## Reading -/

/-- A reader of the front of a byte list. -/
abbrev Reader (α : Type) := List UInt8 → Option (α × List UInt8)

def word16 : Reader Nat := Bytes.takeLittleEndian? 2

def word32 : Reader Nat := Bytes.takeLittleEndian? 4

/-- Two numbers of 16 bits. -/
def pair16 : Reader (Nat × Nat) := fun bytes => do
  let (a, rest) ← word16 bytes
  let (b, rest) ← word16 rest
  return ((a, b), rest)

/-- The places of the bits that are set. -/
def bitPlaces (bytes : List UInt8) : List Nat :=
  bytes.zipIdx.flatMap fun (byte, index) =>
    ((List.range 8).filter byte.toNat.testBit).map (8 * index + ·)

def isAscending : List Nat → Bool
  | a :: b :: rest => decide (a < b) && isAscending (b :: rest)
  | _ => true

/-- The numbers of two ascending lists, each once. -/
def union : List Nat → List Nat → List Nat
  | [], bs => bs
  | as, [] => as
  | a :: as, b :: bs =>
    if a < b then a :: union as (b :: bs)
    else if b < a then b :: union (a :: as) bs
    else a :: union as bs
termination_by as bs => as.length + bs.length

/-- The lower halves of a chunk that lists them. -/
def listed (count : Nat) : Reader (List Nat) := fun bytes => do
  let (lows, rest) ← Bytes.times word16 count bytes
  if isAscending lows then return (lows, rest) else none

/-- The lower halves of a chunk that marks them. -/
def marked (count : Nat) : Reader (List Nat) := fun bytes => do
  let (content, rest) ← Bytes.take? bitmapSize bytes
  let lows := bitPlaces content
  if lows.length = count then return (lows, rest) else none

/-- A chunk of runs, each a start and how many numbers follow it. The
numbers that follow decide between list and bitmap. -/
def runs (high : Nat) : Reader Chunk := fun bytes => do
  let (count, rest) ← word16 bytes
  let (pairs, rest) ← Bytes.times pair16 count rest
  if pairs.all fun (start, more) => start + more < halfBound then
    let lows := pairs.foldr (fun (start, more) lows => union (List.range' start (more + 1)) lows) []
    let followers := pairs.foldl (fun n (_, more) => n + more) 0
    return (⟨high, lows, decide (listLimit < followers)⟩, rest)
  else none

/-- A chunk of `count` numbers. -/
def plain (high count : Nat) : Reader Chunk := fun bytes => do
  let (lows, rest) ← if count ≤ listLimit then listed count bytes else marked count bytes
  return (.ofLows high lows, rest)

/-- The chunks with these descriptions; `areRuns` tells which ones list
runs. -/
def readChunks (areRuns : List Bool) : List (Nat × Nat) → Reader (List Chunk)
  | [], bytes => some ([], bytes)
  | (high, last) :: more, bytes => do
    let (chunk, rest) ← if areRuns.headD false then runs high bytes else plain high (last + 1) bytes
    let (others, rest) ← readChunks areRuns.tail more rest
    return (chunk :: others, rest)

/-- The chunks after a header's first numbers. -/
def readBody (count : Nat) (areRuns : List Bool) (hasOffsets : Bool) (bytes : List UInt8) :
    Option NullSet := do
  if halfBound < count then none
  let (descriptions, rest) ← Bytes.times pair16 count bytes
  let (_, rest) ← if hasOffsets then Bytes.take? (4 * count) rest else some ([], rest)
  let (chunks, _) ← readChunks areRuns descriptions rest
  return ⟨chunks⟩

def ofBytes? (bytes : List UInt8) : Option NullSet := do
  let (cookie, rest) ← word32 bytes
  if cookie = plainCookie then
    let (count, rest) ← word32 rest
    readBody count [] true rest
  else if cookie % halfBound = runCookie then
    let count := cookie / halfBound + 1
    let (marks, rest) ← Bytes.take? ((count + 7) / 8) rest
    let areRuns := marks.flatMap fun byte => (List.range 8).map byte.toNat.testBit
    readBody count areRuns (decide (offsetThreshold ≤ count)) rest
  else none

end NullSet

end SegmentQuery
