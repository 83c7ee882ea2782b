import SegmentQuery.DocSet
/-!
# Null sets of tables

A data table keeps the null rows of a column in chunks, the form in which
they travel. The numbers of a chunk share their upper 16 bits, and it
either lists the lower halves or marks them in a bitmap. `ofDocSet` makes
the chunks of a set: ascending, none of them empty, a bitmap exactly
where more than 4096 numbers meet. Sets from elsewhere need not be so;
they are kept chunk by chunk, and a number is looked up by halving, as
if the upper halves ascended.
-/


namespace SegmentQuery

namespace NullSet

/-- The number of lower halves. -/
def halfBound : Nat := 65536

/-- The most numbers that a chunk lists unless it is told to. -/
def listLimit : Nat := 4096

/-- The numbers with one upper half. -/
structure Chunk where
  high : Nat
  lows : List Nat
  /-- Whether the lower halves are marked in a bitmap and not listed. -/
  marked : Bool
  deriving DecidableEq, Repr

namespace Chunk

def size (c : Chunk) : Nat := c.lows.length

def toList (c : Chunk) : List Nat := c.lows.map (halfBound * c.high + ·)

/-- A chunk that lists its numbers unless they are too many. -/
def ofLows (high : Nat) (lows : List Nat) : Chunk := ⟨high, lows, decide (listLimit < lows.length)⟩

end Chunk

end NullSet

/-- Row numbers in chunks. -/
structure NullSet where
  chunks : List NullSet.Chunk
  deriving DecidableEq, Repr

namespace NullSet

/-! ## Making one -/

/-- The lower halves of an ascending list by their upper halves. -/
def split : List Nat → List (Nat × List Nat)
  | [] => []
  | n :: rest =>
    match split rest with
    | (high, lows) :: more =>
      if high = n / halfBound then (high, n % halfBound :: lows) :: more
      else (n / halfBound, [n % halfBound]) :: (high, lows) :: more
    | [] => [(n / halfBound, [n % halfBound])]

def ofDocSet (s : DocSet) : NullSet := ⟨(split s.toList).map fun (high, lows) => .ofLows high lows⟩

/-! ## Reading one -/

/-- The numbers, chunk after chunk. -/
def toList (s : NullSet) : List Nat := s.chunks.flatMap Chunk.toList

def size (s : NullSet) : Nat := s.toList.length

/-- Whether there is no chunk. -/
def isEmpty (s : NullSet) : Bool := s.chunks.isEmpty

/-- The place of the last of ascending numbers that is at most `key`,
among the `size` ones from `base` on; `base` when there is none. -/
def searchHigh (highs : Array Nat) (key base size : Nat) : Nat :=
  if size ≤ 1 then base
  else
    let mid := base + size / 2
    searchHigh highs key (if key < highs.getD mid 0 then base else mid) (size - size / 2)
termination_by size

/-- The chunk where a number with this upper half is looked up. -/
def chunk? (s : NullSet) (high : Nat) : Option Chunk :=
  let highs := (s.chunks.map Chunk.high).toArray
  (s.chunks[searchHigh highs high 0 highs.size]?).filter (·.high == high)

def contains (s : NullSet) (n : Nat) : Bool :=
  (s.chunk? (n / halfBound)).any (·.lows.contains (n % halfBound))

/-! ## A set and its chunks -/

theorem flatMap_split (ns : List Nat) :
    (split ns).flatMap (fun (high, lows) => lows.map (halfBound * high + ·)) = ns := by
  induction ns with
  | nil => rfl
  | cons n rest ih =>
    have hn : halfBound * (n / halfBound) + n % halfBound = n := Nat.div_add_mod n halfBound
    unfold split
    split
    · rename_i high lows more heq
      rw [heq] at ih
      split
      · rename_i h
        subst h
        rw [← ih]
        simp [hn]
      · rw [← ih]
        simp [hn]
    · rename_i heq
      rw [heq] at ih
      rw [← ih]
      simp [hn]

/-- The chunks of a set hold its members, in order. -/
@[simp]
theorem toList_ofDocSet (s : DocSet) : (ofDocSet s).toList = s.toList := by
  simpa [toList, ofDocSet, Chunk.toList, Chunk.ofLows, List.flatMap_map] using flatMap_split s.toList

end NullSet

end SegmentQuery
