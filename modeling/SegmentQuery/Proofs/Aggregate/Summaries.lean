import Mathlib.Order.Bounds.Basic
import SegmentQuery.Aggregate.Merge
import SegmentQuery.Cell.Key
import SegmentQuery.Proofs.Number.Nearest
import SegmentQuery.Proofs.Segment.Scans
/-!
# Cells that summarize documents

What an aggregate of some documents is, said of the documents: a count is
the number of them, or of those whose value is not null, up to the
greatest 64 bit number; the least and the greatest of an integer column
are the doubles of the least and the greatest integer. Merging two such
cells makes the cell of both lists of documents together.
-/


namespace SegmentQuery

/-! ## Counters -/

namespace Counter

theorem toInt_signed (n : Nat) : (signed n).toInt = min (n : Int) Int64.maxValue.toInt := by
  have hmax : Int64.maxValue.toInt = 9223372036854775807 := rfl
  unfold signed
  split
  · omega
  · rw [Int64.toInt_ofInt_of_le (by omega) (by omega)]
    omega

/-- **Counts add up**, and stop at the greatest one. -/
theorem addSigned_signed (a b : Nat) : addSigned (signed a) (signed b) = signed (a + b) := by
  have hmax : Int64.maxValue.toInt = 9223372036854775807 := rfl
  have hmin : Int64.minValue.toInt = -9223372036854775808 := rfl
  have ha := toInt_signed a
  have hb := toInt_signed b
  refine Int64.toInt_inj.1 ?_
  rw [toInt_signed]
  unfold addSigned
  dsimp only
  split
  · omega
  · split
    · push_cast
      omega
    · rw [Int64.toInt_ofInt_of_le (by omega) (by omega)]
      push_cast
      omega

end Counter

/-! ## Documents -/

/-- The integer of a cell. -/
def Cell.integer? : Cell → Option Int
  | .int v => some v.toInt
  | .long v => some v.toInt
  | _ => none

/-- A document of a segment. -/
structure Document where
  segment : MemorySegment
  number : Nat

namespace Document

/-- The key tuple of a document. -/
def tuple (nullHandling : Bool) (groupBy : List String) (d : Document) : List Key :=
  (d.segment.row nullHandling groupBy d.number).map Cell.key

/-- The documents of a tuple. -/
def ofTuple (nullHandling : Bool) (groupBy : List String) (tuple : List Key)
    (documents : List Document) : List Document :=
  documents.filter fun d => Key.sameTuple tuple (d.tuple nullHandling groupBy)

/-- Whether a column's null set records the document. -/
def isNull (nullHandling : Bool) (column : String) (d : Document) : Bool :=
  match d.segment.find column with
  | .ok c => nullHandling && c.column.isNull d.number
  | .error _ => false

/-- The integer of a document in a column. -/
def integer? (nullHandling : Bool) (column : String) (d : Document) : Option Int :=
  (d.segment.cell nullHandling d.number column).integer?

/-- The integers of documents in a column. -/
def integers (nullHandling : Bool) (column : String) (documents : List Document) : Set Int :=
  {n | ∃ d ∈ documents, d.integer? nullHandling column = some n}

variable {nullHandling : Bool} {column : String} {documents more : List Document}

theorem integers_append : integers nullHandling column (documents ++ more) =
    integers nullHandling column documents ∪ integers nullHandling column more := by
  ext n
  simp [integers, or_and_right, exists_or]

theorem integers_perm (h : documents.Perm more) :
    integers nullHandling column documents = integers nullHandling column more := by
  ext n
  simp [integers, h.mem_iff]

end Document

/-! ## Summaries -/

open Document

/-- A cell is the aggregate of some documents. Sums are not summaries:
they depend on the order. -/
def Summarizes (nullHandling : Bool) (documents : List Document) : AggregateFunction → Cell → Prop
  | .count none, cell => cell = .long (Counter.signed documents.length)
  | .count (some column), cell =>
    cell = .long (Counter.signed (documents.countP fun d => !d.isNull nullHandling column))
  | .min column, cell => ∃ least, IsLeast (integers nullHandling column documents) least ∧
    cell = .double (Double.ofInt least)
  | .max column, cell => ∃ greatest, IsGreatest (integers nullHandling column documents) greatest ∧
    cell = .double (Double.ofInt greatest)
  | _, _ => False

variable {nullHandling : Bool} {documents more : List Document} {f : AggregateFunction}

/-- The order of the documents does not count. -/
theorem Summarizes.perm {cell : Cell} (h : Summarizes nullHandling documents f cell)
    (hperm : documents.Perm more) : Summarizes nullHandling more f cell := by
  match f, h with
  | .count none, h => rwa [Summarizes, hperm.length_eq] at h
  | .count (some column), h => rwa [Summarizes, hperm.countP_eq] at h
  | .min column, h => rwa [Summarizes, integers_perm hperm] at h
  | .max column, h => rwa [Summarizes, integers_perm hperm] at h

/-- Summaries are shown as they are. -/
theorem Summarizes.finalize {cell : Cell} (h : Summarizes nullHandling documents f cell) :
    f.finalize cell = .ok cell := by
  match f, h with
  | .count _, _ => rfl
  | .min _, _ => rfl
  | .max _, _ => rfl

/-- **Merging summaries** of two lists of documents makes the summary of
both. -/
theorem Summarizes.merge {left right : Cell} (hleft : Summarizes nullHandling documents f left)
    (hright : Summarizes nullHandling more f right) :
    ∃ merged, f.merge left right = .ok merged ∧
      Summarizes nullHandling (documents ++ more) f merged := by
  match f, hleft, hright with
  | .count none, hleft, hright =>
    obtain rfl := hleft
    obtain rfl := hright
    refine ⟨_, rfl, ?_⟩
    rw [Summarizes, Counter.addSigned_signed, List.length_append]
  | .count (some column), hleft, hright =>
    obtain rfl := hleft
    obtain rfl := hright
    refine ⟨_, rfl, ?_⟩
    rw [Summarizes, Counter.addSigned_signed, List.countP_append]
  | .min column, hleft, hright =>
    obtain ⟨a, ha, rfl⟩ := hleft
    obtain ⟨b, hb, rfl⟩ := hright
    refine ⟨_, rfl, min a b, ?_, ?_⟩
    · rw [integers_append]
      exact ha.union hb
    · rw [Double.min_ofInt]
  | .max column, hleft, hright =>
    obtain ⟨a, ha, rfl⟩ := hleft
    obtain ⟨b, hb, rfl⟩ := hright
    refine ⟨_, rfl, max a b, ?_, ?_⟩
    · rw [integers_append]
      exact ha.union hb
    · rw [Double.max_ofInt]

end SegmentQuery
