import SegmentQuery.Proofs.Aggregate.Extrema
import SegmentQuery.Proofs.Aggregate.Summaries
import SegmentQuery.Proofs.Aggregate.WholeSums
import SegmentQuery.Proofs.Segment.Alike
/-!
# Totals of documents

What the aggregates of some documents are, whether there are any and
whether any of them has a value: a count is the number of documents, or
of those that are not null; a least or a greatest of an integer column is
an infinity without documents, the greatest or the least integer of the
column's type where all documents are null, and otherwise the double of
an integer of the documents; an exact sum is null without a value.

Merging the totals of two lists of documents makes the total of both.
Between merges an extremum is that of the values and of the sentinel that
stands in for them, since beside a value the sentinel does not show.
-/


namespace SegmentQuery

open Document

/-! ## Integer columns -/

/-- The least and the greatest integer of an integer type. -/
def StoredType.integerRange? : StoredType → Option (Int × Int)
  | .int => some (Int32.minValue.toInt, Int32.maxValue.toInt)
  | .long => some (Int64.minValue.toInt, Int64.maxValue.toInt)
  | _ => none

/-- The range of a single-value integer column. -/
def MemorySegment.integerRange? (s : MemorySegment) (column : String) : Option (Int × Int) :=
  (s.metadata column).toOption.bind fun m => if m.singleValue then m.type.integerRange? else none

/-- Segments of one table have integer columns of the same ranges. -/
theorem MemorySegment.SameColumns.integerRange?_eq {s t : MemorySegment} (h : SameColumns s t) :
    s.integerRange? = t.integerRange? := by
  funext column
  have hbind (s : MemorySegment) : s.integerRange? column =
      ((s.metadata column).toOption.map fun m => (m.type, m.singleValue)).bind fun p =>
        if p.2 then p.1.integerRange? else none := by
    rw [Option.bind_map]
    rfl
  rw [hbind, hbind, h column]

/-- The integers of documents in a column, document by document. -/
def Document.values (nullHandling : Bool) (column : String) (documents : List Document) :
    List Int :=
  documents.filterMap (·.integer? nullHandling column)

variable {nullHandling : Bool} {column : String} {documents more : List Document}
variable {range : String → Option (Int × Int)} {f : AggregateFunction}

theorem Document.mem_values_iff {n : Int} :
    n ∈ values nullHandling column documents ↔ n ∈ integers nullHandling column documents :=
  List.mem_filterMap

theorem Document.values_append : values nullHandling column (documents ++ more) =
    values nullHandling column documents ++ values nullHandling column more :=
  List.filterMap_append

theorem Document.values_eq_nil_iff : values nullHandling column documents = [] ↔
    integers nullHandling column documents = ∅ := by
  simp only [List.eq_nil_iff_forall_not_mem, mem_values_iff, Set.eq_empty_iff_forall_notMem]

/-! ## Totals -/

/-- A cell is the total of some documents. `range` gives the ranges of the
integer columns; of other columns, and of sums that are not exact or not
null without values, nothing is said. -/
def Totals (range : String → Option (Int × Int)) (nullHandling : Bool)
    (documents : List Document) : AggregateFunction → Cell → Prop
  | .count none, cell => cell = .long (Counter.signed documents.length)
  | .count (some column), cell =>
    cell = .long (Counter.signed (documents.countP fun d => !d.isNull nullHandling column))
  | .min column, cell => ∀ low high, range column = some (low, high) →
    (documents = [] ∧ cell = .double Double.infinity) ∨
    (documents ≠ [] ∧ integers nullHandling column documents = ∅ ∧
      cell = .double (Double.ofInt high)) ∨
    ∃ least, IsLeast (integers nullHandling column documents) least ∧
      cell = .double (Double.ofInt least)
  | .max column, cell => ∀ low high, range column = some (low, high) →
    (documents = [] ∧ cell = .double Double.negInfinity) ∨
    (documents ≠ [] ∧ integers nullHandling column documents = ∅ ∧
      cell = .double (Double.ofInt low)) ∨
    ∃ greatest, IsGreatest (integers nullHandling column documents) greatest ∧
      cell = .double (Double.ofInt greatest)
  | .sumPrecision column _ _ true, cell => (range column).isSome →
    (integers nullHandling column documents = ∅ ∧ cell = .null) ∨
    ((integers nullHandling column documents).Nonempty ∧ ∃ total,
      total.IsWhole (values nullHandling column documents).sum ∧ cell = .bigDecimal total)
  | _, _ => True

/-! ## Extrema between merges -/

/-- A double is the extremum of documents, or of the sentinel that stands
in for them. -/
def Extremum.Reaches (e : Extremum) (sentinel : Int) (nullHandling : Bool) (column : String)
    (documents : List Document) (v : Double) : Prop :=
  (documents = [] ∧ v = e.nothing) ∨
  (documents ≠ [] ∧ ∃ n, e.Picks (sentinel :: values nullHandling column documents) n ∧
    v = Double.ofInt n)

variable {e : Extremum} {sentinel : Int} {v w : Double}

/-- Only which documents there are counts. -/
theorem Extremum.Reaches.comm
    (h : e.Reaches sentinel nullHandling column (documents ++ more) v) :
    e.Reaches sentinel nullHandling column (more ++ documents) v := by
  rcases h with ⟨hnil, rfl⟩ | ⟨hne, n, hpicks, rfl⟩
  · refine .inl ⟨?_, rfl⟩
    rw [List.append_eq_nil_iff] at hnil ⊢
    exact hnil.symm
  · refine .inr ⟨fun hnil => hne ?_, n, hpicks.congr fun m => ?_, rfl⟩
    · rw [List.append_eq_nil_iff] at hnil ⊢
      exact hnil.symm
    · rw [values_append, values_append, List.mem_cons, List.mem_cons, List.mem_append,
        List.mem_append, or_comm (a := m ∈ values nullHandling column documents)]

/-- **The extremum of both lists** is taken of the extrema of each. -/
theorem Extremum.Reaches.append (hv : e.Reaches sentinel nullHandling column documents v)
    (hw : e.Reaches sentinel nullHandling column more w) :
    e.Reaches sentinel nullHandling column (documents ++ more) (e.merge v w) := by
  rcases hv with ⟨rfl, rfl⟩ | ⟨hne, a, ha, rfl⟩
  · rw [List.nil_append]
    rcases hw with ⟨rfl, rfl⟩ | ⟨hne, b, hb, rfl⟩
    · exact .inl ⟨rfl, e.nothing_merge_nothing⟩
    · exact .inr ⟨hne, b, hb, e.nothing_merge b⟩
  · rcases hw with ⟨rfl, rfl⟩ | ⟨-, b, hb, rfl⟩
    · rw [List.append_nil]
      exact .inr ⟨hne, a, ha, e.merge_nothing a⟩
    · obtain ⟨n, hn, hmerge⟩ := ha.append hb
      refine .inr ⟨List.append_ne_nil_of_left_ne_nil hne more, n, hn.congr fun m => ?_, hmerge⟩
      simp only [values_append, List.mem_append, List.mem_cons]
      tauto

/-- What was reached is a value, where there is one. -/
theorem Extremum.Reaches.cases (h : e.Reaches sentinel nullHandling column documents v)
    (hafter : ∀ n ∈ values nullHandling column documents, e.before n sentinel = true) :
    (documents = [] ∧ v = e.nothing) ∨
    (documents ≠ [] ∧ integers nullHandling column documents = ∅ ∧ v = Double.ofInt sentinel) ∨
    ∃ n, e.Picks (values nullHandling column documents) n ∧ v = Double.ofInt n := by
  rcases h with hnone | ⟨hne, n, hpicks, rfl⟩
  · exact .inl hnone
  · by_cases hempty : values nullHandling column documents = []
    · rw [hempty] at hpicks
      obtain rfl := List.mem_singleton.1 hpicks.1
      exact .inr (.inl ⟨hne, values_eq_nil_iff.1 hempty, rfl⟩)
    · exact .inr (.inr ⟨n, hpicks.of_cons hafter hempty, rfl⟩)

/-! ## Totals between merges -/

/-- A cell has tallied some documents. -/
def Tallies (range : String → Option (Int × Int)) (nullHandling : Bool)
    (documents : List Document) : AggregateFunction → Cell → Prop
  | .min column, cell => ∀ low high, range column = some (low, high) →
    ∃ v, cell = .double v ∧ Extremum.least.Reaches high nullHandling column documents v
  | .max column, cell => ∀ low high, range column = some (low, high) →
    ∃ v, cell = .double v ∧ Extremum.greatest.Reaches low nullHandling column documents v
  | f, cell => Totals range nullHandling documents f cell

/-- **What a cell has tallied is a total**, where integers are within
their columns' ranges. -/
theorem Tallies.totals {cell : Cell} (h : Tallies range nullHandling documents f cell)
    (hrange : ∀ column low high, range column = some (low, high) →
      ∀ n ∈ values nullHandling column documents, low ≤ n ∧ n ≤ high) :
    Totals range nullHandling documents f cell := by
  cases f with
  | count column => exact h
  | sum column => exact h
  | sumPrecision column precision scale nullable => exact h
  | min column =>
    intro low high hcolumn
    obtain ⟨v, rfl, hreaches⟩ := h low high hcolumn
    have hafter := fun n hn => decide_eq_true (hrange column low high hcolumn n hn).2
    refine (hreaches.cases hafter).imp (And.imp_right (congrArg Cell.double)) (Or.imp
      (And.imp_right (And.imp_right (congrArg Cell.double))) ?_)
    rintro ⟨n, ⟨hmem, hfirst⟩, rfl⟩
    exact ⟨n, ⟨mem_values_iff.1 hmem,
      fun m hm => of_decide_eq_true (hfirst m (mem_values_iff.2 hm))⟩, rfl⟩
  | max column =>
    intro low high hcolumn
    obtain ⟨v, rfl, hreaches⟩ := h low high hcolumn
    have hafter := fun n hn => decide_eq_true (hrange column low high hcolumn n hn).1
    refine (hreaches.cases hafter).imp (And.imp_right (congrArg Cell.double)) (Or.imp
      (And.imp_right (And.imp_right (congrArg Cell.double))) ?_)
    rintro ⟨n, ⟨hmem, hfirst⟩, rfl⟩
    exact ⟨n, ⟨mem_values_iff.1 hmem,
      fun m hm => of_decide_eq_true (hfirst m (mem_values_iff.2 hm))⟩, rfl⟩

/-! ## Merging -/

variable {left right merged : Cell}

/-- Merging two sums adds them; a null is no sum. -/
theorem Tallies.of_merge_sum {precision : Nat} {scale : Option Nat}
    (hleft : Tallies range nullHandling documents (.sumPrecision column precision scale true) left)
    (hright : Tallies range nullHandling more (.sumPrecision column precision scale true) right)
    (h : (AggregateFunction.sumPrecision column precision scale true).merge left right =
      .ok merged) :
    Tallies range nullHandling (documents ++ more) (.sumPrecision column precision scale true)
      merged := by
  intro hcolumn
  rw [integers_append, values_append, List.sum_append]
  rcases hleft hcolumn with ⟨hnone, rfl⟩ | ⟨hsome, a, ha, rfl⟩
  · -- the right side as it stands
    obtain rfl := Except.ok.inj h
    rw [hnone, Set.empty_union, values_eq_nil_iff.2 hnone, List.sum_nil, Int.zero_add]
    exact hright hcolumn
  · rcases hright hcolumn with ⟨hnone, rfl⟩ | ⟨-, b, hb, rfl⟩
    · obtain rfl := Except.ok.inj h
      rw [hnone, Set.union_empty, values_eq_nil_iff.2 hnone, List.sum_nil, Int.add_zero]
      exact .inr ⟨hsome, a, ha, rfl⟩
    · refine .inr ⟨hsome.inl, ?_⟩
      cases hadd : a.add? b with
      | none =>
        simp [AggregateFunction.merge, AggregateFunction.mergePresent, Cell.isNull,
          AggregateFunction.decimalOperand, hadd, bind, Except.bind] at h
      | some total =>
        simp only [AggregateFunction.merge, AggregateFunction.mergePresent, Cell.isNull,
          AggregateFunction.decimalOperand, hadd, bind, Except.bind] at h
        obtain rfl := Except.ok.inj h
        exact ⟨total, ha.of_add? hb hadd, rfl⟩

/-- **A merge that goes through tallies both lists of documents.** -/
theorem Tallies.of_merge (hleft : Tallies range nullHandling documents f left)
    (hright : Tallies range nullHandling more f right) (h : f.merge left right = .ok merged) :
    Tallies range nullHandling (documents ++ more) f merged := by
  match f, hleft, hright, h with
  | .count none, hleft, hright, h =>
    obtain rfl := hleft
    obtain rfl := hright
    obtain rfl := Except.ok.inj h
    show Cell.long _ = Cell.long (Counter.signed (documents ++ more).length)
    rw [Counter.addSigned_signed, List.length_append]
  | .count (some column), hleft, hright, h =>
    obtain rfl := hleft
    obtain rfl := hright
    obtain rfl := Except.ok.inj h
    show Cell.long _ =
      Cell.long (Counter.signed ((documents ++ more).countP fun d => !d.isNull nullHandling column))
    rw [Counter.addSigned_signed, List.countP_append]
  | .min column, hleft, hright, h =>
    intro low high hcolumn
    obtain ⟨v, rfl, hv⟩ := hleft low high hcolumn
    obtain ⟨w, rfl, hw⟩ := hright low high hcolumn
    obtain rfl := Except.ok.inj h
    exact ⟨_, rfl, hv.append hw⟩
  | .max column, hleft, hright, h =>
    intro low high hcolumn
    obtain ⟨v, rfl, hv⟩ := hleft low high hcolumn
    obtain ⟨w, rfl, hw⟩ := hright low high hcolumn
    obtain rfl := Except.ok.inj h
    exact ⟨_, rfl, hv.append hw⟩
  | .sumPrecision column precision scale true, hleft, hright, h =>
    exact Tallies.of_merge_sum hleft hright h
  | .sumPrecision column precision scale false, _, _, _ => trivial
  | .sum column, _, _, _ => trivial

/-- Functions that have a total over columns of these ranges. -/
def AggregateFunction.HasTotal (range : String → Option (Int × Int)) : AggregateFunction → Prop
  | .count _ => True
  | .min column | .max column => (range column).isSome
  | .sumPrecision column _ _ nullHandling => nullHandling = true ∧ (range column).isSome
  | .sum _ => False

/-- The exact sum of documents has fewer than 97 bits. -/
def AggregateFunction.SumFits (nullHandling : Bool) (documents : List Document) :
    AggregateFunction → Prop
  | .sumPrecision column _ _ _ =>
    (values nullHandling column documents).sum.natAbs < Decimal.coeffLimit
  | _ => True

/-- **Totals can be merged** while exact sums fit. -/
theorem Tallies.exists_merge (hleft : Tallies range nullHandling documents f left)
    (hright : Tallies range nullHandling more f right) (htotal : f.HasTotal range)
    (hfits : f.SumFits nullHandling (documents ++ more)) :
    ∃ merged, f.merge left right = .ok merged := by
  match f, hleft, hright, htotal with
  | .count none, hleft, hright, _ =>
    obtain rfl := hleft
    obtain rfl := hright
    exact ⟨_, rfl⟩
  | .count (some column), hleft, hright, _ =>
    obtain rfl := hleft
    obtain rfl := hright
    exact ⟨_, rfl⟩
  | .min column, hleft, hright, hcolumn =>
    obtain ⟨⟨low, high⟩, hcolumn⟩ := Option.isSome_iff_exists.1 hcolumn
    obtain ⟨v, rfl, -⟩ := hleft low high hcolumn
    obtain ⟨w, rfl, -⟩ := hright low high hcolumn
    exact ⟨_, rfl⟩
  | .max column, hleft, hright, hcolumn =>
    obtain ⟨⟨low, high⟩, hcolumn⟩ := Option.isSome_iff_exists.1 hcolumn
    obtain ⟨v, rfl, -⟩ := hleft low high hcolumn
    obtain ⟨w, rfl, -⟩ := hright low high hcolumn
    exact ⟨_, rfl⟩
  | .sumPrecision column precision scale true, hleft, hright, ⟨_, hcolumn⟩ =>
    rcases hleft hcolumn with ⟨-, rfl⟩ | ⟨-, a, ha, rfl⟩
    · exact ⟨right, rfl⟩
    · rcases hright hcolumn with ⟨-, rfl⟩ | ⟨-, b, hb, rfl⟩
      · exact ⟨_, rfl⟩
      · rw [AggregateFunction.SumFits, values_append, List.sum_append] at hfits
        obtain ⟨total, hadd⟩ := ha.exists_add? hb hfits
        refine ⟨.bigDecimal total, ?_⟩
        simp only [AggregateFunction.merge, AggregateFunction.mergePresent, Cell.isNull,
          AggregateFunction.decimalOperand, hadd, bind, Except.bind]
        rfl

end SegmentQuery
