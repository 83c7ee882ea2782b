import SegmentQuery.Proofs.Broker.Distinct
import SegmentQuery.Proofs.Result.FailedMerges
import SegmentQuery.Proofs.Result.GroupTables
import SegmentQuery.Proofs.Selection.OrderedRows
import SegmentQuery.Query
/-!
# Rows that fit their columns

A row fits column types when it has a cell for each of them, null or of
the type's kind. Merging never looks at schemas, so rows that are merged
fit the target's types where the two sides have the same ones, and then
they do so whether the merge goes through or fails halfway.
-/


namespace SegmentQuery

/-! ## Cells and rows -/

namespace ColumnType

/-- The kind of a column's cells; an object column may hold any. -/
def cellKind? : ColumnType → Option CellKind
  | .int => some .int
  | .long => some .long
  | .float => some .float
  | .double => some .double
  | .bigDecimal => some .bigDecimal
  | .string => some .string
  | .bytes => some .bytes
  | .intArray => some .intArray
  | .longArray => some .longArray
  | .floatArray => some .floatArray
  | .doubleArray => some .doubleArray
  | .stringArray => some .stringArray
  | .object => none

/-- A column of the type may hold the cell: a null, or a value of the
type's kind. -/
def Admits (type : ColumnType) (cell : Cell) : Prop :=
  cell = .null ∨ ∀ kind ∈ type.cellKind?, cell.kind = kind

theorem admits_null (type : ColumnType) : type.Admits .null := .inl rfl

theorem admits_of_kind {type : ColumnType} {cell : Cell} (h : type.cellKind? = some cell.kind) :
    type.Admits cell := .inr fun kind hkind => by
  rw [h] at hkind
  exact Option.some.inj hkind

theorem admits_object (cell : Cell) : object.Admits cell := .inr nofun

/-- A single value of a type is of the type's kind. -/
theorem cellKind?_ofStored {type : StoredType} {cell : Cell} (htype : cell.storedType = some type)
    (hsingle : cell.isMultiValue = false) : (ofStored type).cellKind? = some cell.kind := by
  cases cell <;> simp only [Cell.storedType, Cell.isMultiValue, Option.some.injEq, reduceCtorEq]
    at htype hsingle <;> subst htype <;> rfl

/-- A cell and its key are of one kind. -/
theorem admits_key {type : ColumnType} {cell : Cell} (h : type.Admits cell) :
    type.Admits cell.key.cell := by
  rcases h with rfl | h
  · exact admits_null type
  · refine .inr fun kind hkind => ?_
    rw [← h kind hkind]
    cases cell <;> rfl

end ColumnType

namespace Schema

def types (s : Schema) : List ColumnType := s.columns.map ResultColumn.type

theorem width_eq_length_types (s : Schema) : s.width = s.types.length := (List.length_map _).symm

end Schema

/-- A row has a cell for each column type, and the column may hold it. -/
def Row.Fits (types : List ColumnType) (row : Row) : Prop :=
  List.Forall₂ ColumnType.Admits types row

namespace AggregateFunction

/-- The column types of intermediate values. -/
abbrev intermediateTypes (functions : List AggregateFunction) : List ColumnType :=
  functions.map intermediateType

variable {f : AggregateFunction} {left right merged : Cell}

/-- **What merges from intermediate values is an intermediate value.** -/
theorem admits_merge (hleft : f.intermediateType.Admits left)
    (hright : f.intermediateType.Admits right) (h : f.merge left right = .ok merged) :
    f.intermediateType.Admits merged := by
  have hpresent {combine : Except QueryError Cell} (h : mergePresent left right combine = .ok merged)
      (hcombine : combine = .ok merged → f.intermediateType.Admits merged) :
      f.intermediateType.Admits merged := by
    unfold mergePresent at h
    split at h
    · exact Except.ok.inj h ▸ hright
    · split at h
      · exact Except.ok.inj h ▸ hleft
      · exact hcombine h
  cases f with
  | min column =>
    refine hpresent h fun hok => ?_
    obtain ⟨l, -, hok⟩ := Except.bind_eq_ok.1 hok
    obtain ⟨r, -, hok⟩ := Except.bind_eq_ok.1 hok
    exact Except.ok.inj hok ▸ ColumnType.admits_of_kind rfl
  | max column =>
    have h : mergeAbsorbing left right _ = .ok merged := h
    unfold mergeAbsorbing at h
    split at h
    · exact Except.ok.inj h ▸ ColumnType.admits_null _
    · obtain ⟨l, -, h⟩ := Except.bind_eq_ok.1 h
      obtain ⟨r, -, h⟩ := Except.bind_eq_ok.1 h
      exact Except.ok.inj h ▸ ColumnType.admits_of_kind rfl
  | sum column =>
    refine hpresent h fun hok => ?_
    obtain ⟨l, -, hok⟩ := Except.bind_eq_ok.1 hok
    obtain ⟨r, -, hok⟩ := Except.bind_eq_ok.1 hok
    exact Except.ok.inj hok ▸ ColumnType.admits_of_kind rfl
  | sumPrecision column precision scale nullHandling => exact ColumnType.admits_object merged
  | count column =>
    refine hpresent h fun hok => ?_
    split at hok
    · exact Except.ok.inj hok ▸ ColumnType.admits_of_kind rfl
    · exact nomatch hok

/-- What a scan extracts is an intermediate value. -/
theorem admits_extract (f : AggregateFunction) (h : Holder) :
    f.intermediateType.Admits (f.extract h) := by
  cases f with
  | sumPrecision column precision scale nullHandling => exact ColumnType.admits_object _
  | _ => exact ColumnType.admits_of_kind rfl

/-- What a group extracts is an intermediate value. -/
theorem admits_extractSlot (f : AggregateFunction) (s : GroupSlot) :
    f.intermediateType.Admits (f.extractSlot s) := by
  cases f with
  | sumPrecision column precision scale nullHandling => exact ColumnType.admits_object _
  | min column | max column =>
    unfold extractSlot
    dsimp only
    split
    · exact ColumnType.admits_null _
    · exact ColumnType.admits_of_kind rfl
  | _ => exact ColumnType.admits_of_kind rfl

end AggregateFunction

/-! ## Rows in every form -/

namespace ResultRows

open AggregateFunction

/-- Rows of a query that fit column types, in the form in which they are
merged. Groups fit in two parts: key columns and aggregates. -/
def Fit (q : Query) (types : List ColumnType) : ResultRows → Prop
  | .empty => True
  | .selection rows => ∀ row ∈ rows, Row.Fits types row
  | .orderedSelection rows =>
    rows.heap.Valid rows.order.compare ∧ ∀ row ∈ rows.layout, Row.Fits types row
  | .aggregation row => types = intermediateTypes q.functions ∧ Row.Fits types row
  | .groupBy t => ∃ keyTypes, types = keyTypes ++ intermediateTypes q.functions ∧
      ∀ g ∈ t.groups, Row.Fits keyTypes (g.1.map Key.cell) ∧
        Row.Fits (intermediateTypes q.functions) g.2
  | .distinct d => ∃ type order, types = [.ofStored type] ∧
      d.Collects type order q.options.rowsToKeep q.options.nullHandling

variable {q : Query} {types : List ColumnType}

/-- A value of a type fits a column of the type. -/
theorem fits_rowOf {type : StoredType} {nullHandling : Bool} {value : Option Key}
    (h : DistinctValues.Fits type nullHandling value) :
    Row.Fits [.ofStored type] (DistinctValues.rowOf value) := by
  refine .cons ?_ .nil
  cases value with
  | none => exact ColumnType.admits_null _
  | some key =>
    obtain ⟨-, htype, hsingle⟩ := h
    exact ColumnType.admits_of_kind (ColumnType.cellKind?_ofStored htype hsingle)

/-- **Rows that fit in the form in which they are merged fit as rows.** -/
theorem Fit.fits {rows : ResultRows} (h : rows.Fit q types) :
    ∀ row ∈ rows.rows, Row.Fits types row := by
  cases rows with
  | empty => exact fun row hrow => absurd hrow List.not_mem_nil
  | selection rows => exact h
  | orderedSelection rows =>
    intro row hrow
    exact h.2 row ((List.mergeSort_perm _ _).mem_iff.1 hrow)
  | aggregation row =>
    intro row' hrow
    obtain rfl := List.mem_singleton.1 hrow
    exact h.2
  | groupBy t =>
    obtain ⟨keyTypes, rfl, hgroups⟩ := h
    intro row hrow
    obtain ⟨g, hg, rfl⟩ := List.mem_map.1 hrow
    obtain ⟨hkeys, haggregates⟩ := hgroups g hg
    exact List.rel_append hkeys haggregates
  | distinct d =>
    obtain ⟨type, order, rfl, hcollects⟩ := h
    intro row hrow
    rw [show ResultRows.rows (.distinct d) = d.rows from rfl, DistinctValues.rows_eq] at hrow
    obtain ⟨value, hvalue, rfl⟩ := List.mem_map.1 hrow
    exact fits_rowOf (hcollects.fits value hvalue)

end ResultRows

/-! ## Merges -/

namespace Combiner

open AggregateFunction

variable {q : Query} {types : List ColumnType}

theorem fits_mergeSlots {functions : List AggregateFunction} {target other : Row}
    (htarget : Row.Fits (intermediateTypes functions) target)
    (hother : Row.Fits (intermediateTypes functions) other) :
    Row.Fits (intermediateTypes functions) (mergeSlots functions target other).state := by
  induction functions generalizing target other with
  | nil => exact htarget
  | cons f functions ih =>
    obtain ⟨a, target, ha, hrest, rfl⟩ := List.forall₂_cons_left_iff.1 htarget
    obtain ⟨b, other, hb, hothers, rfl⟩ := List.forall₂_cons_left_iff.1 hother
    unfold mergeSlots
    split
    · rename_i v hab
      exact .cons (admits_merge ha hb hab) (ih hrest hothers)
    · exact .cons ha hrest

theorem fits_mergeAggregates {c : Combiner} {target other : Row}
    (htarget : Row.Fits (intermediateTypes c.functions) target)
    (hother : Row.Fits (intermediateTypes c.functions) other) :
    Row.Fits (intermediateTypes c.functions) (c.mergeAggregates target other).state := by
  unfold mergeAggregates
  split
  · exact fits_mergeSlots htarget hother
  · exact htarget

/-- Putting in a group that fits. -/
theorem fit_insert {keyTypes : List ColumnType} {t : GroupTable} {tuple : List Key}
    {aggregates : Row} {functions : List AggregateFunction}
    (ht : ∀ g ∈ t.groups, Row.Fits keyTypes (g.1.map Key.cell) ∧
      Row.Fits (intermediateTypes functions) g.2)
    (htuple : Row.Fits keyTypes (tuple.map Key.cell))
    (haggregates : Row.Fits (intermediateTypes functions) aggregates) :
    ∀ g ∈ (t.insert tuple aggregates).groups, Row.Fits keyTypes (g.1.map Key.cell) ∧
      Row.Fits (intermediateTypes functions) g.2 := by
  intro g hg
  rcases GroupTable.mem_or_snd_of_mem_insertSorted hg with hmem | hrow
  · exact ht g hmem
  · refine ⟨?_, hrow ▸ haggregates⟩
    rcases GroupTable.fst_of_mem_insertSorted hg with hname | ⟨g', hg', hname⟩
    · exact hname ▸ htuple
    · exact hname ▸ (ht g' hg').1

theorem fit_mergeGroups {c : Combiner} {keyTypes : List ColumnType} {target other : GroupTable}
    (htarget : ∀ g ∈ target.groups, Row.Fits keyTypes (g.1.map Key.cell) ∧
      Row.Fits (intermediateTypes c.functions) g.2)
    (hother : ∀ g ∈ other.groups, Row.Fits keyTypes (g.1.map Key.cell) ∧
      Row.Fits (intermediateTypes c.functions) g.2) :
    ∀ g ∈ (c.mergeGroups target other).state.1.groups, Row.Fits keyTypes (g.1.map Key.cell) ∧
      Row.Fits (intermediateTypes c.functions) g.2 := by
  refine Progress.foldl_preserves (P := fun state : GroupTable × Bool =>
    ∀ g ∈ state.1.groups, Row.Fits keyTypes (g.1.map Key.cell) ∧
      Row.Fits (intermediateTypes c.functions) g.2) ?_ htarget
  rintro ⟨table, dropped⟩ htable ⟨tuple, aggregates⟩ hgroup
  obtain ⟨htuple, haggregates⟩ := hother _ hgroup
  unfold mergeGroup
  dsimp only
  split
  · rename_i existing hfound
    obtain ⟨g, hg, -, rfl⟩ := GroupTable.exists_of_find? hfound
    exact fit_insert htable htuple (fits_mergeAggregates (htable g hg).2 haggregates)
  · split
    · exact fit_insert htable htuple haggregates
    · exact htable

theorem fit_offerAll {target : OrderedRows} {rows : List Row}
    (htarget : target.heap.Valid target.order.compare ∧ ∀ row ∈ target.layout, Row.Fits types row)
    (hrows : ∀ row ∈ rows, Row.Fits types row) :
    (target.offerAll rows).state.heap.Valid (target.offerAll rows).state.order.compare ∧
      ∀ row ∈ (target.offerAll rows).state.layout, Row.Fits types row := by
  refine Progress.foldl_preserves (P := fun r : OrderedRows =>
    r.heap.Valid r.order.compare ∧ ∀ row ∈ r.layout, Row.Fits types row) ?_ htarget
  rintro r ⟨hvalid, hfits⟩ row hrow
  cases hvalidate : r.order.validate row with
  | error e =>
    rw [OrderedRows.offer, hvalidate]
    exact ⟨hvalid, hfits⟩
  | ok u =>
    obtain ⟨kept, hoffer⟩ := OrderedRows.offer_ok hvalidate
    rw [hoffer]
    refine ⟨hvalid.offer row, fun row' hrow' => ?_⟩
    rcases TopK.mem_offer hvalid.size_le hrow' with hmem | rfl
    · exact hfits row' hmem
    · exact hrows row' hrow

/-- **Rows that fit the same types are merged into rows that fit them**,
whether the merge goes through or not. -/
theorem fit_mergeRows {target other : ResultRows} (htarget : target.Fit q types)
    (hother : other.Fit q types) : (q.combiner.mergeRows target other).state.1.Fit q types := by
  unfold mergeRows
  split
  · exact htarget
  · intro row hrow
    rcases List.mem_append.1 hrow with hrow | hrow
    · exact htarget row hrow
    · exact hother row (List.mem_of_mem_take hrow)
  · exact fit_offerAll htarget hother.2
  · exact ⟨htarget.1, by
      obtain ⟨rfl, htarget⟩ := htarget
      exact fits_mergeAggregates (c := q.combiner) htarget hother.2⟩
  · obtain ⟨keyTypes, rfl, htarget⟩ := htarget
    obtain ⟨keyTypes', hsame, hother⟩ := hother
    obtain rfl := List.append_cancel_right hsame
    exact ⟨keyTypes, rfl, fit_mergeGroups (c := q.combiner) htarget hother⟩
  · rename_i target other
    obtain ⟨type, order, rfl, htarget⟩ := htarget
    obtain ⟨type', order', hsame, hother⟩ := hother
    cases hmerge : target.merge other with
    | error e => exact ⟨type, order, rfl, htarget⟩
    | ok merged =>
      obtain ⟨htypes, rfl⟩ := DistinctValues.merge_eq_ok.1 hmerge
      obtain rfl : type' = type := by rw [← hother.type_eq, ← htypes, htarget.type_eq]
      exact ⟨type', order, rfl, htarget.foldl_add hother.fits⟩
  · exact htarget

/-- A result whose schema has these column types, and whose rows fit
them. -/
def FitResult (q : Query) (types : List ColumnType) (r : PartialResult) : Prop :=
  r.schema.types = types ∧ r.rows.Fit q types

theorem fitResult_mergeInto {target other : PartialResult} (htarget : FitResult q types target)
    (hother : FitResult q types other) :
    FitResult q types (q.combiner.mergeInto target other).state := by
  unfold mergeInto
  split
  · exact hother
  · exact ⟨htarget.1, fit_mergeRows htarget.2 hother.2⟩

/-- **Results that fit the same types are combined into one that fits
them**, or into one without columns if there is none. -/
theorem fit_combine {outcomes : List (Except QueryError PartialResult)}
    (h : ∀ r, .ok r ∈ outcomes → FitResult q types r) :
    (q.combiner.combine outcomes).value.rows.Fit q
      (q.combiner.combine outcomes).value.schema.types := by
  have hfold : ∀ (outcomes : List (Except QueryError PartialResult)) (state : Combining),
      (∀ r, .ok r ∈ outcomes → FitResult q types r) →
      (∀ r ∈ state.result, FitResult q types r) →
      ∀ r ∈ (outcomes.foldl q.combiner.step state).result, FitResult q types r := by
    intro outcomes
    induction outcomes with
    | nil => exact fun state _ hstate => hstate
    | cons outcome outcomes ih =>
      intro state hall hstate
      refine ih _ (fun r hr => hall r (List.mem_cons_of_mem _ hr)) ?_
      unfold step
      split
      · exact hstate
      · intro r hr
        obtain rfl := Option.some.inj hr
        exact hall _ List.mem_cons_self
      · rename_i target hresult
        intro r hr
        obtain rfl := Option.some.inj hr
        exact fitResult_mergeInto (hstate target hresult) (hall _ List.mem_cons_self)
  have hresult := hfold outcomes {} h nofun
  unfold combine
  dsimp only [PartialResult.addExceptions]
  cases hone : (outcomes.foldl q.combiner.step {}).result with
  | none => trivial
  | some r =>
    obtain ⟨hschema, hrows⟩ := hresult r hone
    rw [Option.getD_some, hschema]
    exact hrows

end Combiner

end SegmentQuery
