import SegmentQuery.Proofs.Aggregate.Slots
import SegmentQuery.Proofs.Result.Holding
/-!
# A grouping tabulates its documents

As long as the different tuples of the matching documents fit the limit,
a grouping by single-value columns goes through. Block by block each
document gets the number of its tuple and reaches the slot of that number
in every holder, while holders grow underneath; the finished table has a
group for each tuple, and the group's cells summarize the documents of
the tuple.
-/


namespace SegmentQuery

open Document

variable {nullHandling : Bool} {s : MemorySegment}

/-! ## Columns of a block -/

/-- The doubles of values that were copied for documents. -/
theorem map_filterMap_getElem? {α : Type} {vs : List α} {toInt : α → Int} {documents : List Nat}
    {name : String} (h : ∀ d ∈ documents, ∃ v, vs[d]? = some v ∧
      (Document.mk s d).integer? nullHandling name = some (toInt v)) :
    (documents.filterMap (vs[·]?)).map (fun v => Double.ofInt (toInt v)) =
      (documents.map (Document.mk s)).map fun d =>
        Double.ofInt ((d.integer? nullHandling name).getD 0) := by
  rw [List.map_filterMap, List.map_map, ← List.filterMap_eq_map]
  refine List.filterMap_congr fun d hd => ?_
  obtain ⟨v, hv, hn⟩ := h d hd
  simp [hv, hn]

/-- **A block's column delivers** what its documents have in the column of
the segment. -/
theorem MemorySegment.delivers_delivered {name : String} {c : MemoryColumn}
    (hfind : s.find name = .ok c) {documents : List Nat}
    (hdocuments : ∀ d ∈ documents, d ∈ s.matching) (hlen : documents.length ≤ Number.bound32) :
    (c.column.delivered nullHandling documents).Delivers nullHandling name
      (documents.map (Document.mk s)) := by
  have hlength := s.length_columns c (find_name hfind).1
  have hlt : ∀ d ∈ documents, d < c.column.length := by
    intro d hd
    rw [hlength]
    exact lt_of_mem_matching (hdocuments d hd)
  have hvalues : (c.column.delivered nullHandling documents).values =
      c.column.values.select documents := by
    cases nullHandling <;> rfl
  refine ⟨?_, fun i hi => ?_, fun hne hread => ?_⟩
  · rw [Column.length, hvalues, List.length_map]
    exact ColumnValues.length_select hlt
  · rw [List.length_map] at hi
    rw [List.getElem_map, Document.isNull, hfind]
    cases nullHandling with
    | false => rfl
    | true => exact Column.isNull_select hlen hi
  · have hcell (d : Nat) : s.cell nullHandling d name = c.column.cellOf nullHandling d := by
      rw [MemorySegment.cell, hfind]
    have hinteger : ∀ d ∈ documents, ∃ n, (c.column.cellOf nullHandling d).integer? = some n ∧
        (Document.mk s d).integer? nullHandling name = some n := by
      intro d hd
      obtain ⟨n, hn⟩ := Option.isSome_iff_exists.1 (hread _ (List.mem_map_of_mem hd))
      exact ⟨n, hcell d ▸ hn, hn⟩
    -- the first document tells whether the column holds ints or longs
    obtain ⟨first, hfirst⟩ := List.exists_mem_of_ne_nil documents (by simpa using hne)
    obtain ⟨n, hn, -⟩ := hinteger first hfirst
    rw [Column.doubles, Column.numeric, hvalues]
    rcases (Column.of_integer?_cellOf hn).2 with ⟨vs, -, htype, -⟩ | ⟨vs, -, htype, -⟩
    · rw [htype]
      refine congrArg Except.ok (map_filterMap_getElem? fun d hd => ?_)
      obtain ⟨m, hm, hinteger⟩ := hinteger d hd
      rcases (Column.of_integer?_cellOf hm).2 with ⟨vs', v, htype', hv, rfl⟩ | ⟨_, _, htype', -⟩
      · obtain rfl : vs = vs' := by simpa using htype.symm.trans htype'
        exact ⟨v, hv, hinteger⟩
      · cases htype.symm.trans htype'
    · rw [htype]
      refine congrArg Except.ok (map_filterMap_getElem? fun d hd => ?_)
      obtain ⟨m, hm, hinteger⟩ := hinteger d hd
      rcases (Column.of_integer?_cellOf hm).2 with ⟨_, _, htype', -⟩ | ⟨vs', v, htype', hv, rfl⟩
      · cases htype.symm.trans htype'
      · obtain rfl : vs = vs' := by simpa using htype.symm.trans htype'
        exact ⟨v, hv, hinteger⟩

namespace Aggregation

/-- **What is fetched** are the leading columns and those that functions
read. -/
theorem mem_fetchedColumns_iff {leading : List String} {functions : List AggregateFunction}
    {name : String} : name ∈ fetchedColumns leading functions ↔
      name ∈ leading ∨ ∃ f ∈ functions, f.column? = some name := by
  unfold fetchedColumns
  induction functions generalizing leading with
  | nil => simp
  | cons f functions ih =>
    rw [List.foldl_cons, ih, List.exists_mem_cons_iff, ← or_assoc]
    refine or_congr_left ?_
    cases hcolumn : f.column? with
    | none => simp
    | some c =>
      by_cases hknown : c ∈ leading
      · simp only [List.contains_iff_mem, hknown, if_true, Option.some.injEq]
        exact ⟨.inl, fun h => h.elim id fun heq => heq ▸ hknown⟩
      · simp [hknown, eq_comm]

/-- A fetched column has a place in the block. -/
theorem inputIndex_of_mem {columns : List String} {f : AggregateFunction} {name : String}
    (hname : f.column? = some name) (hmem : name ∈ columns) :
    ∃ (i : Nat) (hi : i < columns.length), inputIndex columns f = some i ∧ columns[i] = name := by
  obtain ⟨i, hfind⟩ : ∃ i, columns.findIdx? (· == name) = some i := by
    rw [← Option.isSome_iff_exists, List.findIdx?_isSome, List.any_eq_true]
    exact ⟨name, hmem, beq_self_eq_true name⟩
  obtain ⟨hi, hsame, -⟩ := List.findIdx?_eq_some_iff_getElem.1 hfind
  refine ⟨i, hi, ?_, by simpa using hsame⟩
  rw [inputIndex, hname]
  exact hfind

/-- The input of a function in a block of fetched columns is the
function's column. -/
theorem input_delivered {leading : List String} {functions : List AggregateFunction}
    {columns : List MemoryColumn}
    (hcolumns : (fetchedColumns leading functions).mapM s.find = .ok columns)
    (nullHandling : Bool) (documents : List Nat) {f : AggregateFunction} (hf : f ∈ functions) :
    ∃ column, input (MemorySegment.block columns nullHandling documents)
        (inputIndex (fetchedColumns leading functions) f) = .ok column ∧
      match f.column? with
      | none => column = none
      | some name => ∃ c : MemoryColumn, column = some (c.column.delivered nullHandling documents) ∧
          s.find name = .ok c := by
  cases hname : f.column? with
  | none =>
    refine ⟨none, ?_, rfl⟩
    rw [inputIndex, hname]
    rfl
  | some name =>
    obtain ⟨i, hi, hindex, hat⟩ := inputIndex_of_mem hname
      (mem_fetchedColumns_iff.2 (.inr ⟨f, hf, hname⟩))
    have hfound := Except.mapM_eq_ok.1 hcolumns
    have hi' : i < columns.length := hfound.length_eq ▸ hi
    have hfind : s.find name = .ok columns[i] := hat ▸ hfound.get hi hi'
    refine ⟨some (columns[i].column.delivered nullHandling documents), ?_, columns[i], rfl, hfind⟩
    have hget : (MemorySegment.block columns nullHandling documents).columns[i]? =
        some (columns[i].column.delivered nullHandling documents) := by
      simp only [MemorySegment.block, List.getElem?_map, List.getElem?_eq_getElem hi',
        Option.map_some]
      rfl
    rw [hindex, input, Block.column, hget]
    rfl

end Aggregation

namespace GroupBy

open GroupKeys GroupTable

variable {groupBy : List String} {functions : List AggregateFunction}

/-- **The input of a function** in a block of fetched columns is what its
documents have in the function's column. -/
theorem input_ok {columns : List MemoryColumn}
    (hcolumns : (Aggregation.fetchedColumns groupBy functions).mapM s.find = .ok columns)
    {documents : List Nat} (hdocuments : ∀ d ∈ documents, d ∈ s.matching)
    (hlen : documents.length ≤ Number.bound32) {f : AggregateFunction} (hf : f ∈ functions)
    (numbers : List Nat) :
    ∃ column, input (MemorySegment.block columns nullHandling documents) (.single numbers)
        (Aggregation.inputIndex (Aggregation.fetchedColumns groupBy functions) f) = .ok column ∧
      match f.column? with
      | none => column = none
      | some name => ∃ c, column = some c ∧
          c.Delivers nullHandling name (documents.map (Document.mk s)) := by
  obtain ⟨column, hinput, hcolumn⟩ :=
    Aggregation.input_delivered hcolumns nullHandling documents hf
  refine ⟨column, ?_, ?_⟩
  · rw [input, hinput]
    rfl
  · cases hname : f.column? with
    | none =>
      rw [hname] at hcolumn
      exact hcolumn
    | some name =>
      rw [hname] at hcolumn
      obtain ⟨c, rfl, hfind⟩ := hcolumn
      exact ⟨_, rfl, MemorySegment.delivers_delivered hfind hdocuments hlen⟩

/-! ## One block -/

/-- Single-value columns can be fetched. -/
theorem fetchable_of_isSingle (h : ∀ e ∈ groupBy, s.isSingle e) : s.Fetchable groupBy := by
  intro e he
  have hsingle := h e he
  unfold MemorySegment.isSingle at hsingle
  cases hfind : s.find e with
  | error _ =>
    rw [hfind] at hsingle
    exact nomatch hsingle
  | ok c =>
    rw [hfind] at hsingle
    refine ⟨c, rfl, ?_⟩
    obtain ⟨name, role, values, nulls⟩ := c
    cases values with
    | single t vs => trivial
    | multi t vs => exact nomatch hsingle

/-- The number of a document's tuple, for documents that have one. -/
def numberOf (nullHandling : Bool) (groupBy : List String) (keys : GroupKeys) (d : Document) :
    Nat :=
  (keys.find? (d.tuple nullHandling groupBy)).getD 0

/-- The numbering of the tuples of some documents. -/
def keysOf (nullHandling : Bool) (groupBy : List String) (limit : Nat) (seen : List Document) :
    GroupKeys :=
  ofDifferent limit (Key.differentTuples (seen.map (Document.tuple nullHandling groupBy)))

/-- The different tuples of documents fit a limit. A segment numbers them
all where they fit the numbers that are available under its limit. -/
def Fits (nullHandling : Bool) (groupBy : List String) (limit : Nat) (documents : List Document) :
    Prop :=
  (Key.differentTuples (documents.map (Document.tuple nullHandling groupBy))).length ≤ limit

variable {limit : Nat} {seen batch : List Document}

theorem Fits.of_subset {documents : List Document} (h : Fits nullHandling groupBy limit documents)
    (hsubset : seen ⊆ documents) : Fits nullHandling groupBy limit seen :=
  (Key.length_differentTuples_mono (List.map_subset _ hsubset)).trans h

/-- While the tuples fit, every document has the number of its tuple. -/
theorem find?_keysOf (h : Fits nullHandling groupBy (available limit) seen) {d : Document}
    (hd : d ∈ seen) :
    (keysOf nullHandling groupBy limit seen).find? (d.tuple nullHandling groupBy) =
      some (numberOf nullHandling groupBy (keysOf nullHandling groupBy limit seen) d) := by
  obtain ⟨n, hn⟩ := Option.isSome_iff_exists.1
    (isSome_find?_ofDifferent h (List.mem_map_of_mem (f := Document.tuple nullHandling groupBy) hd))
  rw [numberOf, keysOf, hn, Option.getD_some]

/-- **Numbering a batch** of documents that fit. -/
theorem assignAll_keysOf (h : Fits nullHandling groupBy (available limit) (seen ++ batch)) :
    (keysOf nullHandling groupBy limit seen).assignAll
        (batch.map (Document.tuple nullHandling groupBy)) =
      ((batch.map (numberOf nullHandling groupBy
          (keysOf nullHandling groupBy limit (seen ++ batch)))).map some,
        keysOf nullHandling groupBy limit (seen ++ batch)) := by
  have hassign := assignAll_ofDifferent limit (seen.map (Document.tuple nullHandling groupBy))
    (batch.map (Document.tuple nullHandling groupBy))
  rw [← List.map_append] at hassign
  refine hassign.trans (congrArg (·, keysOf nullHandling groupBy limit (seen ++ batch)) ?_)
  rw [List.map_map, List.map_map]
  exact List.map_congr_left fun d hd => find?_keysOf h (List.mem_append_right seen hd)

/-- Numbers that are all there keep their positions. -/
theorem filterMap_zipIdx_some (numbers : List Nat) :
    ((numbers.map some).zipIdx.filterMap fun (number, position) => number.map (·, position)) =
      numbers.zipIdx := by
  rw [List.zipIdx_map, List.filterMap_map]
  exact List.filterMap_some

/-- **Numbering a block of fetchable columns** goes through: it numbers
the rows of the block's documents. -/
theorem groupBlock_of_fetchable (hfetch : s.Fetchable groupBy) {extra : List String}
    {columns : List MemoryColumn} (hcolumns : (groupBy ++ extra).mapM s.find = .ok columns)
    {documents : List Nat} (hdocuments : ∀ d ∈ documents, d ∈ s.matching)
    (hlen : documents.length ≤ Number.bound32) (multiValue : Bool) (keys : GroupKeys) :
    groupBlock groupBy.length multiValue keys (MemorySegment.block columns nullHandling documents) =
      let block := MemorySegment.block columns nullHandling documents
      let rows := documents.map (s.row nullHandling groupBy)
      if multiValue then
        .ok (.multi (assignElements keys rows).1, block, (assignElements keys rows).2)
      else
        let assigned := keys.assignAll (rows.map fun row => row.map Cell.key)
        let kept := assigned.1.zipIdx.filterMap fun (number, position) => number.map (·, position)
        .ok (.single (kept.map (·.1)), restrict block (kept.map (·.2)), assigned.2) := by
  have hleading : groupBy.mapM s.find = .ok (columns.take groupBy.length) := by
    have htake := List.forall₂_take groupBy.length (Except.mapM_eq_ok.1 hcolumns)
    rw [List.take_left' rfl] at htake
    exact Except.mapM_eq_ok.2 htake
  have hwide : ¬ (MemorySegment.block columns nullHandling documents).columns.length <
      groupBy.length := by
    have hlength := (Except.mapM_eq_ok.1 hcolumns).length_eq
    rw [List.length_append] at hlength
    simp only [MemorySegment.block, List.length_map]
    omega
  obtain ⟨view, hreads⟩ := MemorySegment.reads_block hfetch hleading nullHandling
    (fun d hd => MemorySegment.lt_of_mem_matching (hdocuments d hd)) hlen
  have hview : RowView.ofColumns
      ((MemorySegment.block columns nullHandling documents).columns.take groupBy.length) =
        .ok view := by
    rw [← hreads.view_eq]
    exact congrArg RowView.ofColumns List.map_take.symm
  have hrows : (List.range (MemorySegment.block columns nullHandling documents).size).mapM view.row =
      .ok (documents.map (s.row nullHandling groupBy)) := by
    have hall := hreads.mapM_row (Nat.le_refl documents.length)
    have hwhole : documents.take documents.length = documents := List.take_length
    exact hall.trans (congrArg (fun ds => Except.ok (ds.map (s.row nullHandling groupBy))) hwhole)
  unfold groupBlock
  rw [if_neg hwide]
  simp only [hview, hrows, bind, Except.bind, pure, Except.pure]

/-- **One block**: each of its documents gets the number of its tuple, and
none is left out. -/
theorem groupBlock_ok (hsingle : ∀ e ∈ groupBy, s.isSingle e) {extra : List String}
    {columns : List MemoryColumn} (hcolumns : (groupBy ++ extra).mapM s.find = .ok columns)
    {documents : List Nat} (hdocuments : ∀ d ∈ documents, d ∈ s.matching)
    (hlen : documents.length ≤ Number.bound32)
    (hfits : Fits nullHandling groupBy (available limit) (seen ++ documents.map (Document.mk s))) :
    let keys := keysOf nullHandling groupBy limit (seen ++ documents.map (Document.mk s))
    groupBlock groupBy.length false (keysOf nullHandling groupBy limit seen)
        (MemorySegment.block columns nullHandling documents) =
      .ok (.single ((documents.map (Document.mk s)).map (numberOf nullHandling groupBy keys)),
        MemorySegment.block columns nullHandling documents, keys) := by
  intro keys
  have htuples : (documents.map (s.row nullHandling groupBy)).map (fun row => row.map Cell.key) =
      (documents.map (Document.mk s)).map (Document.tuple nullHandling groupBy) := by
    rw [List.map_map, List.map_map]
    rfl
  -- every number is there, so every position is kept
  have hkept := filterMap_zipIdx_some
    ((documents.map (Document.mk s)).map (numberOf nullHandling groupBy keys))
  rw [groupBlock_of_fetchable (fetchable_of_isSingle hsingle) hcolumns hdocuments hlen]
  simp only [htuples, assignAll_keysOf hfits, Bool.false_eq_true, if_false]
  rw [hkept, List.zipIdx_map_fst, restrict, if_pos]
  simp [MemorySegment.block, Block.size]

/-! ## One block in all holders -/

variable {room : Nat} {documents : Nat → List Document} {holders : List GroupHolder}

/-- Where each holder can make room, all can. -/
theorem exists_ensureAll {R S : AggregateFunction → GroupHolder → Prop} {wanted : Nat}
    (hensure : ∀ f ∈ functions, ∀ h, R f h → ∃ grown, h.ensure wanted = .ok grown ∧ S f grown)
    (hholders : List.Forall₂ R functions holders) :
    ∃ grown, (ensureAll wanted holders).value = .ok grown ∧ List.Forall₂ S functions grown := by
  induction hholders with
  | nil => exact ⟨[], rfl, .nil⟩
  | @cons f h functions holders hholder _ ih =>
    obtain ⟨hf, hfunctions⟩ := List.forall_mem_cons.1 hensure
    obtain ⟨grown, hgrown, hroom⟩ := hf h hholder
    obtain ⟨more, hmore, hrooms⟩ := ih hfunctions
    refine ⟨grown :: more, ?_, .cons hroom hrooms⟩
    rw [ensureAll, hgrown]
    dsimp only
    rw [hmore]
    rfl

/-- **All holders make room.** -/
theorem ensureAll_ok (hgathering : ∀ f ∈ functions, f.Gathering)
    (hkeeps : List.Forall₂ (fun f h => h.Keeps nullHandling f limit room documents) functions
      holders)
    (hnone : ∀ number, room ≤ number → documents number = []) {wanted : Nat}
    (hwanted : wanted ≤ available limit) :
    ∃ grown, (ensureAll wanted holders).value = .ok grown ∧
      List.Forall₂ (fun f h => h.Keeps nullHandling f limit wanted documents) functions grown := by
  obtain ⟨hlimit, hbits⟩ := le_available_iff.1 hwanted
  exact exists_ensureAll (fun f hf _ hkeep => hkeep.ensure (hgathering f hf) hnone hlimit hbits)
    hkeeps

/-- **A block is folded into all holders.** -/
theorem foldBlock_ok {columns : List MemoryColumn}
    (hcolumns : (Aggregation.fetchedColumns groupBy functions).mapM s.find = .ok columns)
    {batch : List Nat} (hne : batch ≠ []) (hbatch : ∀ d ∈ batch, d ∈ s.matching)
    (hlen : batch.length ≤ Number.bound32)
    (hread : ∀ f ∈ functions, f.Reads nullHandling (batch.map (Document.mk s)))
    {number : Document → Nat} (hnumbers : ∀ d ∈ batch.map (Document.mk s), number d < room)
    (hkeeps : List.Forall₂ (fun f h => h.Keeps nullHandling f limit room documents) functions
      holders) :
    ∃ folded, foldBlock (Aggregation.fetchedColumns groupBy functions) functions
        (MemorySegment.block columns nullHandling batch)
        (.single ((batch.map (Document.mk s)).map number)) holders = .ok folded ∧
      List.Forall₂ (fun f h => h.Keeps nullHandling f limit room
        fun i => documents i ++ (batch.map (Document.mk s)).filter (number · == i))
        functions folded := by
  refine Except.exists_mapM_zip_ok hkeeps fun f hf h hkeep => ?_
  obtain ⟨column, hinput, hdelivers⟩ := input_ok hcolumns hbatch hlen hf
    ((batch.map (Document.mk s)).map number)
  obtain ⟨folded, hfolded, hdone⟩ := AggregateFunction.aggregateGroups_ok (by simpa using hne)
    (hread f hf) hdelivers hnumbers hkeep
  refine ⟨folded, ?_, hdone⟩
  dsimp only
  rw [hinput]
  have hgroups : (BlockGroups.single ((batch.map (Document.mk s)).map number)).toLists =
      (batch.map (Document.mk s)).map fun d => [number d] := List.map_map ..
  have hlength : (BlockGroups.single ((batch.map (Document.mk s)).map number)).length =
      (batch.map (Document.mk s)).length := List.length_map _
  rw [hgroups, hlength]
  exact hfolded

/-! ## The scan -/

/-- The documents with a number. -/
def membersOf (nullHandling : Bool) (groupBy : List String) (limit : Nat) (seen : List Document)
    (number : Nat) : List Document :=
  seen.filter (numberOf nullHandling groupBy (keysOf nullHandling groupBy limit seen) · == number)

/-- There are no more numbers than the limit makes available. -/
theorem count_keysOf_le (nullHandling : Bool) (groupBy : List String) (limit : Nat)
    (seen : List Document) : (keysOf nullHandling groupBy limit seen).count ≤ available limit :=
  List.length_take_le _ _

/-- The number of a document's tuple is one that was given out. -/
theorem numberOf_lt (h : Fits nullHandling groupBy (available limit) seen) {d : Document}
    (hd : d ∈ seen) :
    numberOf nullHandling groupBy (keysOf nullHandling groupBy limit seen) d <
      (keysOf nullHandling groupBy limit seen).count :=
  (of_find?_eq_some (find?_keysOf h hd)).1

/-- A number that was not given out has no documents. -/
theorem membersOf_eq_nil (h : Fits nullHandling groupBy (available limit) seen) {number : Nat}
    (hnumber : (keysOf nullHandling groupBy limit seen).count ≤ number) :
    membersOf nullHandling groupBy limit seen number = [] := by
  refine List.filter_eq_nil_iff.2 fun d hd heq => ?_
  have hlt := numberOf_lt h hd
  rw [eq_of_beq heq] at hlt
  omega

/-- Numbers stay while more documents come. -/
theorem numberOf_append (h : Fits nullHandling groupBy (available limit) (seen ++ batch))
    {d : Document} (hd : d ∈ seen) :
    numberOf nullHandling groupBy (keysOf nullHandling groupBy limit (seen ++ batch)) d =
      numberOf nullHandling groupBy (keysOf nullHandling groupBy limit seen) d := by
  have hfind := find?_keysOf (h.of_subset (List.subset_append_left seen batch)) hd
  have hstays := find?_assignAll_of_some hfind (batch.map (Document.tuple nullHandling groupBy))
  rw [assignAll_keysOf h] at hstays
  rw [numberOf, hstays, Option.getD_some]

/-- The documents of a batch join those of their numbers. -/
theorem membersOf_append (h : Fits nullHandling groupBy (available limit) (seen ++ batch))
    (number : Nat) :
    membersOf nullHandling groupBy limit (seen ++ batch) number =
      membersOf nullHandling groupBy limit seen number ++ batch.filter
        (numberOf nullHandling groupBy (keysOf nullHandling groupBy limit (seen ++ batch)) · ==
          number) := by
  rw [membersOf, List.filter_append]
  congr 1
  exact List.filter_congr fun d hd => by rw [numberOf_append h hd]

/-- **The documents with a number** are those of its tuple. -/
theorem membersOf_eq (h : Fits nullHandling groupBy (available limit) seen) {number : Nat}
    {tuple : List Key}
    (htuple : (keysOf nullHandling groupBy limit seen).tuples[number]? = some tuple) :
    membersOf nullHandling groupBy limit seen number =
      ofTuple nullHandling groupBy tuple seen := by
  have hdiffer : Key.Different (keysOf nullHandling groupBy limit seen).tuples :=
    (Key.different_differentTuples _).sublist (List.take_sublist _ _)
  obtain ⟨hlt, rfl⟩ := List.getElem?_eq_some_iff.1 htuple
  refine List.filter_congr fun d hd => Bool.eq_iff_iff.2 ?_
  have hfind := find?_keysOf h hd
  rw [beq_iff_eq, ← Option.some_inj, ← hfind, find?_eq_some_iff hdiffer]
  exact exists_prop_of_true hlt

/-- What a scan in progress has made of the documents that it has seen:
their tuples are numbered, and every holder has gathered them by
number. -/
structure Tabulating (nullHandling : Bool) (groupBy : List String)
    (functions : List AggregateFunction) (limit : Nat) (seen : List Document) (state : State) :
    Prop where
  keys_eq : state.keys = keysOf nullHandling groupBy limit seen
  holders : List.Forall₂ (fun f h => h.Keeps nullHandling f limit
    (keysOf nullHandling groupBy limit seen).count (membersOf nullHandling groupBy limit seen))
    functions state.holders

/-- **One step** takes a block's documents in. -/
theorem Tabulating.step (hsingle : ∀ e ∈ groupBy, s.isSingle e) {columns : List MemoryColumn}
    (hcolumns : (Aggregation.fetchedColumns groupBy functions).mapM s.find = .ok columns)
    {batch : List Nat} (hne : batch ≠ []) (hbatch : ∀ d ∈ batch, d ∈ s.matching)
    (hlen : batch.length ≤ Number.bound32)
    (hread : ∀ f ∈ functions, f.Reads nullHandling (batch.map (Document.mk s)))
    (hfits : Fits nullHandling groupBy (available limit) (seen ++ batch.map (Document.mk s)))
    {state : State}
    (hstate : Tabulating nullHandling groupBy functions limit seen state) :
    ∃ visit, (GroupBy.step (Aggregation.fetchedColumns groupBy functions) groupBy.length false
        functions state (MemorySegment.block columns nullHandling batch)).value = .ok visit ∧
      visit.finished = false ∧ Tabulating nullHandling groupBy functions limit
        (seen ++ batch.map (Document.mk s)) visit.state := by
  obtain ⟨keys, holders⟩ := state
  obtain ⟨rfl, hkeeps⟩ := hstate
  obtain ⟨extra, hextra⟩ := Aggregation.prefix_fetchedColumns groupBy functions
  have hblock := groupBlock_ok hsingle (hextra ▸ hcolumns) hbatch hlen hfits
  have hgathering : ∀ f ∈ functions, f.Gathering := fun f hf => (hread f hf).gathering
  have hfront := hfits.of_subset (List.subset_append_left seen _)
  obtain ⟨grown, hgrown, hroom⟩ := ensureAll_ok hgathering hkeeps
    (fun number hnumber => membersOf_eq_nil hfront hnumber)
    (count_keysOf_le nullHandling groupBy limit (seen ++ batch.map (Document.mk s)))
  obtain ⟨folded, hfolded, hdone⟩ := foldBlock_ok hcolumns hne hbatch hlen hread
    (fun d hd => numberOf_lt hfits (List.mem_append_right seen hd)) hroom
  refine ⟨⟨⟨keysOf nullHandling groupBy limit (seen ++ batch.map (Document.mk s)), folded⟩,
    (MemorySegment.block columns nullHandling batch).size, false⟩, ?_, rfl, rfl, ?_⟩
  · unfold GroupBy.step
    rw [hblock]
    simp only [Traced.map, hgrown, bind, Except.bind, hfolded]
    rfl
  · rw [funext (membersOf_append hfits)]
    exact hdone

/-! ## The table -/

/-- A number that was given out has documents. -/
theorem membersOf_ne_nil (h : Fits nullHandling groupBy (available limit) seen) {number : Nat}
    {tuple : List Key}
    (htuple : (keysOf nullHandling groupBy limit seen).tuples[number]? = some tuple) :
    membersOf nullHandling groupBy limit seen number ≠ [] := by
  have hmem := List.mem_of_mem_take (List.mem_of_getElem? htuple)
  obtain ⟨d, hd, rfl⟩ := List.mem_map.1 (Key.mem_of_mem_differentTuples hmem)
  rw [membersOf_eq h htuple]
  exact List.ne_nil_of_mem (List.mem_filter.2 ⟨hd, Key.sameTuple_refl _⟩)

/-- **The aggregates of one number** summarize its documents. -/
theorem groupRow_ok (h : Fits nullHandling groupBy (available limit) seen) {state : State}
    (hstate : Tabulating nullHandling groupBy functions limit seen state) {number : Nat}
    {tuple : List Key} (htuple : state.keys.tuples[number]? = some tuple) :
    ∃ row, groupRow functions state.holders number = .ok row ∧
      List.Forall₂ (Summarizes nullHandling (ofTuple nullHandling groupBy tuple seen))
        functions row := by
  rw [hstate.keys_eq] at htuple
  rw [← membersOf_eq h htuple]
  refine Except.exists_mapM_zip_ok hstate.holders fun f _ holder hkeeps => ?_
  have hlt : number < holder.slots.length :=
    Nat.lt_of_lt_of_le (List.getElem?_eq_some_iff.1 htuple).1 hkeeps.room_le
  have hget : holder.slots[number]? = some holder.slots[number] := List.getElem?_eq_getElem hlt
  refine ⟨f.extractSlot holder.slots[number], ?_, ?_⟩
  · show f.extractGroup holder number = _
    rw [AggregateFunction.extractGroup, GroupHolder.slot, hget]
    rfl
  · exact (hkeeps.gathers number _ hget).extractSlot (membersOf_ne_nil h htuple)

/-- A table of documents by tuple: in order, it has a group for every
tuple of a document and for nothing else, and the cells of a group
summarize the documents of its tuple. -/
structure Tabulates (nullHandling : Bool) (groupBy : List String)
    (functions : List AggregateFunction) (documents : List Document) (t : GroupTable) : Prop where
  ordered : Ordered t.groups
  named : ∀ g ∈ t.groups, ∃ d ∈ documents, d.tuple nullHandling groupBy = g.1
  found : ∀ d ∈ documents, ∃ g ∈ t.groups, Key.sameTuple g.1 (d.tuple nullHandling groupBy)
  summarizes : ∀ g ∈ t.groups, List.Forall₂
    (Summarizes nullHandling (ofTuple nullHandling groupBy g.1 documents)) functions g.2

/-- **The table of a finished scan** tabulates its documents. -/
theorem table_ok (h : Fits nullHandling groupBy (available limit) seen) {state : State}
    (hstate : Tabulating nullHandling groupBy functions limit seen state) :
    ∃ t, table functions state = .ok t ∧ Tabulates nullHandling groupBy functions seen t := by
  have hrow : ∀ pair ∈ state.keys.tuples.zipIdx, ∃ row,
      groupRow functions state.holders pair.2 = .ok row := by
    intro pair hpair
    obtain ⟨row, hrow, -⟩ := groupRow_ok h hstate (List.mem_zipIdx_iff_getElem?.1 hpair)
    exact ⟨row, hrow⟩
  choose! row hrow using hrow
  have htable : table functions state = .ok (state.keys.tuples.zipIdx.foldl
      (fun table pair => table.insert pair.1 (row pair)) .empty) := by
    refine Except.foldlM_ok fun table pair hpair => ?_
    obtain ⟨tuple, number⟩ := pair
    show groupRow functions state.holders number >>= _ = _
    rw [hrow _ hpair]
    rfl
  have htuples : state.keys.tuples =
      Key.differentTuples (seen.map (Document.tuple nullHandling groupBy)) := by
    rw [hstate.keys_eq]
    exact tuples_ofDifferent h
  have hdiffer : Key.Different state.keys.tuples := htuples ▸ Key.different_differentTuples _
  refine ⟨_, htable, ?_, fun g hg => ?_, fun d hd => ?_, fun g hg => ?_⟩
  · have hempty : Ordered GroupTable.empty.groups := .nil
    exact foldl_preserves (P := fun t : GroupTable => Ordered t.groups)
      (fun _ _ hordered => ordered_insertSorted hordered) hempty _
  · obtain ⟨number, hnumber, -⟩ := of_mem_table hdiffer htable hg
    have hmem := List.mem_of_getElem? hnumber
    rw [htuples] at hmem
    exact List.mem_map.1 (Key.mem_of_mem_differentTuples hmem)
  · have hsome := (holds_table htuples htable _).2
      ⟨d.tuple nullHandling groupBy, List.mem_map_of_mem hd, Key.sameTuple_refl _⟩
    obtain ⟨g, hg, hsame⟩ := isSome_find?_iff.1 hsome
    exact ⟨g, hg, Key.sameTuple_iff.2 hsame⟩
  · obtain ⟨number, hnumber, hgroup⟩ := of_mem_table hdiffer htable hg
    obtain ⟨row, hrow, hsummary⟩ := groupRow_ok h hstate hnumber
    obtain rfl := Except.ok.inj (hgroup.symm.trans hrow)
    exact hsummary

/-! ## The whole scan -/

/-- Single-value columns make single keys. -/
theorem schema_ok (hsingle : ∀ e ∈ groupBy, s.isSingle e) :
    ∃ output, schema s.segment groupBy functions = .ok (output, false) := by
  have hkey : ∀ e ∈ groupBy, ∃ key : ResultColumn × Bool,
      keyColumn s.segment (groupBy.length ≤ 1) e = .ok key ∧ key.2 = false := by
    intro e he
    obtain ⟨c, hfind, -⟩ := fetchable_of_isSingle hsingle e he
    have hvalue : c.column.isSingleValue = true := by
      have hsingle := hsingle e he
      rwa [MemorySegment.isSingle, hfind] at hsingle
    have hmetadata : s.segment.metadata e = .ok ⟨c.name, c.column.type, true, c.role⟩ := by
      show (s.find e).map _ = _
      rw [hfind, ← hvalue]
      rfl
    refine ⟨(⟨e, .ofStored c.column.type, c.role⟩, false), ?_, rfl⟩
    rw [keyColumn, hmetadata]
    rfl
  obtain ⟨keys, hkeys⟩ := exists_forall₂ hkey
  refine ⟨⟨keys.map (·.1) ++ Aggregation.intermediateColumns functions⟩, ?_⟩
  have hnone : keys.any (·.2) = false := by
    refine List.any_eq_false.2 fun key hkey => ?_
    obtain ⟨e, -, -, hfalse⟩ := exists_of_mem_right hkeys hkey
    simp [hfalse]
  refine Except.bind_eq_ok.2 ⟨keys, Except.mapM_eq_ok.2 (hkeys.imp fun _ _ h => h.1), ?_⟩
  rw [← hnone]
  rfl

end GroupBy

/-- A segment has the columns that a function reads, and what the function
reads of its documents is there. -/
structure AggregateFunction.Answerable (nullHandling : Bool) (s : MemorySegment)
    (f : AggregateFunction) : Prop where
  known : ∀ name, f.column? = some name → ∃ c, s.find name = .ok c
  reads : f.Reads nullHandling (s.matching.map (Document.mk s))

/-- Any column answers a count. -/
theorem AggregateFunction.answerable_count {column : Option String}
    (hfind : ∀ name, column = some name → ∃ c, s.find name = .ok c) :
    (AggregateFunction.count column).Answerable nullHandling s := ⟨hfind, trivial⟩

/-- **Columns of ints or longs** without null positions answer a least and
a greatest. -/
theorem AggregateFunction.answerable_of_integers {f : AggregateFunction} {name : String}
    (hf : f = .min name ∨ f = .max name) {c : MemoryColumn} (hfind : s.find name = .ok c)
    (hsingle : c.column.isSingleValue) (htype : c.column.type = .int ∨ c.column.type = .long)
    (hnulls : ∀ d, c.column.isNull d = false) : f.Answerable nullHandling s := by
  have hlength := s.length_columns c (MemorySegment.find_name hfind).1
  have hread : ∀ d ∈ s.matching.map (Document.mk s), (d.integer? nullHandling name).isSome := by
    intro document hdocument
    obtain ⟨d, hd, rfl⟩ := List.mem_map.1 hdocument
    have hlt := MemorySegment.lt_of_mem_matching hd
    rw [← hlength] at hlt
    have hcell : (Document.mk s d).integer? nullHandling name =
        (c.column.cellOf nullHandling d).integer? := by
      rw [Document.integer?, MemorySegment.cell, hfind]
    rw [hcell, Column.cellOf, hnulls d, Bool.and_false]
    obtain ⟨_, _, values, nulls⟩ := c
    cases values with
    | multi t vs => cases hsingle
    | single t vs =>
      have hget : vs[d]? = some vs[d] := List.getElem?_eq_getElem hlt
      rcases htype with rfl | rfl <;> simp [hget, StoredType.cell, Cell.integer?]
  rcases hf with rfl | rfl
  · exact ⟨fun _ h => Option.some.inj h ▸ ⟨c, hfind⟩, hread⟩
  · exact ⟨fun _ h => Option.some.inj h ▸ ⟨c, hfind⟩, hread⟩

namespace GroupBy

open GroupKeys

variable {groupBy : List String} {functions : List AggregateFunction} {limit : Nat}

/-- A scan that has seen nothing yet. -/
theorem tabulating_new (hgathering : ∀ f ∈ functions, f.Gathering) (capacity : Nat) :
    Tabulating nullHandling groupBy functions limit []
      ⟨.new limit, functions.map (·.groupHolder capacity limit)⟩ where
  keys_eq := by simp [keysOf, Key.differentTuples, ofDifferent, GroupKeys.new]
  holders := by
    rw [List.forall₂_map_right_iff, List.forall₂_same]
    intro f hf
    have hcount : (keysOf nullHandling groupBy limit []).count = 0 := by
      simp [keysOf, Key.differentTuples, ofDifferent, count]
    rw [hcount]
    exact GroupHolder.keeps_new (hgathering f hf) capacity

/-- **The whole scan** goes through, and takes all matching documents
in. -/
theorem tabulating_scan (hsingle : ∀ e ∈ groupBy, s.isSingle e)
    (hanswers : ∀ f ∈ functions, f.Answerable nullHandling s)
    (hfits : Fits nullHandling groupBy (available limit) (s.matching.map (Document.mk s)))
    (capacity : Nat) :
    ∃ source state, s.scan (Aggregation.fetchedColumns groupBy functions) nullHandling =
        .ok source ∧
      (scanPulls (step (Aggregation.fetchedColumns groupBy functions) groupBy.length false
        functions) ⟨.new limit, functions.map (·.groupHolder capacity limit)⟩
        source.pulls).outcome = .ok state ∧
      Tabulating nullHandling groupBy functions limit (s.matching.map (Document.mk s)) state := by
  have hknown : ∀ e ∈ Aggregation.fetchedColumns groupBy functions, ∃ c, s.find e = .ok c := by
    intro e he
    rcases Aggregation.mem_fetchedColumns_iff.1 he with he | ⟨f, hf, hname⟩
    · exact (fetchable_of_isSingle hsingle e he).imp fun _ h => h.1
    · exact (hanswers f hf).known e hname
  obtain ⟨columns, hcolumns⟩ := Except.exists_mapM_ok.2 hknown
  obtain ⟨source, batches, hsource, hpulls, hbatches, hnonempty⟩ :=
    MemorySegment.exists_scan hcolumns nullHandling
  have hdocuments : (batches.map (MemorySegment.block columns nullHandling)).flatMap
      Block.documents = s.matching :=
    (MemorySegment.flatMap_documents _ _ _).trans hbatches
  -- the invariant remembers that the documents so far match, which is what makes them fit
  have hscan : ∃ state, (scanPulls (step (Aggregation.fetchedColumns groupBy functions)
        groupBy.length false functions) ⟨.new limit, functions.map (·.groupHolder capacity limit)⟩
        ((batches.map (MemorySegment.block columns nullHandling)).map .ok)).outcome = .ok state ∧
      (∀ d ∈ [] ++ (batches.map (MemorySegment.block columns nullHandling)).flatMap
        Block.documents, d ∈ s.matching) ∧
      Tabulating nullHandling groupBy functions limit (([] ++ (batches.map
        (MemorySegment.block columns nullHandling)).flatMap Block.documents).map
          (Document.mk s)) state := by
    refine scanPulls_builds (Q := fun seen state => (∀ d ∈ seen, d ∈ s.matching) ∧
      Tabulating nullHandling groupBy functions limit (seen.map (Document.mk s)) state) ?_
      ⟨fun d hd => absurd hd List.not_mem_nil,
        tabulating_new (fun f hf => (hanswers f hf).reads.gathering) capacity⟩
    rintro seen state ⟨hseen, hstate⟩ b hb
    obtain ⟨batch, hbatch, rfl⟩ := List.mem_map.1 hb
    obtain ⟨hmatching, hlen⟩ := MemorySegment.of_mem_batches hbatches hbatch
    have hall : ∀ d ∈ seen ++ batch, d ∈ s.matching :=
      fun d hd => (List.mem_append.1 hd).elim (hseen d) (hmatching d)
    obtain ⟨visit, hvisit, hmore, hnext⟩ := hstate.step hsingle hcolumns (hnonempty batch hbatch)
      hmatching hlen
      (fun f hf => (hanswers f hf).reads.of_subset (List.map_subset _ hmatching))
      (hfits.of_subset (by rw [← List.map_append]; exact List.map_subset _ hall))
    refine ⟨visit, hvisit, hmore, hall, ?_⟩
    rw [← List.map_append] at hnext
    exact hnext
  obtain ⟨state, houtcome, -, hstate⟩ := hscan
  rw [List.nil_append, hdocuments] at hstate
  exact ⟨source, state, hsource, hpulls ▸ houtcome, hstate⟩

/-- A segment has no more tuples than documents, and so a number for each
that fits the limit. -/
theorem fits_available_of_matching
    (h : Fits nullHandling groupBy limit (s.matching.map (Document.mk s))) :
    Fits nullHandling groupBy (available limit) (s.matching.map (Document.mk s)) := by
  refine le_available_iff.2 ⟨h, (Key.length_differentTuples_le _).trans ?_⟩
  rw [List.length_map, List.length_map]
  exact s.length_matching_le

/-- **A grouping tabulates the matching documents** of a segment, as long
as their different tuples fit the limit. -/
theorem tabulates_run {options : Options} (hsingle : ∀ e ∈ groupBy, s.isSingle e)
    (hanswers : ∀ f ∈ functions, f.Answerable options.nullHandling s)
    (hfits : Fits options.nullHandling groupBy options.numGroupsLimit
      (s.matching.map (Document.mk s))) :
    ∃ r t, (run s.segment groupBy functions options).value = .ok r ∧ r.rows = .groupBy t ∧
      Tabulates options.nullHandling groupBy functions (s.matching.map (Document.mk s)) t := by
  obtain ⟨output, hschema⟩ : ∃ output, schema s.segment groupBy functions = .ok (output, false) :=
    schema_ok hsingle
  have hnumbered := fits_available_of_matching hfits
  obtain ⟨source, state, hsource, houtcome, hstate⟩ := tabulating_scan hsingle hanswers hnumbered
    (min options.maxInitialCapacity options.numGroupsLimit)
  obtain ⟨t, htable, htabulates⟩ := table_ok hnumbered hstate
  obtain ⟨r, hrun, -, hrows⟩ := run_of_scan hschema hsource houtcome htable
  exact ⟨r, t, hrun, hrows, htabulates⟩

end GroupBy

end SegmentQuery
