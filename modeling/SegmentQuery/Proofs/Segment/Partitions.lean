import SegmentQuery.Proofs.Segment.Scans
/-!
# Scans partition the documents

A scan of known columns never fails midway. Its blocks have documents and
no more than a block may hold, and together they hold each matching
document once, in ascending order. In a block, a position has the values
of its document, whatever a column's layout; it is null where nulls are
handled and the column's null set has the document, and nowhere else, so
neither the place of a document in its block nor null positions beyond the
segment make a difference. A scan of given documents is cut in the same
way and heeds no filter.

Without a filter this takes documents that all have numbers of their own:
the first document past 32 bits is delivered as document 0 once more, and
where the list of numbers is too long to allocate there is no scan.
-/


namespace SegmentQuery

/-- One document's value in a column: an element, or an array of them. -/
inductive StoredValue
  | single (type : StoredType) (value : type.Element)
  | multi (type : StoredType) (values : List type.Element)

/-- The members are document numbers, of 32 bits. -/
def DocSet.Numbered (documents : DocSet) : Prop :=
  ∀ d ∈ documents.toList, d < Number.bound32

/-- No member is greater than the greatest. -/
theorem DocSet.le_of_max? {documents : DocSet} {last : Nat} (h : documents.max? = some last) :
    ∀ d ∈ documents.toList, d ≤ last := by
  intro d hd
  obtain ⟨initial, hlist⟩ := List.getLast?_eq_some_iff.1 h
  have hascending := documents.ascending
  rw [hlist, List.pairwise_append] at hascending
  rw [hlist] at hd
  rcases List.mem_append.1 hd with hinitial | hlast
  · exact Nat.le_of_lt (hascending.2.2 d hinitial last List.mem_cons_self)
  · exact Nat.le_of_eq (List.mem_singleton.1 hlast)

namespace ColumnValues

/-- The value at a position. -/
def at? (position : Nat) : ColumnValues → Option StoredValue
  | .single t vs => vs[position]?.map (.single t)
  | .multi t vs => vs[position]?.map (.multi t)

theorem isSome_at?_iff {values : ColumnValues} {position : Nat} :
    (values.at? position).isSome ↔ position < values.length := by
  cases values with
  | single t vs =>
    rw [at?, Option.isSome_map, isSome_getElem?]
    rfl
  | multi t vs =>
    rw [at?, Option.isSome_map, isSome_getElem?]
    rfl

/-- Values copied out of a column are those of the documents. -/
theorem at?_select {values : ColumnValues} {documents : List Nat}
    (hlt : ∀ d ∈ documents, d < values.length) {position : Nat} (hp : position < documents.length) :
    (values.select documents).at? position = values.at? documents[position] := by
  cases values with
  | single t vs =>
    exact congrArg (Option.map (StoredValue.single t)) (Column.getElem?_filterMap_getElem? hlt hp)
  | multi t vs =>
    exact congrArg (Option.map (StoredValue.multi t)) (Column.getElem?_filterMap_getElem? hlt hp)

theorem type_select (values : ColumnValues) (documents : List Nat) :
    (values.select documents).type = values.type := by
  cases values <;> rfl

theorem isSingleValue_select (values : ColumnValues) (documents : List Nat) :
    (values.select documents).isSingleValue = values.isSingleValue := by
  cases values <;> rfl

end ColumnValues

namespace Column

/-- A column of a block that holds what a stored column has for some
documents. -/
structure CopyOf (nullHandling : Bool) (stored : Column) (documents : List Nat) (c : Column) :
    Prop where
  type_eq : c.type = stored.type
  isSingleValue_eq : c.isSingleValue = stored.isSingleValue
  length_eq : c.length = documents.length
  value_eq : ∀ position d, documents[position]? = some d →
    ∃ value, c.values.at? position = some value ∧ stored.values.at? d = some value
  isNull_iff : ∀ position d, documents[position]? = some d →
    (c.isNull position ↔ nullHandling ∧ ∃ nulls, stored.nulls = some nulls ∧ d ∈ nulls.toList)

/-- A document that has a number is null where the null set has it. -/
theorem isNull_iff_mem {c : Column} {d : Nat} (hd : d < Number.bound32) :
    c.isNull d ↔ ∃ nulls, c.nulls = some nulls ∧ d ∈ nulls.toList := by
  rw [isNull, recordsNull, Nat.mod_eq_of_lt hd]
  cases c.nulls with
  | none => simp
  | some nulls => simp

/-- **A batch copies the documents it was taken from.** -/
theorem copyOf_delivered {c : Column} {documents : List Nat} (hlt : ∀ d ∈ documents, d < c.length)
    (hnumber : ∀ d ∈ documents, d < Number.bound32)
    (hlen : documents.length ≤ Number.bound32) (nullHandling : Bool) :
    CopyOf nullHandling c documents (c.delivered nullHandling documents) := by
  have hvalues : (c.delivered nullHandling documents).values = c.values.select documents := by
    cases nullHandling <;> rfl
  refine ⟨?_, ?_, ?_, fun position d hget => ?_, fun position d hget => ?_⟩
  · rw [type, hvalues, ColumnValues.type_select]
    rfl
  · rw [isSingleValue, hvalues, ColumnValues.isSingleValue_select]
    rfl
  · rw [length, hvalues]
    exact ColumnValues.length_select hlt
  all_goals obtain ⟨hp, rfl⟩ := List.getElem?_eq_some_iff.1 hget
  · have hmem := List.getElem_mem hp
    obtain ⟨value, hvalue⟩ := Option.isSome_iff_exists.1
      (ColumnValues.isSome_at?_iff.2 (show _ < c.values.length from hlt _ hmem))
    refine ⟨value, ?_, hvalue⟩
    rw [hvalues, ColumnValues.at?_select hlt hp, hvalue]
  · rw [← isNull_iff_mem (hnumber _ (List.getElem_mem hp))]
    cases nullHandling with
    | false => exact iff_of_false Bool.false_ne_true fun h => Bool.false_ne_true h.1
    | true =>
      rw [and_iff_right rfl, ← isNull_select hlen hp]
      rfl

end Column

namespace ColumnSegment

/-- Blocks that some documents of a segment are cut into, with a column for
each expression. -/
structure CutInto (s : ColumnSegment) (expressions : List String) (nullHandling : Bool)
    (documents : List Nat) (blocks : List Block) : Prop where
  documents_eq : blocks.flatMap Block.documents = documents
  size_pos : ∀ b ∈ blocks, 0 < b.size
  size_le : ∀ b ∈ blocks, b.size ≤ s.blockSize
  columns : ∀ b ∈ blocks, List.Forall₂ (fun e column => ∃ c ∈ s.columns, c.name = e ∧
    Column.CopyOf nullHandling c.column b.documents column) expressions b.columns

variable {s : ColumnSegment} {expressions : List String} {nullHandling : Bool}

/-- A column is found under its name. -/
theorem exists_find_iff {name : String} :
    (∃ c, s.find name = .ok c) ↔ name ∈ s.segment.columnNames := by
  constructor
  · rintro ⟨c, hfind⟩
    obtain ⟨hmem, rfl⟩ := find_name hfind
    exact List.mem_map_of_mem hmem
  · intro hname
    obtain ⟨c, hmem, rfl⟩ := List.mem_map.1 hname
    have hsome : (s.columns.find? (·.name == c.name)).isSome :=
      List.find?_isSome.2 ⟨c, hmem, beq_self_eq_true c.name⟩
    obtain ⟨found, hfound⟩ := Option.isSome_iff_exists.1 hsome
    refine ⟨found, ?_⟩
    rw [find, hfound]

/-- **A source over documents of the segment cuts them into blocks.** -/
theorem cutInto_of_source {documents : List Nat} {entriesInFilter : Nat} {source : BlockSource}
    (hasc : documents.Pairwise (· < ·)) (hlt : ∀ d ∈ documents, d < s.numDocs)
    (hnumber : ∀ d ∈ documents, d < Number.bound32)
    (h : s.source expressions documents entriesInFilter nullHandling = .ok source) :
    ∃ blocks, source.pulls = blocks.map .ok ∧
      s.CutInto expressions nullHandling documents blocks := by
  obtain ⟨columns, batches, hcolumns, hpulls, hflatten, hbatches⟩ := of_source h
  refine ⟨_, hpulls, ?_, ?_, ?_, ?_⟩
  · rw [flatMap_documents, hflatten]
  all_goals
    intro b hb
    obtain ⟨batch, hbatch, rfl⟩ := List.mem_map.1 hb
  · exact List.length_pos_iff.2 (hbatches batch hbatch).1
  · exact (hbatches batch hbatch).2
  · have hsub : batch.Sublist documents := hflatten ▸ List.sublist_flatten_of_mem hbatch
    have hlt' : ∀ d ∈ batch, d < s.numDocs := fun d hd => hlt d (hsub.subset hd)
    have hnumber' : ∀ d ∈ batch, d < Number.bound32 := fun d hd => hnumber d (hsub.subset hd)
    have hlen := DocSet.length_le_of_ascending (hasc.sublist hsub) hnumber'
    refine List.forall₂_map_right_iff.2 ((Except.mapM_eq_ok.1 hcolumns).imp fun e c hfind => ?_)
    obtain ⟨hmem, hname⟩ := find_name hfind
    have hnum := s.length_columns c hmem
    exact ⟨c, hmem, hname, Column.copyOf_delivered (hnum.symm ▸ hlt') hnumber' hlen nullHandling⟩

/-! ## The numbers of a scan -/

/-- What a scan needs to tell its documents apart: a filter of document
numbers, or no more documents than there are numbers. -/
structure Distinguished (s : ColumnSegment) : Prop where
  filter_numbered : ∀ filter ∈ s.filter, filter.Numbered
  numDocs_le : s.filter = none → s.numDocs ≤ Number.bound32

/-- The documents of a scan are those of the segment that the filter, if
there is one, lets through; they ascend, and have 32 bits. -/
theorem Distinguished.of_matching (h : s.Distinguished) :
    (∀ d, d ∈ s.matching ↔ d < s.numDocs ∧ ∀ filter ∈ s.filter, d ∈ filter.toList) ∧
      s.matching.Pairwise (· < ·) ∧ ∀ d ∈ s.matching, d < Number.bound32 := by
  cases hfilter : s.filter with
  | none =>
    have hle := h.numDocs_le hfilter
    rw [matching_of_none hfilter hle]
    refine ⟨fun d => by simp, List.pairwise_lt_range, fun d hd => ?_⟩
    exact Nat.lt_of_lt_of_le (List.mem_range.1 hd) hle
  | some filter =>
    have hnumbered := h.filter_numbered filter hfilter
    rw [matching, hfilter]
    refine ⟨fun d => ?_, filter.ascending.filter _, fun d hd =>
      hnumbered d (List.mem_of_mem_filter hd)⟩
    rw [List.mem_filter, decide_eq_true_iff]
    simp [and_comm]

/-- **Documents past 32 bits repeat numbers.** -/
theorem not_pairwise_matching (hfilter : s.filter = none) (hmore : Number.bound32 < s.numDocs) :
    ¬ s.matching.Pairwise (· < ·) := by
  intro hascending
  rw [matching, hfilter, List.pairwise_map] at hascending
  have hbound : 0 < Number.bound32 := Nat.zero_lt_succ _
  have hrange := List.pairwise_iff_getElem.1 hascending 0 Number.bound32
    (by rw [List.length_range]; omega) (by rwa [List.length_range]) hbound
  rw [List.getElem_range, List.getElem_range, Nat.zero_mod, Nat.mod_self] at hrange
  exact absurd hrange (Nat.lt_irrefl 0)

/-! ## Scans -/

/-- Known columns are found. -/
theorem exists_mapM_find (hknown : ∀ e ∈ expressions, e ∈ s.segment.columnNames) :
    ∃ columns, expressions.mapM s.find = .ok columns :=
  Except.exists_mapM_ok.2 fun e he => exists_find_iff.2 (hknown e he)

/-- The last of ascending documents is beyond none of them. -/
theorem scanDocs_of_lt {documents : DocSet} (hlt : ∀ d ∈ documents.toList, d < s.numDocs) :
    s.scanDocs expressions documents nullHandling =
      s.source expressions documents.toList 0 nullHandling := by
  unfold scanDocs
  split
  · rename_i last hlast
    exact if_neg (Nat.not_le.2 (hlt last (List.mem_of_getLast? hlast)))
  · rfl

/-- Documents that can be asked for are the segment's. -/
theorem lt_of_scanDocs {documents : DocSet} {source : BlockSource}
    (h : s.scanDocs expressions documents nullHandling = .ok source) :
    ∀ d ∈ documents.toList, d < s.numDocs := by
  intro d hd
  unfold scanDocs at h
  split at h
  · rename_i last hlast
    split at h
    · exact nomatch h
    · rename_i hless
      exact Nat.lt_of_le_of_lt (documents.le_of_max? hlast d hd) (Nat.not_le.1 hless)
  · rename_i hnone
    rw [List.getLast?_eq_none_iff.1 hnone] at hd
    exact absurd hd List.not_mem_nil

/-- **A scan partitions the documents.** Whatever the block size, the filter
and the null sets of a segment, a scan of known columns ends without an
error, where a filter names its documents or they all have numbers of their
own; its blocks have documents, none more than a block may hold, and
together they hold the documents that the filter lets through, ascending,
with their values and their nulls. Documents that are asked for are
delivered in the same way, by any segment, and asking fails exactly when the
segment does not have them all. -/
theorem scan_partitions (s : ColumnSegment) (expressions : List String) (nullHandling : Bool)
    (hknown : ∀ e ∈ expressions, e ∈ s.segment.columnNames) :
    (s.Distinguished →
      ∃ source blocks documents, s.scan expressions nullHandling = .ok source ∧
        source.pulls = blocks.map .ok ∧ s.CutInto expressions nullHandling documents blocks ∧
        documents.Pairwise (· < ·) ∧
        ∀ d, d ∈ documents ↔ d < s.numDocs ∧ ∀ filter ∈ s.filter, d ∈ filter.toList) ∧
    ∀ documents : DocSet, documents.Numbered →
      ((∃ source, s.scanDocs expressions documents nullHandling = .ok source) ↔
        ∀ d ∈ documents.toList, d < s.numDocs) ∧
      ∀ source, s.scanDocs expressions documents nullHandling = .ok source →
        ∃ blocks, source.pulls = blocks.map .ok ∧
          s.CutInto expressions nullHandling documents.toList blocks := by
  obtain ⟨columns, hcolumns⟩ := exists_mapM_find hknown
  refine ⟨fun h => ?_, fun documents hnumbered => ⟨⟨?_, fun hlt => ?_⟩, fun source hsource => ?_⟩⟩
  · obtain ⟨hmem, hascending, hnumber⟩ := h.of_matching
    obtain ⟨source, hsource⟩ := exists_source hcolumns s.matching
      (if s.filter.isSome then s.numDocs else 0) nullHandling
    obtain ⟨blocks, hpulls, hcut⟩ := cutInto_of_source hascending
      (fun d hd => ((hmem d).1 hd).1) hnumber hsource
    exact ⟨source, blocks, s.matching, (scan_eq h.numDocs_le _ _).trans hsource, hpulls, hcut,
      hascending, hmem⟩
  · rintro ⟨source, hsource⟩
    exact lt_of_scanDocs hsource
  · rw [scanDocs_of_lt hlt]
    exact exists_source hcolumns documents.toList 0 nullHandling
  · have hlt := lt_of_scanDocs hsource
    rw [scanDocs_of_lt hlt] at hsource
    exact cutInto_of_source documents.ascending hlt hnumbered hsource

/-- Five documents, of which a filter lets three through and names one that
does not exist; a null set records one of the three and a stray position. -/
def filtered : ColumnSegment where
  name := "filtered"
  numDocs := 5
  columns := [⟨"k", .dimension, ⟨.single .int [10, 11, 12, 13, 14], some (.ofList [2, 7])⟩⟩]
  blockSize := 2
  sortedColumns := []
  filter := some (.ofList [0, 2, 3, 9])
  length_columns := by simp [Column.length, ColumnValues.length]
  names_nodup := by simp
  blockSize_pos := Nat.two_pos

/-- The documents 0, 2 and 3 are cut into blocks of two, and a document past
the end cannot be asked for. -/
theorem scan_partitions_filtered :
    (∀ e ∈ ["k", "k"], e ∈ filtered.segment.columnNames) ∧ filtered.Distinguished ∧
    (∃ source blocks documents, filtered.scan ["k", "k"] true = .ok source ∧
      source.pulls = blocks.map .ok ∧ filtered.CutInto ["k", "k"] true documents blocks ∧
      documents.Pairwise (· < ·) ∧ 0 ∈ documents ∧ 2 ∈ documents ∧ 3 ∈ documents ∧
      4 ∉ documents ∧ 9 ∉ documents) ∧
    (DocSet.ofList [4, 5]).Numbered ∧
    ¬ ∃ source, filtered.scanDocs ["k", "k"] (.ofList [4, 5]) true = .ok source := by
  have hknown : ∀ e ∈ ["k", "k"], e ∈ filtered.segment.columnNames := by decide
  have hdistinguished : filtered.Distinguished := by
    refine ⟨fun filter hfilter => ?_, nofun⟩
    obtain rfl := Option.some.inj hfilter
    show ∀ d ∈ [0, 2, 3, 9], d < Number.bound32
    decide
  have hnumbered : (DocSet.ofList [4, 5]).Numbered := by
    show ∀ d ∈ [4, 5], d < Number.bound32
    decide
  obtain ⟨hscan, hdocs⟩ := scan_partitions filtered ["k", "k"] true hknown
  obtain ⟨source, blocks, documents, hsource, hpulls, hcut, hascending, hmem⟩ :=
    hscan hdistinguished
  refine ⟨hknown, hdistinguished, ⟨source, blocks, documents, hsource, hpulls, hcut, hascending,
    ?_⟩, hnumbered, fun h => ?_⟩
  · simp only [hmem]
    decide
  · exact absurd ((hdocs (.ofList [4, 5]) hnumbered).1.1 h 5 (by decide)) (by decide)

/-- A scan of documents that 32 bits cannot number repeats a number. -/
theorem exists_scan_repeating {s : ColumnSegment} (hfilter : s.filter = none)
    (hmore : Number.bound32 < s.numDocs) (hroom : s.numberBytes ≤ Number.maxAllocation) :
    ∃ (source : BlockSource) (blocks : List Block), s.scan [] true = .ok source ∧
      source.pulls = blocks.map .ok ∧ ¬ (blocks.flatMap Block.documents).Pairwise (· < ·) := by
  have hnone : [].mapM s.find = .ok [] := rfl
  obtain ⟨source, hsource⟩ := exists_source hnone s.matching 0 true
  obtain ⟨columns, batches, -, hpulls, hflatten, -⟩ := of_source hsource
  have hscan : s.scan [] true = .ok source := by
    rw [scan_of_none hfilter, if_neg (Nat.not_lt.2 hroom), hsource]
  refine ⟨source, _, hscan, hpulls, ?_⟩
  rw [flatMap_documents, hflatten]
  exact not_pairwise_matching hfilter hmore

/-- **Without a filter a scan tells 2³² documents apart, and no more.** One
document more, and the scan delivers number 0 twice; with as many that their
numbers cannot be allocated, there is no scan. -/
theorem scan_of_many :
    (∃ (source : BlockSource) (blocks : List Block),
      (empty "many" 4294967297).scan [] true = .ok source ∧
      source.pulls = blocks.map .ok ∧ ¬ (blocks.flatMap Block.documents).Pairwise (· < ·)) ∧
    ∃ e, (empty "more" 2305843009213693952).scan [] true = .error e ∧ e.isFatal = true := by
  constructor
  · refine exists_scan_repeating rfl (Nat.lt_succ_self 4294967296) ?_
    rw [numberBytes_empty]
    decide
  · refine ⟨.allocation .fetch (4 * 2305843009213693952), ?_, rfl⟩
    rw [scan_of_none rfl, numberBytes_empty, if_pos (by decide)]

end ColumnSegment

end SegmentQuery
