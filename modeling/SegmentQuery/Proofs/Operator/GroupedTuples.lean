import SegmentQuery.Proofs.Operator.Grouping
import SegmentQuery.Proofs.Operator.Numbering
import SegmentQuery.Proofs.Selection.Plans
/-!
# The tuples that a grouping numbers

Whatever the blocks of a scan are, the tuples that are numbered are those
of the matching documents, in document order: the tuple of a document's
keys, or one for each element where a column of arrays is grouped by. The
table of a finished scan has one group for each number.
-/


namespace SegmentQuery

namespace Aggregation

/-- The leading columns are fetched in front. -/
theorem prefix_fetchedColumns (leading : List String) (functions : List AggregateFunction) :
    leading <+: fetchedColumns leading functions := by
  unfold fetchedColumns
  induction functions generalizing leading with
  | nil => exact List.prefix_rfl
  | cons f functions ih =>
    rw [List.foldl_cons]
    split
    · split
      · exact ih leading
      · exact (List.prefix_append leading _).trans (ih _)
    · exact ih leading

end Aggregation

namespace GroupBy

open GroupKeys GroupTable

/-- The tuples that a document belongs to, by its cells in the group-by
columns: that of its keys, or one for each element of an array. -/
def documentTuples : Row → List (List Key)
  | [c] => (elementKeys c).map ([·])
  | row => [row.map Cell.key]

/-- Cells without arrays make one tuple. -/
theorem documentTuples_of_single {row : Row} (h : ∀ c ∈ row, c.isMultiValue = false) :
    documentTuples row = [row.map Cell.key] := by
  unfold documentTuples
  split
  · rename_i c
    have hsingle := h c List.mem_cons_self
    cases c <;> first | rfl | exact nomatch hsingle
  · rfl

/-- A single cell makes a tuple for each element. -/
theorem documentTuples_of_length {row : Row} (h : row.length = 1) :
    documentTuples row = (row.flatMap elementKeys).map ([·]) := by
  obtain ⟨c, rfl⟩ := List.length_eq_one_iff.1 h
  simp [documentTuples]

theorem snd_assignElements (keys : GroupKeys) (rows : List Row) :
    (assignElements keys rows).2 =
      (keys.assignAll (rows.flatMap fun row => (row.flatMap elementKeys).map ([·]))).2 := by
  induction rows generalizing keys with
  | nil => rfl
  | cons row rest ih =>
    rw [List.flatMap_cons, snd_assignAll_append]
    exact ih _

/-! ## One block -/

variable {s : MemorySegment} {groupBy : List String} {functions : List AggregateFunction}
variable {output : Schema} {multiValue nullHandling : Bool} {limit : Nat}

/-- Columns that are not grouped as arrays are single-value columns. -/
theorem isSingle_of_schema (h : schema s.segment groupBy functions = .ok (output, false)) :
    ∀ e ∈ groupBy, s.isSingle e := by
  obtain ⟨keys, hkeys, hpair⟩ := Except.bind_eq_ok.1 h
  obtain ⟨-, hnone⟩ := Prod.mk.inj (Except.ok.inj hpair)
  intro e he
  obtain ⟨key, hkey, hcolumn⟩ := exists_of_mem_right (Except.mapM_eq_ok.1 hkeys).flip he
  obtain ⟨metadata, hmetadata, hcolumn⟩ := Except.bind_eq_ok.1 hcolumn
  obtain ⟨c, hfind, rfl⟩ := Except.map_eq_ok.1 hmetadata
  have harray : key.2 = false := by simpa using List.any_eq_false.1 hnone key hkey
  rw [MemorySegment.isSingle, hfind]
  by_contra hmulti
  -- an array column would have been noted, or refused
  have hmulti' : c.column.isSingleValue = false := by simpa using hmulti
  simp only [hmulti'] at hcolumn
  split at hcolumn
  · cases hcolumn
  · obtain rfl := Except.ok.inj hcolumn
    cases harray

/-- The tuples of documents of a segment. -/
def tuplesOf (s : MemorySegment) (nullHandling : Bool) (groupBy : List String)
    (documents : List Nat) : List (List Key) :=
  documents.flatMap fun d => documentTuples (s.row nullHandling groupBy d)

/-- **One block**: its documents' tuples are numbered, in document
order. -/
theorem snd_groupBlock {extra : List String} {columns : List MemoryColumn}
    (hschema : schema s.segment groupBy functions = .ok (output, multiValue))
    (hcolumns : (groupBy ++ extra).mapM s.find = .ok columns) {documents : List Nat}
    (hdocuments : ∀ d ∈ documents, d ∈ s.matching) (hlen : documents.length ≤ Number.bound32)
    {keys keys' : GroupKeys} {covered : Block} {groups : BlockGroups}
    (h : groupBlock groupBy.length multiValue keys
      (MemorySegment.block columns nullHandling documents) = .ok (groups, covered, keys')) :
    s.Fetchable groupBy ∧
      keys' = (keys.assignAll (tuplesOf s nullHandling groupBy documents)).2 := by
  have hleading : groupBy.mapM s.find = .ok (columns.take groupBy.length) := by
    have htake := List.forall₂_take groupBy.length (Except.mapM_eq_ok.1 hcolumns)
    rw [List.take_left' rfl] at htake
    exact Except.mapM_eq_ok.2 htake
  unfold groupBlock at h
  by_cases hshort : (MemorySegment.block columns nullHandling documents).columns.length <
      groupBy.length
  · rw [if_pos hshort] at h
    exact nomatch h
  · rw [if_neg hshort] at h
    obtain ⟨view, hview, h⟩ := Except.bind_eq_ok.1 h
    obtain ⟨rows, hrows, h⟩ := Except.bind_eq_ok.1 h
    have htake : (MemorySegment.block columns nullHandling documents).columns.take groupBy.length =
        (MemorySegment.block (columns.take groupBy.length) nullHandling documents).columns :=
      List.map_take.symm
    rw [htake] at hview
    obtain ⟨hfetch, hreads⟩ := MemorySegment.reads_of_view hleading hdocuments hlen hview
    have hdocs : rows = documents.map (s.row nullHandling groupBy) := by
      have hall := hreads.mapM_row (Nat.le_refl documents.length)
      have hwhole : documents.take documents.length = documents := List.take_length
      exact (Except.ok.inj (hrows.symm.trans hall)).trans (congrArg _ hwhole)
    refine ⟨hfetch, ?_⟩
    cases multiValue with
    | true =>
      obtain rfl := (Prod.mk.inj (Prod.mk.inj (Except.ok.inj h)).2).2
      rw [snd_assignElements, hdocs, List.flatMap_map]
      have hone : groupBy.length = 1 := length_of_multiValue hschema rfl
      congr 2
      exact List.flatMap_congr fun d _ => (documentTuples_of_length (by simpa using hone)).symm
    | false =>
      obtain rfl := (Prod.mk.inj (Prod.mk.inj (Except.ok.inj h)).2).2
      rw [hdocs, List.map_map, List.map_eq_flatMap]
      congr 2
      refine List.flatMap_congr fun d _ => (documentTuples_of_single fun c hc => ?_).symm
      obtain ⟨e, he, rfl⟩ := List.mem_map.1 hc
      exact MemorySegment.isMultiValue_cell (isSingle_of_schema hschema e he) _ _

/-! ## The whole scan -/

/-- What a scan in progress has made of the documents that it has seen: it
has numbered their tuples, and it still has a holder for each function. -/
structure Grouped (s : MemorySegment) (nullHandling : Bool) (groupBy : List String) (limit : Nat)
    (width : Nat) (seen : List Nat) (state : State) : Prop where
  keys_eq : state.keys = ((new limit).assignAll (tuplesOf s nullHandling groupBy seen)).2
  length_holders : state.holders.length = width
  fetchable : seen ≠ [] → s.Fetchable groupBy

/-- Holders that were given room are as many as before. -/
theorem length_ensureAll {wanted : Nat} {holders grown : List GroupHolder}
    (h : (ensureAll wanted holders).value = .ok grown) : grown.length = holders.length := by
  induction holders generalizing grown with
  | nil =>
    obtain rfl := Except.ok.inj h
    rfl
  | cons holder rest ih =>
    unfold ensureAll at h
    split at h
    · exact nomatch h
    · obtain ⟨more, hmore, rfl⟩ := Except.map_eq_ok.1 h
      rw [List.length_cons, List.length_cons, ih hmore]

theorem length_foldBlock {columns : List String} {block : Block} {groups : BlockGroups}
    {holders folded : List GroupHolder}
    (h : foldBlock columns functions block groups holders = .ok folded)
    (hlen : holders.length = functions.length) : folded.length = functions.length := by
  rw [← (Except.mapM_eq_ok.1 h).length_eq, List.length_zip, hlen, Nat.min_self]

/-- Taking a block into the groups takes in its documents. -/
theorem Grouped.step {extra : List String} {columns : List MemoryColumn}
    (hschema : schema s.segment groupBy functions = .ok (output, multiValue))
    (hcolumns : (groupBy ++ extra).mapM s.find = .ok columns) {documents seen : List Nat}
    (hdocuments : ∀ d ∈ documents, d ∈ s.matching) (hlen : documents.length ≤ Number.bound32)
    {state : State} (hstate : Grouped s nullHandling groupBy limit functions.length seen state)
    {names : List String} {visit : Visit State}
    (h : (GroupBy.step names groupBy.length multiValue functions state
      (MemorySegment.block columns nullHandling documents)).value = .ok visit) :
    visit.finished = false ∧
      Grouped s nullHandling groupBy limit functions.length (seen ++ documents) visit.state := by
  unfold GroupBy.step at h
  split at h
  · exact nomatch h
  · rename_i groups covered keys hblock
    obtain ⟨hfetch, hkeys⟩ := snd_groupBlock hschema hcolumns hdocuments hlen hblock
    obtain ⟨grown, hgrown, h⟩ := Except.bind_eq_ok.1 h
    obtain ⟨holders, hfold, h⟩ := Except.bind_eq_ok.1 h
    obtain rfl := Except.ok.inj h
    refine ⟨rfl, ⟨?_, ?_, fun _ => hfetch⟩⟩
    · rw [hkeys, hstate.keys_eq, tuplesOf, tuplesOf, tuplesOf, List.flatMap_append,
        snd_assignAll_append]
    · exact length_foldBlock hfold ((length_ensureAll hgrown).trans hstate.length_holders)

/-- **A grouping numbers the tuples of the matching documents.** -/
theorem of_run {options : Options} {r : PartialResult}
    (h : (run s.segment groupBy functions options).value = .ok r) :
    ∃ multiValue state t, schema s.segment groupBy functions = .ok (r.schema, multiValue) ∧
      Grouped s options.nullHandling groupBy options.numGroupsLimit functions.length s.matching
        state ∧
      table functions state = .ok t ∧ r.rows = .groupBy t ∧
      r.stats.groupsLimitReached = state.keys.limitReached ∧ r.exceptions = [] := by
  obtain ⟨multiValue, source, state, t, hschema, hsource, houtcome, htable, hrows, hreached,
    hexceptions⟩ := scan_of_run h
  refine ⟨multiValue, state, t, hschema, ?_, htable, hrows, hreached, hexceptions⟩
  obtain ⟨columns, batches, hcolumns, hpulls, hbatches⟩ := MemorySegment.of_scan hsource
  obtain ⟨extra, hextra⟩ := Aggregation.prefix_fetchedColumns groupBy functions
  rw [← hextra] at hcolumns
  rw [hpulls] at houtcome
  have hdocuments : (batches.map (MemorySegment.block columns options.nullHandling)).flatMap
      Block.documents = s.matching :=
    (MemorySegment.flatMap_documents _ _ _).trans hbatches
  rw [← hdocuments, ← List.nil_append (List.flatMap _ _)]
  refine scanPulls_documents (fun seen state hstate b hb visit hvisit => ?_) ?_ houtcome
  · obtain ⟨batch, hbatch, rfl⟩ := List.mem_map.1 hb
    obtain ⟨hmatching, hlen⟩ := MemorySegment.of_mem_batches hbatches hbatch
    exact hstate.step hschema hcolumns hmatching hlen hvisit
  · exact ⟨rfl, by simp [initialState], fun hne => absurd rfl hne⟩

/-! ## The table -/

/-- Groups of different tuples that are put into a table one by one join
those that are there. -/
theorem perm_of_foldlM {f : Nat → Except QueryError Row} {pairs : List (List Key × Nat)}
    (hdiffer : Key.Different (pairs.map Prod.fst)) {start t : GroupTable}
    (hnew : ∀ pair ∈ pairs, ∀ g ∈ start.groups, Key.compareTuples g.1 pair.1 ≠ .eq)
    (h : pairs.foldlM (fun table (pair : List Key × Nat) => do
      return table.insert pair.1 (← f pair.2)) start = .ok t) :
    ∃ rows, List.Forall₂ (fun pair row => f pair.2 = .ok row) pairs rows ∧
      t.groups.Perm ((pairs.map Prod.fst).zip rows ++ start.groups) := by
  induction pairs generalizing start with
  | nil =>
    obtain rfl := Except.ok.inj h
    exact ⟨[], .nil, .refl _⟩
  | cons pair pairs ih =>
    obtain ⟨hpair, hpairs⟩ := List.pairwise_cons.1 hdiffer
    obtain ⟨hnew, hnews⟩ := List.forall_mem_cons.1 hnew
    obtain ⟨next, hnext, h⟩ := Except.bind_eq_ok.1 h
    obtain ⟨row, hrow, hnext⟩ := Except.bind_eq_ok.1 hnext
    obtain rfl := Except.ok.inj hnext
    have hjoin : (start.insert pair.1 row).groups.Perm ((pair.1, row) :: start.groups) :=
      perm_insertSorted hnew
    have hstill : ∀ other ∈ pairs, ∀ g ∈ (start.insert pair.1 row).groups,
        Key.compareTuples g.1 other.1 ≠ .eq := by
      intro other hother g hg
      rcases List.mem_cons.1 (hjoin.mem_iff.1 hg) with rfl | hg
      · exact fun htie => hpair other.1 (List.mem_map_of_mem hother) (Key.sameTuple_iff.2 htie)
      · exact hnews other hother g hg
    obtain ⟨rows, hrows, hperm⟩ := ih hpairs hstill h
    exact ⟨row :: rows, .cons hrow hrows,
      hperm.trans ((hjoin.append_left _).trans List.perm_middle)⟩

/-- **The groups of a table** are the numbered tuples, each with the
aggregates under its number. -/
theorem perm_table {state : State} (hdiffer : Key.Different state.keys.tuples) {t : GroupTable}
    (h : table functions state = .ok t) :
    ∃ rows, List.Forall₂ (fun pair row => groupRow functions state.holders pair.2 = .ok row)
        state.keys.tuples.zipIdx rows ∧
      t.groups.Perm (state.keys.tuples.zip rows) := by
  have hfst : state.keys.tuples.zipIdx.map Prod.fst = state.keys.tuples := List.zipIdx_map_fst ..
  obtain ⟨rows, hrows, hperm⟩ := perm_of_foldlM (hfst.symm ▸ hdiffer) (by simp [GroupTable.empty]) h
  rw [hfst, GroupTable.empty, List.append_nil] at hperm
  exact ⟨rows, hrows, hperm⟩

/-- A group of a table has the aggregates of a number. -/
theorem of_mem_table {state : State} (hdiffer : Key.Different state.keys.tuples) {t : GroupTable}
    (h : table functions state = .ok t) {g : List Key × Row} (hg : g ∈ t.groups) :
    ∃ number, state.keys.tuples[number]? = some g.1 ∧
      groupRow functions state.holders number = .ok g.2 := by
  obtain ⟨rows, hrows, hperm⟩ := perm_table hdiffer h
  obtain ⟨number, hnumber, hat⟩ := List.mem_iff_getElem.1 (hperm.mem_iff.1 hg)
  rw [List.length_zip, Nat.lt_min] at hnumber
  rw [List.getElem_zip] at hat
  have hrow := hrows.get (by simpa using hnumber.1) hnumber.2
  simp only [List.get_eq_getElem, List.getElem_zipIdx, Nat.zero_add] at hrow
  subst hat
  exact ⟨number, List.getElem?_eq_getElem hnumber.1, hrow⟩

end GroupBy

end SegmentQuery
