import SegmentQuery.Operator.GroupBy
import SegmentQuery.Proofs.Operator.Scanning
import SegmentQuery.Proofs.Result.GroupTables
/-!
# What grouping yields

A grouping numbers at most as many tuples as its limit allows, and every
tuple it numbers has one key for each group-by column. The table of a
finished scan is therefore sound: in order, within the limit, and made of
proper tuples.
-/


namespace SegmentQuery

open GroupTable

variable {keyCount limit : Nat}

namespace GroupKeys

/-- Proper tuples, within a limit and no more than 32 bits number. -/
structure Sound (keyCount limit : Nat) (g : GroupKeys) : Prop where
  limit_eq : g.limit = limit
  count_le : g.count ≤ limit
  count_le_bound32 : g.count ≤ Number.bound32
  proper : ∀ tuple ∈ g.tuples, Proper keyCount tuple

theorem sound_new : Sound keyCount limit (new limit) where
  limit_eq := rfl
  count_le := Nat.zero_le _
  count_le_bound32 := Nat.zero_le _
  proper := by simp [new]

variable {g : GroupKeys}

/-- Numbering one tuple. -/
theorem Sound.assign (h : g.Sound keyCount limit) {tuple : List Key}
    (htuple : Proper keyCount tuple) : (g.assign tuple).2.Sound keyCount limit := by
  obtain ⟨hlimit, hcount, hbits, hproper⟩ := h
  obtain ⟨_, -, hassign⟩ | ⟨-, -, hassign⟩ | ⟨-, -, -, hassign⟩ | ⟨-, hroom, hnext, hassign⟩ :=
    g.assign_cases tuple <;> rw [hassign]
  · exact ⟨hlimit, hcount, hbits, hproper⟩
  · exact ⟨hlimit, hcount, hbits, hproper⟩
  · exact ⟨hlimit, hcount, hbits, hproper⟩
  · have hlength : (g.tuples ++ [tuple]).length = g.count + 1 := List.length_append
    refine ⟨hlimit, hlength.trans_le (hlimit ▸ hroom), hlength.trans_le hnext, fun t ht => ?_⟩
    rcases List.mem_append.1 ht with ht | ht
    · exact hproper t ht
    · rw [List.mem_singleton.1 ht]
      exact htuple

/-- Numbering tuples one after the other. -/
theorem Sound.assignAll (h : g.Sound keyCount limit) {tuples : List (List Key)}
    (htuples : ∀ tuple ∈ tuples, Proper keyCount tuple) :
    (g.assignAll tuples).2.Sound keyCount limit := by
  induction tuples generalizing g with
  | nil => exact h
  | cons tuple rest ih =>
    obtain ⟨htuple, hrest⟩ := List.forall_mem_cons.1 htuples
    exact ih (h.assign htuple) hrest

end GroupKeys

namespace GroupBy

/-- A row's keys are a proper tuple. -/
theorem proper_keys (row : Row) : Proper row.length (row.map Cell.key) := by
  refine ⟨by simp, fun key hkey => ?_⟩
  obtain ⟨cell, -, rfl⟩ := List.mem_map.1 hkey
  exact cell.key_cell_key

/-- The elements of a cell are keys of their cells. -/
theorem key_of_mem_elementKeys {c : Cell} {key : Key} (h : key ∈ elementKeys c) :
    key.cell.key = key := by
  cases c <;> simp only [elementKeys, List.mem_map, List.mem_singleton] at h
  case intArray | longArray | floatArray | doubleArray | stringArray =>
    obtain ⟨v, -, rfl⟩ := h
    exact Cell.key_cell_key _
  all_goals
    rw [h]
    exact Cell.key_cell_key _

/-- Numbering the elements of rows. -/
theorem sound_assignElements {keys : GroupKeys} (h : keys.Sound 1 limit) (rows : List Row) :
    (assignElements keys rows).2.Sound 1 limit := by
  induction rows generalizing keys with
  | nil => exact h
  | cons row rest ih =>
    refine ih (h.assignAll fun tuple htuple => ?_)
    obtain ⟨key, hkey, rfl⟩ := List.mem_map.1 htuple
    obtain ⟨cell, -, hcell⟩ := List.mem_flatMap.1 hkey
    exact ⟨rfl, by simpa using key_of_mem_elementKeys hcell⟩

/-- The rows of a view have a cell per column. -/
theorem length_row {columns : List Column} {view : RowView}
    (hview : RowView.ofColumns columns = .ok view) {document : Nat} {row : Row}
    (hrow : view.row document = .ok row) : row.length = columns.length := by
  obtain ⟨cells, hcells, rfl⟩ := Except.map_eq_ok.1 hview
  have hlength := (Except.mapM_eq_ok.1 hcells).length_eq
  rw [hlength]
  exact (Except.mapM_eq_ok.1 hrow).length_eq.symm

/-- **One block**: what it numbers are proper tuples within the limit.
Arrays are grouped by only when they are the only column. -/
theorem sound_groupBlock {multiValue : Bool} (hmulti : multiValue = true → keyCount = 1)
    {keys keys' : GroupKeys} (h : keys.Sound keyCount limit) {block covered : Block}
    {groups : BlockGroups}
    (hblock : groupBlock keyCount multiValue keys block = .ok (groups, covered, keys')) :
    keys'.Sound keyCount limit := by
  unfold groupBlock at hblock
  by_cases hshort : block.columns.length < keyCount
  · rw [if_pos hshort] at hblock
    exact nomatch hblock
  · rw [if_neg hshort] at hblock
    obtain ⟨view, hview, hrest⟩ := Except.bind_eq_ok.1 hblock
    obtain ⟨rows, hrows, hnumbered⟩ := Except.bind_eq_ok.1 hrest
    have hwidth : ∀ row ∈ rows, row.length = keyCount := by
      intro row hrow
      obtain ⟨i, hi, rfl⟩ := List.mem_iff_getElem.1 hrow
      have hforall := Except.mapM_eq_ok.1 hrows
      have hat : rows[i].length = (block.columns.take keyCount).length :=
        length_row hview (hforall.get (hforall.length_eq ▸ hi) hi)
      rw [List.length_take] at hat
      omega
    cases multiValue with
    | true =>
      obtain rfl := hmulti rfl
      obtain rfl := (Prod.mk.inj (Prod.mk.inj (Except.ok.inj hnumbered)).2).2
      exact sound_assignElements h rows
    | false =>
      obtain rfl := (Prod.mk.inj (Prod.mk.inj (Except.ok.inj hnumbered)).2).2
      refine h.assignAll fun tuple htuple => ?_
      obtain ⟨row, hrow, rfl⟩ := List.mem_map.1 htuple
      rw [← hwidth row hrow]
      exact proper_keys row

/-- A column of arrays is grouped by alone. -/
theorem length_of_multiValue {segment : Segment} {groupBy : List String}
    {functions : List AggregateFunction} {output : Schema} {multiValue : Bool}
    (h : schema segment groupBy functions = .ok (output, multiValue)) (hmulti : multiValue = true) :
    groupBy.length = 1 := by
  obtain ⟨keys, hkeys, hpair⟩ := Except.bind_eq_ok.1 h
  obtain ⟨-, rfl⟩ := Prod.mk.inj (Except.ok.inj hpair)
  obtain ⟨key, hmem, harray⟩ := List.any_eq_true.1 hmulti
  obtain ⟨i, hi, rfl⟩ := List.mem_iff_getElem.1 hmem
  have hforall := Except.mapM_eq_ok.1 hkeys
  have hi' : i < groupBy.length := hforall.length_eq ▸ hi
  obtain ⟨metadata, -, hcolumn⟩ := Except.bind_eq_ok.1 (hforall.get hi' hi)
  by_cases hsingle : groupBy.length ≤ 1
  · omega
  · -- with a second column next to it the array would have been refused
    simp only [List.get_eq_getElem, hsingle, decide_false, Bool.not_false, Bool.and_true] at hcolumn
    by_cases hvalue : metadata.singleValue = true
    · simp only [hvalue, Bool.not_true] at hcolumn
      rw [← Except.ok.inj hcolumn] at harray
      exact absurd harray (by simp)
    · simp only [hvalue, Bool.not_false, if_true] at hcolumn
      exact nomatch hcolumn

/-- **A finished scan makes a sound table.** -/
theorem sound_table {functions : List AggregateFunction} {state : State}
    (hkeys : state.keys.Sound keyCount limit) {t : GroupTable}
    (h : table functions state = .ok t) : t.Sound keyCount limit := by
  -- along the tuples, with as many groups as tuples so far
  have hfold : ∀ (step : GroupTable → List Key × Nat → Except QueryError GroupTable),
      (∀ table pair next, step table pair = .ok next → ∃ row, next = table.insert pair.1 row) →
      ∀ (tuples : List (List Key × Nat)) (start : GroupTable) (t : GroupTable),
        (∀ pair ∈ tuples, Proper keyCount pair.1) → start.Sound keyCount start.size →
        tuples.foldlM step start = .ok t → t.Sound keyCount (start.size + tuples.length) := by
    intro step hstep tuples
    induction tuples with
    | nil =>
      intro start t _ hstart hok
      obtain rfl := Except.ok.inj hok
      exact hstart
    | cons pair rest ih =>
      intro start t hproper hstart hok
      obtain ⟨hpair, hrest⟩ := List.forall_mem_cons.1 hproper
      obtain ⟨next, hnext, hok⟩ := Except.bind_eq_ok.1 hok
      obtain ⟨row, rfl⟩ := hstep start pair next hnext
      have hsize : (start.insert pair.1 row).size ≤ start.size + 1 := length_insertSorted_le
      have hsound : (start.insert pair.1 row).Sound keyCount (start.insert pair.1 row).size :=
        ⟨ordered_insertSorted hstart.ordered, Nat.le_refl _, hstart.proper_insert hpair⟩
      obtain ⟨hordered, hle, hall⟩ := ih _ t hrest hsound hok
      refine ⟨hordered, ?_, hall⟩
      rw [List.length_cons]
      omega
  have hproper : ∀ pair ∈ state.keys.tuples.zipIdx, Proper keyCount pair.1 := fun pair hpair =>
    hkeys.proper pair.1 (List.fst_mem_of_mem_zipIdx hpair)
  obtain ⟨hordered, hle, hall⟩ := hfold _ (fun table pair next hnext => by
    obtain ⟨row, -, hinsert⟩ := Except.bind_eq_ok.1 hnext
    exact ⟨row, (Except.ok.inj hinsert).symm⟩) _ _ t hproper sound_empty h
  refine ⟨hordered, hle.trans ?_, hall⟩
  have := hkeys.count_le
  rw [List.length_zipIdx]
  show 0 + state.keys.count ≤ limit
  omega

/-! ## The whole run -/

section

variable {segment : Segment} {groupBy : List String} {functions : List AggregateFunction}
variable {options : Options}

/-- The state that a run's scan starts from. -/
def initialState (functions : List AggregateFunction) (options : Options) : State where
  keys := .new options.numGroupsLimit
  holders := functions.map (·.groupHolder (min options.maxInitialCapacity options.numGroupsLimit)
    options.numGroupsLimit)

/-- **A run that goes through** has a schema, a scan and a table. -/
theorem scan_of_run {r : PartialResult}
    (h : (run segment groupBy functions options).value = .ok r) :
    ∃ multiValue source state t, schema segment groupBy functions = .ok (r.schema, multiValue) ∧
      segment.scan (Aggregation.fetchedColumns groupBy functions) options.nullHandling =
        .ok source ∧
      (scanPulls (step (Aggregation.fetchedColumns groupBy functions) groupBy.length multiValue
        functions) (initialState functions options) source.pulls).outcome = .ok state ∧
      table functions state = .ok t ∧ r.rows = .groupBy t ∧
      r.stats.groupsLimitReached = state.keys.limitReached ∧ r.exceptions = [] := by
  unfold run at h
  split at h
  · exact nomatch h
  · rename_i output multiValue hschema
    obtain ⟨scanned, hscan, h⟩ := Except.bind_eq_ok.1 h
    obtain ⟨t, htable, h⟩ := Except.bind_eq_ok.1 h
    obtain rfl := Except.ok.inj h
    cases hsource : segment.scan (Aggregation.fetchedColumns groupBy functions)
        options.nullHandling with
    | error e =>
      rw [hsource] at hscan
      exact nomatch hscan
    | ok source =>
      rw [hsource] at hscan
      obtain ⟨state, houtcome, rfl⟩ := Except.map_eq_ok.1 hscan
      exact ⟨multiValue, source, state, t, hschema, rfl, houtcome, htable, rfl, rfl, rfl⟩

/-- **A schema, a scan and a table** make a run that goes through. -/
theorem run_of_scan {output : Schema} {multiValue : Bool} {source : BlockSource} {state : State}
    {t : GroupTable} (hschema : schema segment groupBy functions = .ok (output, multiValue))
    (hsource : segment.scan (Aggregation.fetchedColumns groupBy functions) options.nullHandling =
      .ok source)
    (houtcome : (scanPulls (step (Aggregation.fetchedColumns groupBy functions) groupBy.length
      multiValue functions) (initialState functions options) source.pulls).outcome = .ok state)
    (htable : table functions state = .ok t) :
    ∃ r, (run segment groupBy functions options).value = .ok r ∧ r.schema = output ∧
      r.rows = .groupBy t := by
  obtain ⟨documents, hvalue⟩ := scanWith_value .groupBy houtcome
  rw [initialState] at hvalue
  refine ⟨⟨output, .groupBy t, stats segment ⟨state, documents, source⟩, []⟩, ?_, rfl, rfl⟩
  unfold run
  rw [hschema]
  simp only [hsource, Traced.map, hvalue, bind, Except.bind, pure, Except.pure]
  rw [htable]

/-- **A grouping yields a sound table.** -/
theorem sound_run {r : PartialResult}
    (h : (run segment groupBy functions options).value = .ok r) :
    ∃ t, r.rows = .groupBy t ∧ t.Sound groupBy.length options.numGroupsLimit := by
  obtain ⟨multiValue, source, state, t, hschema, -, houtcome, htable, hrows, -, -⟩ := scan_of_run h
  refine ⟨t, hrows, sound_table ?_ htable⟩
  refine scanPulls_preserves (P := fun state : State =>
    state.keys.Sound groupBy.length options.numGroupsLimit) ?_ GroupKeys.sound_new houtcome
  intro state block visit hstate hvisit
  unfold step at hvisit
  cases hblock : groupBlock groupBy.length multiValue state.keys block with
  | error e =>
    rw [hblock] at hvisit
    exact nomatch hvisit
  | ok numbered =>
    obtain ⟨groups, covered, keys⟩ := numbered
    rw [hblock] at hvisit
    obtain ⟨outcome, -, hvisit⟩ := Except.bind_eq_ok.1 hvisit
    obtain ⟨holders, -, hvisit⟩ := Except.bind_eq_ok.1 hvisit
    obtain rfl := Except.ok.inj hvisit
    exact sound_groupBlock (length_of_multiValue hschema) hstate hblock

/-! ## Room for the holders -/

/-- Where the holders have room, asking for it changes nothing. -/
theorem attempt_eq_run (h : Allocatable functions options) :
    attempt segment groupBy functions options = run segment groupBy functions options := by
  unfold attempt
  split
  · rename_i e hschema
    rw [run, hschema]
  · exact if_pos h

/-- An attempt that goes through is a run whose holders had room. -/
theorem of_attempt {r : PartialResult}
    (h : (attempt segment groupBy functions options).value = .ok r) :
    Allocatable functions options ∧ (run segment groupBy functions options).value = .ok r := by
  by_cases hroom : Allocatable functions options
  · exact ⟨hroom, attempt_eq_run hroom ▸ h⟩
  · unfold attempt at h
    split at h
    · exact nomatch h
    · rw [if_neg hroom] at h
      exact nomatch h

/-- An attempt fails as the run does, or for want of room. -/
theorem error_of_attempt {e : QueryError}
    (h : (attempt segment groupBy functions options).value = .error e) :
    (run segment groupBy functions options).value = .error e ∨
      e = .allocation .aggregate (holderBytes options) := by
  by_cases hroom : Allocatable functions options
  · exact .inl (attempt_eq_run hroom ▸ h)
  · unfold attempt at h
    split at h
    · rename_i hschema
      rw [run, hschema]
      exact .inl h
    · rw [if_neg hroom] at h
      exact .inr (Except.error.inj h).symm

/-- **Where the holders have no room** the program ends, once the columns are
known. -/
theorem attempt_of_full {described : Schema × Bool}
    (hschema : schema segment groupBy functions = .ok described)
    (hfull : ¬ Allocatable functions options) :
    (attempt segment groupBy functions options).value =
      .error (.allocation .aggregate (holderBytes options)) := by
  rw [attempt, hschema]
  exact congrArg Traced.value (if_neg hfull)

end

end GroupBy

end SegmentQuery
