import SegmentQuery.Proofs.Broker.Interchange
import SegmentQuery.Proofs.Operator.Numbering
import SegmentQuery.Proofs.Order.Rows
/-!
# Whose value an aggregate's cell shows

The broker merges aggregates place by place: the value in a place is the
function's own, made of the values that the tables have in that place.
What is shown is looked up by the name of the result column, and a name
stands for the first column that bears it. A cell therefore shows its own
function's value where no column before it bears the function's name, and
otherwise the value of the first column that does.
-/


namespace SegmentQuery

variable {functions : List AggregateFunction}

/-- What a function makes of the values of several results: the first one
with the others merged into it in order, made final. -/
def AggregateFunction.Concludes (f : AggregateFunction) (values : List Cell) (final : Cell) : Prop :=
  ∃ first rest merged, values = first :: rest ∧ rest.foldlM f.merge first = .ok merged ∧
    f.finalize merged = .ok final

namespace Broker

/-! ## Place by place -/

/-- A row that some rows, at least one, merge to. -/
def Merges (functions : List AggregateFunction) (rows : List Row) (row : Row) : Prop :=
  ∃ first rest, rows = first :: rest ∧ rest.foldlM (mergeRow functions) first = .ok row

/-- **What is made final of merged rows is, place by place, each
function's own value.** -/
theorem concludes_of_merges {rows : List Row} {row finals : Row}
    (hrows : ∀ r ∈ rows, r.length = functions.length) (hmerges : Merges functions rows row)
    (hfinals : finalizeRow functions row = .ok finals) :
    finals.length = functions.length ∧
      ∀ (j : Nat) f, functions[j]? = some f → ∃ final, finals[j]? = some final ∧
        f.Concludes (rows.filterMap (·[j]?)) final := by
  obtain ⟨first, rest, rfl, hfold⟩ := hmerges
  obtain ⟨hfirst, hrest⟩ := List.forall_mem_cons.1 hrows
  obtain ⟨hrow, hmerged⟩ := getElem?_foldlM_mergeRow hfirst hrest hfold
  obtain ⟨hlength, hplaces⟩ := getElem?_finalizeRow hrow hfinals
  refine ⟨hlength, fun j f hf => ?_⟩
  obtain ⟨l, v, hl, hv, hfold⟩ := hmerged j f hf
  obtain ⟨v', final, hv', hfinal, hfinalize⟩ := hplaces j f hf
  obtain rfl := Option.some.inj (hv.symm.trans hv')
  refine ⟨final, hfinal, l, _, v, ?_, hfold, hfinalize⟩
  rw [List.filterMap_cons, hl]

/-- One more row is merged at the end. -/
theorem Merges.append_singleton {rows : List Row} {current other row : Row}
    (h : Merges functions rows current) (hrow : mergeRow functions current other = .ok row) :
    Merges functions (rows ++ [other]) row := by
  obtain ⟨first, rest, rfl, hfold⟩ := h
  refine ⟨first, rest ++ [other], rfl, ?_⟩
  rw [List.foldlM_append, hfold]
  show (mergeRow functions current other >>= fun row => .ok row) = _
  rw [hrow]
  rfl

theorem Merges.length_eq {rows : List Row} {row : Row} (h : Merges functions rows row)
    (hrows : ∀ r ∈ rows, r.length = functions.length) : row.length = functions.length := by
  obtain ⟨first, rest, rfl, hfold⟩ := h
  obtain ⟨hfirst, hrest⟩ := List.forall_mem_cons.1 hrows
  exact (getElem?_foldlM_mergeRow hfirst hrest hfold).1

/-! ## The rows of a group -/

variable {q : Query}

/-- The tuple that a row of a group table is for. -/
def keyTuple (q : Query) (row : Row) : List Key := (row.take q.groupBy.length).map Cell.key

/-- The rows of one tuple. -/
def rowsOfTuple (q : Query) (rows : List Row) (tuple : List Key) : List Row :=
  rows.filter fun row => Key.sameTuple tuple (keyTuple q row)

theorem rowsOfTuple_append (rows more : List Row) (tuple : List Key) :
    rowsOfTuple q (rows ++ more) tuple = rowsOfTuple q rows tuple ++ rowsOfTuple q more tuple :=
  List.filter_append ..

/-- Tuples that are one have the same rows. -/
theorem rowsOfTuple_congr {tuple other : List Key} (h : Key.sameTuple tuple other)
    (rows : List Row) : rowsOfTuple q rows tuple = rowsOfTuple q rows other :=
  List.filter_congr fun _ _ => Key.sameTuple_congr h _

theorem rowsOfTuple_singleton_of_same {row : Row} {tuple : List Key}
    (h : Key.sameTuple tuple (keyTuple q row)) : rowsOfTuple q [row] tuple = [row] :=
  List.filter_cons_of_pos h

theorem rowsOfTuple_singleton_of_ne {row : Row} {tuple : List Key}
    (h : ¬ Key.sameTuple tuple (keyTuple q row)) : rowsOfTuple q [row] tuple = [] :=
  List.filter_cons_of_neg h

/-- A table in which each group is made of the rows of its tuple, among
some rows that have all been taken in: none of them is missing, unless the
table is full. -/
structure Gathers (q : Query) (rows : List Row) (table : GroupTable) : Prop where
  ordered : GroupTable.Ordered table.groups
  named : ∀ g ∈ table.groups, ∃ row ∈ rows, g.1 = keyTuple q row
  merges : ∀ g ∈ table.groups,
    Merges q.functions ((rowsOfTuple q rows g.1).map (·.drop q.groupBy.length)) g.2
  covers : table.size < q.options.numGroupsLimit → ∀ row ∈ rows, (table.find? (keyTuple q row)).isSome

theorem gathers_empty : Gathers q [] .empty where
  ordered := .nil
  named := by simp [GroupTable.empty]
  merges := by simp [GroupTable.empty]
  covers := by simp

variable {rows : List Row} {table table' : GroupTable} {row : Row}

/-- A group put in its place that is made of the rows of its tuple, the
last row among them, leaves the others as they were. -/
theorem Gathers.insert (h : Gathers q rows table) {aggregates : Row}
    (hmerges : Merges q.functions
      ((rowsOfTuple q (rows ++ [row]) (keyTuple q row)).map (·.drop q.groupBy.length)) aggregates)
    (hcovers : (table.insert (keyTuple q row) aggregates).size < q.options.numGroupsLimit →
      ∀ r ∈ rows, (table.find? (keyTuple q r)).isSome) :
    Gathers q (rows ++ [row]) (table.insert (keyTuple q row) aggregates) := by
  refine ⟨GroupTable.ordered_insertSorted h.ordered, fun g hg => ?_, fun g hg => ?_, ?_⟩
  · rcases GroupTable.fst_of_mem_insertSorted hg with heq | ⟨g', hg', heq⟩
    · exact ⟨row, by simp, heq⟩
    · obtain ⟨r, hr, hname⟩ := h.named g' hg'
      exact ⟨r, List.mem_append_left _ hr, heq ▸ hname⟩
  · rcases GroupTable.of_mem_insertSorted h.ordered hg with ⟨hmem, hne⟩ | ⟨hrow, hsame, -⟩
    · -- a group of another tuple
      rw [rowsOfTuple_append, rowsOfTuple_singleton_of_ne (mt Key.sameTuple_iff.1 hne),
        List.append_nil]
      exact h.merges g hmem
    · rw [rowsOfTuple_congr (Key.sameTuple_iff.2 hsame), hrow]
      exact hmerges
  · intro hroom r hr
    rw [GroupTable.isSome_find?_insert]
    rcases List.mem_append.1 hr with hmem | hmem
    · exact .inr (hcovers hroom r hmem)
    · obtain rfl := List.mem_singleton.1 hmem
      exact .inl (Key.sameTuple_iff.1 (Key.sameTuple_refl _))

/-- A row of a tuple that the table has is merged into its group. -/
theorem Gathers.insert_found (h : Gathers q rows table) {current merged : Row}
    (hfind : table.find? (keyTuple q row) = some current)
    (hmerged : mergeRow q.functions current (row.drop q.groupBy.length) = .ok merged) :
    Gathers q (rows ++ [row]) (table.insert (keyTuple q row) merged) := by
  obtain ⟨own, hown, htie, rfl⟩ := GroupTable.exists_of_find? hfind
  have hsize : (table.insert (keyTuple q row) merged).size = table.size :=
    GroupTable.length_insertSorted_of_mem h.ordered ⟨own, hown, htie⟩
  refine h.insert ?_ fun hroom => h.covers (hsize ▸ hroom)
  rw [rowsOfTuple_append, rowsOfTuple_singleton_of_same (Key.sameTuple_refl _), List.map_append,
    ← rowsOfTuple_congr (Key.sameTuple_iff.2 htie)]
  exact (h.merges own hown).append_singleton hmerged

/-- A row of a new tuple starts a group, for which there was no row
before. -/
theorem Gathers.insert_new (h : Gathers q rows table)
    (hfind : table.find? (keyTuple q row) = none) (hroom : table.size < q.options.numGroupsLimit) :
    Gathers q (rows ++ [row]) (table.insert (keyTuple q row) (row.drop q.groupBy.length)) := by
  have hnone : rowsOfTuple q rows (keyTuple q row) = [] := by
    refine List.filter_eq_nil_iff.2 fun r hr hsame => ?_
    obtain ⟨g, hg, htie⟩ := GroupTable.isSome_find?_iff.1 (h.covers hroom r hr)
    exact GroupTable.find?_eq_none.1 hfind g hg (Key.sameTuple_iff.1
      (Key.sameTuple_trans (Key.sameTuple_iff.2 htie) (Key.sameTuple_symm hsame)))
  refine h.insert ?_ fun _ => h.covers hroom
  rw [rowsOfTuple_append, hnone, rowsOfTuple_singleton_of_same (Key.sameTuple_refl _)]
  exact ⟨_, [], rfl, rfl⟩

/-- A row of a new tuple changes nothing once the table is full. -/
theorem Gathers.skip (h : Gathers q rows table) (hfind : table.find? (keyTuple q row) = none)
    (hfull : ¬ table.size < q.options.numGroupsLimit) : Gathers q (rows ++ [row]) table where
  ordered := h.ordered
  named g hg := by
    obtain ⟨row', hrow', hname⟩ := h.named g hg
    exact ⟨row', List.mem_append_left _ hrow', hname⟩
  merges g hg := by
    have hne : ¬ Key.sameTuple g.1 (keyTuple q row) :=
      mt Key.sameTuple_iff.1 (GroupTable.find?_eq_none.1 hfind g hg)
    rw [rowsOfTuple_append, rowsOfTuple_singleton_of_ne hne, List.append_nil]
    exact h.merges g hg
  covers hroom := absurd hroom hfull

/-- **Taking in one row** keeps each group made of the rows of its
tuple. -/
theorem Gathers.addGroup (h : Gathers q rows table)
    (hwidth : ∀ r ∈ rows ++ [row], r.length = q.groupBy.length + q.functions.length)
    (hadd : addGroup q table row = .ok table') : Gathers q (rows ++ [row]) table' := by
  have hdrop : ∀ r ∈ rows ++ [row], (r.drop q.groupBy.length).length = q.functions.length := by
    intro r hr
    rw [List.length_drop, hwidth r hr]
    omega
  unfold Broker.addGroup at hadd
  dsimp only at hadd
  split at hadd
  · rename_i current hfind
    obtain ⟨merged, honto, hpure⟩ := Except.bind_eq_ok.1 hadd
    obtain rfl := Except.ok.inj hpure
    obtain ⟨own, hown, -, rfl⟩ := GroupTable.exists_of_find? hfind
    have hcurrent : own.2.length = q.functions.length := by
      refine (h.merges own hown).length_eq fun r hr => ?_
      obtain ⟨r', hr', rfl⟩ := List.mem_map.1 hr
      exact hdrop r' (List.mem_append_left _ (List.mem_of_mem_filter hr'))
    rw [mergeOnto_eq_mergeRow hcurrent (hdrop row (by simp))] at honto
    exact h.insert_found hfind honto
  · rename_i hfind
    obtain rfl := Except.ok.inj hadd
    split
    · rename_i hroom
      exact h.insert_new hfind hroom
    · rename_i hfull
      exact h.skip hfind hfull

/-- **The groups that the broker merges** are each made of the rows of
their tuple, in table order. -/
theorem gathers_mergedGroups {tables : List DataTable} (hwidth : ∀ r ∈ allRows tables,
      r.length = q.groupBy.length + q.functions.length)
    (h : mergedGroups q tables = .ok table) : Gathers q (allRows tables) table := by
  have key {seen rest : List Row} {start : GroupTable} (hseen : Gathers q seen start)
      (hwidth : ∀ r ∈ seen ++ rest, r.length = q.groupBy.length + q.functions.length)
      (hfold : rest.foldlM (Broker.addGroup q) start = .ok table) :
      Gathers q (seen ++ rest) table := by
    induction rest generalizing seen start with
    | nil =>
      obtain rfl := Except.ok.inj hfold
      rwa [List.append_nil]
    | cons row rest ih =>
      obtain ⟨next, hnext, hrest⟩ := Except.bind_eq_ok.1 hfold
      rw [List.append_cons] at hwidth ⊢
      exact ih (hseen.addGroup (fun r hr => hwidth r (List.mem_append_left _ hr)) hnext) hwidth hrest
  exact key gathers_empty hwidth h

/-- **What is made final of a group** is, place by place, what the functions
conclude from the rows of its tuple. -/
theorem Gathers.concludes (h : Gathers q rows table)
    (hwidth : ∀ r ∈ rows, r.length = q.groupBy.length + q.functions.length)
    {g : List Key × Row} (hg : g ∈ table.groups) {finals : Row}
    (hfinals : finalizeRow q.functions g.2 = .ok finals) :
    g.1.length = q.groupBy.length ∧ keyTuple q (g.1.map Key.cell ++ finals) = g.1 ∧
      finals.length = q.functions.length ∧
      ∀ (j : Nat) f, q.functions[j]? = some f → ∃ final, finals[j]? = some final ∧
        f.Concludes ((rowsOfTuple q rows g.1).filterMap (·[q.groupBy.length + j]?)) final := by
  obtain ⟨r, hr, hname⟩ := h.named g hg
  have hproper : GroupTable.Proper q.groupBy.length g.1 := by
    rw [hname]
    refine ⟨?_, ?_⟩
    · rw [keyTuple, List.length_map, List.length_take, hwidth r hr]
      omega
    · intro key hkey
      obtain ⟨cell, -, rfl⟩ := List.mem_map.1 hkey
      exact Cell.key_cell_key cell
  have hdrop : ∀ r ∈ (rowsOfTuple q rows g.1).map (·.drop q.groupBy.length),
      r.length = q.functions.length := by
    intro r hr
    obtain ⟨r', hr', rfl⟩ := List.mem_map.1 hr
    rw [List.length_drop, hwidth r' (List.mem_of_mem_filter hr')]
    omega
  obtain ⟨hlength, hown⟩ := concludes_of_merges hdrop (h.merges g hg) hfinals
  refine ⟨hproper.1, GroupTable.key_take_rowOf (g := (g.1, finals)) hproper, hlength, ?_⟩
  intro j f hf
  obtain ⟨final, hfinal, hconcludes⟩ := hown j f hf
  refine ⟨final, hfinal, ?_⟩
  rw [List.filterMap_map] at hconcludes
  simpa only [Function.comp_def, List.getElem?_drop] using hconcludes

/-! ## Rendering by name -/

/-- A column looked up by name is the first that bears it. -/
theorem of_locate {schema : Schema} {name : String} {p : Nat} {column : ResultColumn}
    (h : ResultTable.locate schema name = .ok (p, column)) :
    schema.indexOf? name = some p ∧ schema.columns[p]? = some column := by
  unfold ResultTable.locate at h
  split at h
  · exact nomatch h
  · rename_i index hindex
    split at h
    · rename_i bearer hbearer
      obtain ⟨rfl, rfl⟩ := Prod.mk.inj (Except.ok.inj h)
      exact ⟨hindex, hbearer⟩
    · exact nomatch h

/-- **A shown row is rendered name by name**: each place shows the cell of
the first column that bears the place's name. -/
theorem getElem?_of_render {schema : Schema} {rows : List Row} {shown : ResultTable}
    (h : ResultTable.render schema rows schema.names = .ok shown) {row : Row}
    (hrow : row ∈ shown.rows) :
    ∃ full ∈ rows, ∀ (i : Nat) column, schema.columns[i]? = some column →
      ∃ p bearer cell, schema.indexOf? column.name = some p ∧ schema.columns[p]? = some bearer ∧
        bearer.type.render (full[p]?.getD .null) = .ok cell ∧ row[i]? = some cell := by
  obtain ⟨columns, hcolumns, hrest⟩ := Except.bind_eq_ok.1 h
  obtain ⟨rendered, hrendered, hpure⟩ := Except.bind_eq_ok.1 hrest
  obtain rfl := Except.ok.inj hpure
  obtain ⟨full, hfull, hcells⟩ := exists_of_mem_right (Except.mapM_eq_ok.1 hrendered) hrow
  refine ⟨full, hfull, fun i column hcolumn => ?_⟩
  have hname : schema.names[i]? = some column.name := by
    rw [Schema.names, List.getElem?_map, hcolumn]
    rfl
  obtain ⟨⟨p, bearer⟩, hplace, hlocate⟩ := getElem?_of_forall₂ (Except.mapM_eq_ok.1 hcolumns) hname
  obtain ⟨cell, hcell, hshown⟩ := getElem?_of_forall₂ (Except.mapM_eq_ok.1 hcells) hplace
  obtain ⟨hindex, hbearer⟩ := of_locate hlocate
  exact ⟨p, bearer, cell, hindex, hbearer, hshown, hcell⟩

/-! ## Answers -/

/-- The number of key columns in front of the aggregates. -/
def keyCount (q : Query) : Nat :=
  match q.kind with
  | .groupBy => q.groupBy.length
  | _ => 0

/-- The columns of the answer: the keys' of the first table that has
columns, and the functions'. -/
def outputSchema (q : Query) (tables : List DataTable) : Schema :=
  let first := (tables.find? fun t => !t.schema.isEmpty).map DataTable.schema
  ⟨(first.getD .empty).columns.take (keyCount q) ++ finalColumns q.functions⟩

/-- The rows that are merged into a row of the answer: the tables' first
rows, or the rows of its group. -/
def contributors (q : Query) (tables : List DataTable) (full : Row) : List Row :=
  let columned := tables.filter fun t => !t.schema.isEmpty
  match q.kind with
  | .groupBy => rowsOfTuple q (allRows columned) (keyTuple q full)
  | _ => columned.filterMap (·.row? 0)

/-- A place of a row as it is shown, by the name of its column: it shows the
cell that the row has in the first column of that name. -/
structure ShowsAt (output : Schema) (full row : Row) (place : Nat) (name : String) (p : Nat)
    (column : ResultColumn) (value : Cell) : Prop where
  indexOf?_eq : output.indexOf? name = some p
  le : p ≤ place
  column_eq : output.columns[p]? = some column
  value_eq : full[p]? = some value
  rendered : ∃ cell, column.type.render value = .ok cell ∧ row[place]? = some cell

/-- A row of the answer as it is shown. -/
structure ShowsByName (q : Query) (output : Schema) (merged : List Row) (full row : Row) :
    Prop where
  /-- A key's place shows the group's key in the first column of its name. -/
  keys : ∀ i < keyCount q, ∀ named, output.columns[i]? = some named →
    ∃ p column value, ShowsAt output full row i named.name p column value
  /-- A function's place shows the value of the first column that bears the
  function's name. Where that column is a function's the value is that
  function's own: what it concludes from the values in its place. -/
  aggregates : ∀ (j : Nat) f, q.functions[j]? = some f → ∃ p column value,
    ShowsAt output full row (keyCount q + j) f.resultColumn p column value ∧
    ∀ (i : Nat) g, q.functions[i]? = some g → p = keyCount q + i →
      column = ⟨g.resultColumn, g.finalType, .metric⟩ ∧
      g.Concludes (merged.filterMap (·[p]?)) value

/-- A place whose cell was rendered by name shows it. -/
theorem showsAt_of_render {output : Schema} {full : Row} {place : Nat} {named : ResultColumn}
    (hlength : full.length = output.columns.length) (hnamed : output.columns[place]? = some named)
    (hcell : ∃ p bearer cell, output.indexOf? named.name = some p ∧
      output.columns[p]? = some bearer ∧ bearer.type.render (full[p]?.getD .null) = .ok cell ∧
      row[place]? = some cell) :
    ∃ p column value, ShowsAt output full row place named.name p column value := by
  obtain ⟨p, column, cell, hindex, hcolumn, hcell, hshown⟩ := hcell
  have hlt : p < full.length := hlength ▸ (List.getElem?_eq_some_iff.1 hcolumn).1
  rw [List.getElem?_eq_getElem hlt] at hcell
  refine ⟨p, column, full[p], hindex, ?_, hcolumn, List.getElem?_eq_getElem hlt, cell, hcell,
    hshown⟩
  refine Nat.le_of_not_lt fun hgt => ?_
  have hfirst := (List.findIdx?_eq_some_iff_getElem.1 hindex).2.2 place hgt
  obtain ⟨hplace, hname⟩ := List.getElem?_eq_some_iff.1 hnamed
  exact hfirst (by simp only [hname, beq_self_eq_true])

/-- Key cells followed by each function's own value are shown by name. -/
theorem showsByName_of_render {keyColumns : List ResultColumn} {keys finals : Row}
    {merged : List Row} (hcolumns : keyColumns.length = keyCount q)
    (hkeys : keys.length = keyCount q) (hfinals : finals.length = q.functions.length)
    (hown : ∀ (j : Nat) f, q.functions[j]? = some f → ∃ final, finals[j]? = some final ∧
      f.Concludes (merged.filterMap (·[keyCount q + j]?)) final)
    (hcells : ∀ (i : Nat) column, (keyColumns ++ finalColumns q.functions)[i]? = some column →
      ∃ p bearer cell, Schema.indexOf? ⟨keyColumns ++ finalColumns q.functions⟩ column.name = some p ∧
        (keyColumns ++ finalColumns q.functions)[p]? = some bearer ∧
        bearer.type.render ((keys ++ finals)[p]?.getD .null) = .ok cell ∧ row[i]? = some cell) :
    ShowsByName q ⟨keyColumns ++ finalColumns q.functions⟩ merged (keys ++ finals) row := by
  have hfinal (i : Nat) (g : AggregateFunction) (hg : q.functions[i]? = some g) :
      (keyColumns ++ finalColumns q.functions)[keyCount q + i]? =
        some ⟨g.resultColumn, g.finalType, .metric⟩ := by
    rw [List.getElem?_append_right (by omega), hcolumns, Nat.add_sub_cancel_left, finalColumns,
      List.getElem?_map, hg]
    rfl
  have hlength : (keys ++ finals).length = (keyColumns ++ finalColumns q.functions).length := by
    rw [List.length_append, List.length_append, hkeys, hcolumns, hfinals, finalColumns,
      List.length_map]
  refine ⟨fun i _ named hnamed => showsAt_of_render hlength hnamed (hcells i named hnamed),
    fun j f hf => ?_⟩
  obtain ⟨p, column, value, hshows⟩ :=
    showsAt_of_render hlength (hfinal j f hf) (hcells _ _ (hfinal j f hf))
  refine ⟨p, column, value, hshows, fun i g hg hp => ?_⟩
  subst hp
  obtain ⟨final, hvalue, hconcludes⟩ := hown i g hg
  have hplace : (keys ++ finals)[keyCount q + i]? = some final := by
    rw [List.getElem?_append_right (by omega), hkeys, Nat.add_sub_cancel_left, hvalue]
  obtain rfl := Option.some.inj (hshows.value_eq.symm.trans hplace)
  exact ⟨Option.some.inj (hshows.column_eq.symm.trans (hfinal i g hg)), hconcludes⟩

variable {tables : List DataTable} {shown : ResultTable}

/-- The row of an aggregation shows what the tables' first rows make. -/
theorem showsByName_of_reduceAggregation (hkind : q.kind = .aggregation)
    (hwidth : ∀ t ∈ tables, ∀ r ∈ t.allRows, r.length = q.functions.length)
    (h : reduceAggregation q tables = .ok shown) (hrow : row ∈ shown.rows) :
    ∃ full, ShowsByName q ⟨finalColumns q.functions⟩ (tables.filterMap (·.row? 0)) full row := by
  have hcount : keyCount q = 0 := by rw [keyCount, hkind]
  have hrows : ∀ r ∈ tables.filterMap (·.row? 0), r.length = q.functions.length := by
    intro r hr
    obtain ⟨t, ht, hfirst⟩ := List.mem_filterMap.1 hr
    rw [row?_zero] at hfirst
    exact hwidth t ht r (List.mem_of_mem_head? hfirst)
  unfold reduceAggregation at h
  dsimp only at h
  cases hfirsts : tables.filterMap (·.row? 0) with
  | nil =>
    rw [hfirsts] at h
    obtain rfl := Except.ok.inj h
    exact absurd hrow List.not_mem_nil
  | cons first rest =>
    rw [hfirsts] at h hrows
    obtain ⟨merged, hmerged, hrest⟩ := Except.bind_eq_ok.1 h
    obtain ⟨finals, hfinals, hrender⟩ := Except.bind_eq_ok.1 hrest
    obtain ⟨hlength, hown⟩ := concludes_of_merges hrows ⟨first, rest, rfl, hmerged⟩ hfinals
    obtain ⟨full, hfull, hcells⟩ := getElem?_of_render hrender hrow
    obtain rfl := List.mem_singleton.1 hfull
    refine ⟨full, @showsByName_of_render q row [] [] full _ hcount.symm hcount.symm hlength ?_ hcells⟩
    simpa only [hcount, Nat.zero_add] using hown

/-- The row of a group shows what the rows of its tuple make. -/
theorem showsByName_of_reduceGroupBy (hkind : q.kind = .groupBy) {schema : Schema}
    (hschema : schema.width = q.groupBy.length + q.functions.length)
    (hwidth : ∀ r ∈ allRows tables, r.length = q.groupBy.length + q.functions.length)
    (h : reduceGroupBy q schema tables = .ok shown) (hrow : row ∈ shown.rows) :
    ∃ full, ShowsByName q ⟨schema.columns.take q.groupBy.length ++ finalColumns q.functions⟩
      (rowsOfTuple q (allRows tables) (keyTuple q full)) full row := by
  have hcount : keyCount q = q.groupBy.length := by rw [keyCount, hkind]
  have hcolumns : (schema.columns.take q.groupBy.length).length = keyCount q := by
    rw [List.length_take, hcount, Nat.min_eq_left]
    exact Nat.le_trans (Nat.le_add_right _ _) hschema.ge
  obtain ⟨groups, hgroups, hrest⟩ := Except.bind_eq_ok.1 h
  obtain ⟨rows, hrows, hsorts⟩ := Except.bind_eq_ok.1 hrest
  have hgathers := gathers_mergedGroups hwidth hgroups
  -- ordering and paging leave rows of the groups
  obtain ⟨sorted, hsorted, hrender⟩ : ∃ sorted : List Row, (∀ r ∈ sorted, r ∈ rows) ∧ ResultTable.render
      ⟨schema.columns.take q.groupBy.length ++ finalColumns q.functions⟩
      ((sorted.drop q.options.offset).take q.options.limit)
      (Schema.names ⟨schema.columns.take q.groupBy.length ++ finalColumns q.functions⟩) =
        .ok shown := by
    dsimp only at hsorts
    split at hsorts
    · exact ⟨rows, fun _ hr => hr, hsorts⟩
    · obtain ⟨sorted, hsort, hrender⟩ := Except.bind_eq_ok.1 hsorts
      obtain ⟨order, -, rfl⟩ := Except.map_eq_ok.1 hsort
      exact ⟨_, fun r hr => (order.sort_perm rows).mem_iff.1 hr, hrender⟩
  obtain ⟨full, hfull, hcells⟩ := getElem?_of_render hrender hrow
  have hmem : full ∈ rows := hsorted full (List.mem_of_mem_drop (List.mem_of_mem_take hfull))
  obtain ⟨g, hg, hgroup⟩ := exists_of_mem_right (Except.mapM_eq_ok.1 hrows) hmem
  obtain ⟨finals, hfinals, hpure⟩ := Except.bind_eq_ok.1 hgroup
  obtain rfl := Except.ok.inj hpure
  obtain ⟨hkeys, htuple, hlength, hown⟩ := hgathers.concludes hwidth hg hfinals
  refine ⟨_, showsByName_of_render hcolumns ?_ hlength ?_ hcells⟩
  · rw [List.length_map, hkeys, hcount]
  · simpa only [htuple, hcount] using hown

/-- **Whose value a cell shows.** In an answer to an aggregation or to a
grouping, a key's cell shows a key of the row's own group, and a function's
cell the value of the first column that bears the function's name. The value
in a function's column is what that function concludes from the tables'
values in its place, for a group from the rows of its tuple. So a function's
cell shows its own value where no column before it has the same name. -/
theorem showsByName_of_resultTable
    (hkind : q.kind = .aggregation ∨ q.kind = .groupBy)
    (htables : ∀ t ∈ tables, t.schema.isEmpty = false →
      t.schema.width = keyCount q + q.functions.length ∧
      ∀ r ∈ t.allRows, r.length = t.schema.width)
    (hshown : resultTable q tables = .ok shown) :
    ∀ row ∈ shown.rows, ∃ full,
      ShowsByName q (outputSchema q tables) (contributors q tables full) full row := by
  intro row hrow
  have hcolumned : ∀ t ∈ tables.filter fun t => !t.schema.isEmpty,
      t.schema.width = keyCount q + q.functions.length ∧
      ∀ r ∈ t.allRows, r.length = t.schema.width := by
    intro t ht
    obtain ⟨hmem, hbusy⟩ := List.mem_filter.1 ht
    exact htables t hmem (by simpa using hbusy)
  have hfirst : (tables.find? fun t => !t.schema.isEmpty) =
      (tables.filter fun t => !t.schema.isEmpty).head? := List.head?_filter.symm
  simp only [outputSchema, contributors, hfirst]
  unfold resultTable at hshown
  generalize (tables.filter fun t => !t.schema.isEmpty) = columned at hcolumned hshown ⊢
  cases columned with
  | nil =>
    obtain rfl := Except.ok.inj hshown
    exact absurd hrow List.not_mem_nil
  | cons first rest =>
    unfold reduceTables at hshown
    rcases hkind with hkind | hkind
    · have hcount : keyCount q = 0 := by rw [keyCount, hkind]
      simp only [hkind] at hshown ⊢
      rw [hcount, List.take_zero, List.nil_append]
      refine showsByName_of_reduceAggregation hkind (fun t ht r hr => ?_) hshown hrow
      rw [(hcolumned t ht).2 r hr, (hcolumned t ht).1, hcount, Nat.zero_add]
    · have hcount : keyCount q = q.groupBy.length := by rw [keyCount, hkind]
      simp only [hkind] at hshown ⊢
      rw [hcount] at hcolumned ⊢
      refine showsByName_of_reduceGroupBy hkind (hcolumned first List.mem_cons_self).1
        (fun r hr => ?_) hshown hrow
      obtain ⟨t, ht, hmem⟩ := List.mem_flatMap.1 hr
      rw [(hcolumned t ht).2 r hmem, (hcolumned t ht).1]

/-- A sum of 1.25, asked for twice under one name. -/
def repeatedSum : DataTable where
  schema := ⟨[⟨"sumprecision(v)", .object, .metric⟩, ⟨"sumprecision(v)", .object, .metric⟩]⟩
  rows := [[.bigDecimal ⟨.ofCoeff 125 2, by decide, by decide⟩,
    .bigDecimal ⟨.ofCoeff 125 2, by decide, by decide⟩]]
  nulls := []
  metadata := .empty
  exceptions := []

/-- The second of two sums of one name is to be rounded to two digits, and
is shown as the first one. -/
theorem showsByName_of_resultTable_repeated :
    let rounded : AggregateFunction := .sumPrecision "v" 2 none false
    let q : Query :=
      { kind := .aggregation, functions := [.sumPrecision "v" 0 none false, rounded] }
    let row : Row := [.string "1.25", .string "1.25"]
    (∀ t ∈ [repeatedSum], t.schema.isEmpty = false →
      t.schema.width = keyCount q + q.functions.length ∧
      ∀ r ∈ t.allRows, r.length = t.schema.width) ∧
    (∃ shown full, resultTable q [repeatedSum] = .ok shown ∧ row ∈ shown.rows ∧
      ShowsByName q (outputSchema q [repeatedSum]) (contributors q [repeatedSum] full) full row) ∧
    rounded.Concludes ((repeatedSum.allRows).filterMap (·[1]?)) (.string "1.2") := by
  intro rounded q row
  have htables : ∀ t ∈ [repeatedSum], t.schema.isEmpty = false →
      t.schema.width = keyCount q + q.functions.length ∧
      ∀ r ∈ t.allRows, r.length = t.schema.width := by
    intro t ht _
    obtain rfl := List.mem_singleton.1 ht
    exact ⟨rfl, fun r hr => by obtain rfl := List.mem_singleton.1 hr; rfl⟩
  have hshown : resultTable q [repeatedSum] = .ok
      ⟨⟨[⟨"sumprecision(v)", .string, .metric⟩, ⟨"sumprecision(v)", .string, .metric⟩]⟩, [row]⟩ := by
    rfl
  obtain ⟨full, hfull⟩ := showsByName_of_resultTable (.inl rfl) htables hshown row
    (List.mem_singleton_self row)
  exact ⟨htables, ⟨_, full, hshown, List.mem_singleton_self row, hfull⟩,
    ⟨_, [], _, rfl, rfl, rfl⟩⟩

end Broker

end SegmentQuery
