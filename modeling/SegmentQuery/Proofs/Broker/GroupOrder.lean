import SegmentQuery.Proofs.Broker.Groupings
import SegmentQuery.Proofs.Broker.ShownCells
import SegmentQuery.Proofs.Order.Directions
import SegmentQuery.Proofs.Result.Fits
/-!
# The order of groups

Groups are put in order after their aggregates have become final, and by
the cells that they have become. The final value of a count is a long and
that of an extremum or a sum a double, so groups are in the order of these
numbers; the final value of a decimal sum is its text, and groups are in
the order of the texts. Cells that a table brings along are not converted
before they are compared: a function's values may be of several kinds,
which keep the order of the kinds.
-/


namespace SegmentQuery

/-! ## Ties -/

/-- Rows that tie on the first keys are compared by the next one. -/
theorem RowOrder.isLE_of_ties {a b : Row} {before after : List (Nat × Direction)}
    {key : Nat × Direction} (h : (compareBy a b (before ++ key :: after)).isLE)
    (hties : ∀ k ∈ before, (cellAt a k.1).key = (cellAt b k.1).key) :
    (Cell.compareNullsLast key.2 (cellAt a key.1) (cellAt b key.1)).isLE := by
  induction before with
  | nil =>
    rcases isLE_compareBy_cons.1 h with hlt | ⟨heq, -⟩
    · rw [hlt]; rfl
    · rw [heq]; rfl
  | cons k before ih =>
    obtain ⟨htie, hties⟩ := List.forall_mem_cons.1 hties
    rcases isLE_compareBy_cons.1 h with hlt | ⟨-, hrest⟩
    · rw [Cell.compareNullsLast_eq_iff.2 htie] at hlt
      exact nomatch hlt
    · exact ih hrest hties

/-! ## Final values -/

namespace AggregateFunction

variable {f : AggregateFunction} {values : List Cell} {value final : Cell}

/-- A final value is of the function's final type, once the intermediate one
is of the intermediate type. -/
theorem admits_finalize (hvalue : f.intermediateType.Admits value)
    (h : f.finalize value = .ok final) : f.finalType.Admits final := by
  cases f with
  | sumPrecision column precision scale nullHandling =>
    unfold finalize at h
    dsimp only at h
    split at h
    · exact Except.ok.inj h ▸ ColumnType.admits_null _
    · obtain ⟨total, -, h⟩ := Except.bind_eq_ok.1 h
      obtain ⟨rounded, -, h⟩ := Except.bind_eq_ok.1 h
      obtain ⟨text, -, h⟩ := Except.bind_eq_ok.1 h
      exact Except.ok.inj h ▸ ColumnType.admits_of_kind rfl
  | _ => exact Except.ok.inj h ▸ hvalue

/-- **What a function concludes** from values of its intermediate type is of
its final type. -/
theorem Concludes.admits (h : f.Concludes values final)
    (hvalues : ∀ v ∈ values, f.intermediateType.Admits v) : f.finalType.Admits final := by
  obtain ⟨first, rest, merged, rfl, hfold, hfinal⟩ := h
  refine admits_finalize ?_ hfinal
  obtain ⟨hfirst, hrest⟩ := List.forall_mem_cons.1 hvalues
  clear hvalues hfinal
  induction rest generalizing first with
  | nil => exact Except.ok.inj hfold ▸ hfirst
  | cons v rest ih =>
    obtain ⟨hv, hrest⟩ := List.forall_mem_cons.1 hrest
    obtain ⟨next, hnext, htail⟩ := Except.bind_eq_ok.1 hfold
    exact ih next htail (admits_merge hfirst hv hnext) hrest

/-- A cell of a function's final type is shown as it is. -/
theorem render_finalType (f : AggregateFunction) (h : f.finalType.Admits final) :
    f.finalType.render final = .ok final := by
  rcases h with rfl | hkind
  · cases f <;> rfl
  · cases f <;> cases final <;> first | rfl | exact nomatch hkind _ rfl

end AggregateFunction

namespace Broker

variable {q : Query} {schema : Schema} {tables : List DataTable} {shown : ResultTable}

/-! ## Rows in order -/

/-- The final row of a group: its keys and what its aggregates have
become. -/
def IsFinalRow (q : Query) (groups : GroupTable) (full : Row) : Prop :=
  ∃ g ∈ groups.groups, ∃ finals, finalizeRow q.functions g.2 = .ok finals ∧
    full = g.1.map Key.cell ++ finals

/-- A final row and the row that is shown of it: each place shows the cell of
the first column that bears the place's name. -/
def ShownAs (output : Schema) (full row : Row) : Prop :=
  ∃ places, output.names.mapM (ResultTable.locate output) = .ok places ∧
    ResultTable.renderRow places full = .ok row

/-- The columns that ORDER BY items name see the same keys in two rows. -/
def TiedOn (output : Schema) (items : List OrderItem) (a b : Row) : Prop :=
  ∀ item ∈ items, ∀ p, output.indexOf? item.expression = some p →
    (RowOrder.cellAt a p).key = (RowOrder.cellAt b p).key

/-- Each key of the order is one item's column and direction. -/
theorem forall₂_groupOrder {items : List OrderItem} {output : Schema} {order : RowOrder}
    (h : groupOrder items output = .ok order) :
    List.Forall₂ (fun item key => output.indexOf? item.expression = some key.1 ∧
      item.direction = key.2) items order.keys := by
  obtain ⟨keys, hkeys, rfl⟩ := Except.map_eq_ok.1 h
  refine (Except.mapM_eq_ok.1 hkeys).imp fun item key hkey => ?_
  unfold groupOrder.groupKey at hkey
  split at hkey
  · rename_i index hindex
    obtain rfl := Except.ok.inj hkey
    exact ⟨hindex, rfl⟩
  · cases hkey

/-- **Sorted rows stand as each ORDER BY item asks**, where they tie on the
items before it. -/
theorem pairwise_sort {items before after : List OrderItem} {item : OrderItem} {output : Schema}
    {order : RowOrder} {p : Nat} (h : groupOrder items output = .ok order)
    (hitems : items = before ++ item :: after) (hp : output.indexOf? item.expression = some p)
    (rows : List Row) :
    (order.sort rows).Pairwise fun a b => TiedOn output before a b →
      Cell.InDirection item.direction (RowOrder.cellAt a p) (RowOrder.cellAt b p) := by
  subst hitems
  have hkeys := (forall₂_groupOrder h).flip
  have hfront := List.forall₂_take_append _ _ _ hkeys
  obtain ⟨key, back, ⟨hindex, hdirection⟩, -, hdrop⟩ :=
    List.forall₂_cons_right_iff.1 (List.forall₂_drop_append _ _ _ hkeys)
  have hsplit : order.keys = order.keys.take before.length ++ key :: back := by
    rw [← hdrop, List.take_append_drop]
  obtain rfl : p = key.1 := Option.some.inj (hp.symm.trans hindex)
  refine (order.ascending_sort rows).imp fun {a b} hle htied => ?_
  rw [RowOrder.compare, hsplit] at hle
  rw [hdirection]
  refine Cell.inDirection_of_isLE (RowOrder.isLE_of_ties hle fun k hk => ?_)
  obtain ⟨tied, hmem, hcolumn, -⟩ := exists_of_mem_right hfront.flip hk
  exact htied tied hmem k.1 hcolumn

/-- **An ordered grouping shows final rows of its groups in order.** -/
theorem exists_finalRows (h : reduceGroupBy q schema tables = .ok shown)
    {before after : List OrderItem} {item : OrderItem} (horder : q.orderBy = before ++ item :: after) {p : Nat}
    (hp : (groupSchema q schema).indexOf? item.expression = some p) :
    ∃ groups fulls, mergedGroups q tables = .ok groups ∧
      (∀ full ∈ fulls, IsFinalRow q groups full) ∧
      List.Forall₂ (ShownAs (groupSchema q schema)) fulls shown.rows ∧
      fulls.Pairwise fun a b => TiedOn (groupSchema q schema) before a b →
        Cell.InDirection item.direction (RowOrder.cellAt a p) (RowOrder.cellAt b p) := by
  obtain ⟨groups, hgroups, hrest⟩ := Except.bind_eq_ok.1 h
  obtain ⟨rows, hrows, hsorts⟩ := Except.bind_eq_ok.1 hrest
  have hitems : q.orderBy.isEmpty = false := by rw [horder]; cases before <;> rfl
  dsimp only at hsorts
  rw [hitems] at hsorts
  obtain ⟨sorted, hsort, hrender⟩ := Except.bind_eq_ok.1 hsorts
  obtain ⟨order, hkeys, rfl⟩ := Except.map_eq_ok.1 hsort
  obtain ⟨places, hplaces, hshow⟩ := Except.bind_eq_ok.1 hrender
  obtain ⟨cells, hcells, hpure⟩ := Except.bind_eq_ok.1 hshow
  obtain rfl := Except.ok.inj hpure
  -- paging takes a sublist of the sorted rows
  have hpaged := ((order.sort rows).drop q.options.offset).take_sublist q.options.limit |>.trans
    ((order.sort rows).drop_sublist q.options.offset)
  refine ⟨groups, _, hgroups, fun full hfull => ?_, ?_,
    (pairwise_sort hkeys horder hp rows).sublist hpaged⟩
  · have hmem : full ∈ rows := (order.sort_perm rows).mem_iff.1 (hpaged.subset hfull)
    obtain ⟨g, hg, hgroup⟩ := exists_of_mem_right (Except.mapM_eq_ok.1 hrows) hmem
    obtain ⟨finals, hfinals, hpure⟩ := Except.bind_eq_ok.1 hgroup
    exact ⟨g, hg, finals, hfinals, (Except.ok.inj hpure).symm⟩
  · exact (Except.mapM_eq_ok.1 hcells).imp fun full row hrow => ⟨places, hplaces, hrow⟩

/-! ## The aggregate's column -/

/-- The column of a function's final values. -/
theorem getElem?_groupSchema {j : Nat} {f : AggregateFunction} (hf : q.functions[j]? = some f) :
    (groupSchema q schema).columns[(schema.columns.take q.groupBy.length).length + j]? =
      some ⟨f.resultColumn, f.finalType, .metric⟩ := by
  rw [groupSchema, List.getElem?_append_right (by omega), Nat.add_sub_cancel_left, finalColumns,
    List.getElem?_map, hf]
  rfl

/-- A place whose name has no earlier bearer shows its own cell. -/
theorem ShownAs.getElem? {output : Schema} {full row : Row} (h : ShownAs output full row) {p : Nat}
    {column : ResultColumn} (hcolumn : output.columns[p]? = some column)
    (hp : output.indexOf? column.name = some p) :
    ∃ cell, column.type.render (RowOrder.cellAt full p) = .ok cell ∧ row[p]? = some cell := by
  obtain ⟨places, hplaces, hrow⟩ := h
  have hname : output.names[p]? = some column.name := by
    rw [Schema.names, List.getElem?_map, hcolumn]
    rfl
  obtain ⟨⟨p', bearer⟩, hplace, hlocate⟩ := getElem?_of_forall₂ (Except.mapM_eq_ok.1 hplaces) hname
  obtain ⟨hindex, hbearer⟩ := of_locate hlocate
  obtain rfl := Option.some.inj (hp.symm.trans hindex)
  obtain rfl := Option.some.inj (hcolumn.symm.trans hbearer)
  obtain ⟨cell, hcell, hshown⟩ := getElem?_of_forall₂ (Except.mapM_eq_ok.1 hrow) hplace
  exact ⟨cell, hshown, hcell⟩

/-- The name at the place that a name leads to is that name. -/
theorem name_of_indexOf? {output : Schema} {name : String} {p : Nat} {column : ResultColumn}
    (hp : output.indexOf? name = some p) (hcolumn : output.columns[p]? = some column) :
    column.name = name := by
  obtain ⟨hlt, hname, -⟩ := List.findIdx?_eq_some_iff_getElem.1 hp
  rw [List.getElem?_eq_getElem hlt] at hcolumn
  exact Option.some.inj hcolumn ▸ beq_iff_eq.1 hname

/-- The cell of a final row in a function's place is of the function's final
type, where the tables' cells in that place are of its intermediate type. -/
theorem admits_cellAt {groups : GroupTable} (hgroups : mergedGroups q tables = .ok groups) {j : Nat}
    {f : AggregateFunction} (hf : q.functions[j]? = some f)
    (hrows : ∀ r ∈ allRows tables, r.length = q.groupBy.length + q.functions.length ∧
      f.intermediateType.Admits (RowOrder.cellAt r (q.groupBy.length + j)))
    {full : Row} (hfull : IsFinalRow q groups full) :
    f.finalType.Admits (RowOrder.cellAt full (q.groupBy.length + j)) := by
  obtain ⟨g, hg, finals, hfinals, rfl⟩ := hfull
  have hwidth := fun r hr => (hrows r hr).1
  obtain ⟨hkeys, -, -, hown⟩ := (gathers_mergedGroups hwidth hgroups).concludes hwidth hg hfinals
  obtain ⟨final, hfinal, hconcludes⟩ := hown j f hf
  have hcell : RowOrder.cellAt (g.1.map Key.cell ++ finals) (q.groupBy.length + j) = final := by
    rw [RowOrder.cellAt, List.getElem?_append_right (by rw [List.length_map]; omega),
      List.length_map, hkeys, Nat.add_sub_cancel_left, hfinal]
    rfl
  rw [hcell]
  refine hconcludes.admits fun v hv => ?_
  obtain ⟨r, hr, hplace⟩ := List.mem_filterMap.1 hv
  have hcell := (hrows r (List.mem_of_mem_filter hr)).2
  rwa [RowOrder.cellAt, hplace] at hcell

/-- **Ordering groups by an aggregate.** Where an ORDER BY item leads to the
column of a function, the rows of the answer show final rows in such an
order that, of two rows that tie on the items before it, no null precedes a
value, and the function's final cells stand in the item's direction: numbers
of one kind by value, texts, as a decimal sum is one, by their code points,
and different kinds by their rank. Where the tables' cells in the
function's place are nulls or of its intermediate type, the final cells are
nulls or of its final type, and the shown cells are the final ones. -/
theorem inDirection_of_reduceGroupBy {j : Nat} {f : AggregateFunction}
    {before after : List OrderItem} {item : OrderItem} (hf : q.functions[j]? = some f)
    (horder : q.orderBy = before ++ item :: after)
    (hitem : (groupSchema q schema).indexOf? item.expression =
      some ((schema.columns.take q.groupBy.length).length + j))
    (h : reduceGroupBy q schema tables = .ok shown) :
    let p := (schema.columns.take q.groupBy.length).length + j
    ∃ groups fulls, mergedGroups q tables = .ok groups ∧
      (∀ full ∈ fulls, IsFinalRow q groups full) ∧
      List.Forall₂ (ShownAs (groupSchema q schema)) fulls shown.rows ∧
      (fulls.Pairwise fun a b => TiedOn (groupSchema q schema) before a b →
        Cell.InDirection item.direction (RowOrder.cellAt a p) (RowOrder.cellAt b p)) ∧
      (q.groupBy.length ≤ schema.width →
        (∀ r ∈ allRows tables, r.length = q.groupBy.length + q.functions.length ∧
          f.intermediateType.Admits (RowOrder.cellAt r (q.groupBy.length + j))) →
        List.Forall₂ (fun full row => f.finalType.Admits (RowOrder.cellAt full p) ∧
          row[p]? = some (RowOrder.cellAt full p)) fulls shown.rows) := by
  intro p
  obtain ⟨groups, fulls, hgroups, hfulls, hshown, hpairs⟩ := exists_finalRows h horder hitem
  refine ⟨groups, fulls, hgroups, hfulls, hshown, hpairs, fun hwidth hrows => ?_⟩
  have hp : p = q.groupBy.length + j := by
    have hkeys : (schema.columns.take q.groupBy.length).length = q.groupBy.length := by
      rw [List.length_take]
      exact Nat.min_eq_left hwidth
    simp only [p, hkeys]
  have hcolumn := @getElem?_groupSchema q schema j f hf
  have hname : f.resultColumn = item.expression := name_of_indexOf? hitem hcolumn
  refine List.forall₂_iff_get.2 ⟨hshown.length_eq, fun i hi hi' => ?_⟩
  have hadmits : f.finalType.Admits (RowOrder.cellAt (fulls.get ⟨i, hi⟩) p) := by
    rw [hp]
    exact admits_cellAt hgroups hf hrows (hfulls _ (List.get_mem _ _))
  obtain ⟨cell, hrender, hcell⟩ := (hshown.get hi hi').getElem? hcolumn (hname ▸ hitem)
  obtain rfl := Except.ok.inj ((f.render_finalType hadmits).symm.trans hrender)
  exact ⟨hadmits, hcell⟩

/-! ## Sums as texts -/

/-- Final rows that are in order already are shown as they are. -/
theorem reduceGroupBy_of_ascending {groups : GroupTable} {order : RowOrder} {rows : List Row}
    (hgroups : mergedGroups q tables = .ok groups)
    (hrows : List.Forall₂ (fun g row => (finalizeRow q.functions g.2).map (g.1.map Key.cell ++ ·) =
      .ok row) groups.groups rows)
    (hitems : q.orderBy.isEmpty = false)
    (horder : groupOrder q.orderBy (groupSchema q schema) = .ok order)
    (hascending : Ascending order.compare rows) :
    reduceGroupBy q schema tables = ResultTable.render (groupSchema q schema)
      ((rows.drop q.options.offset).take q.options.limit) (groupSchema q schema).names := by
  have hfinal : (groups.groups.mapM fun g =>
      (finalizeRow q.functions g.2).bind fun finals => .ok (g.1.map Key.cell ++ finals)) =
        .ok rows := by
    refine Except.mapM_eq_ok.2 (hrows.imp fun g row hrow => ?_)
    obtain ⟨finals, hfinals, rfl⟩ := Except.map_eq_ok.1 hrow
    rw [hfinals]
    rfl
  have hsort : order.sort rows = rows := List.mergeSort_of_pairwise hascending
  rw [reduceGroupBy, hgroups]
  show (groups.groups.mapM fun g =>
    (finalizeRow q.functions g.2).bind fun finals => .ok (g.1.map Key.cell ++ finals)).bind _ = _
  rw [hfinal]
  dsimp only [Except.bind]
  rw [hitems]
  show ((groupOrder q.orderBy (groupSchema q schema)).map fun order => order.sort rows).bind _ = _
  rw [horder]
  dsimp only [Except.map, Except.bind]
  rw [hsort]
  rfl

/-- Groups in the order of their decimal sums. -/
def ascendingSums : Query where
  kind := .groupBy
  groupBy := ["k"]
  functions := [.sumPrecision "v" 0 none false]
  orderBy := [⟨"sumprecision(v)", .asc⟩]

/-- Sums of 10 and of 9 for two groups. -/
def tenAndNine : DataTable where
  schema := ⟨[⟨"k", .int, .dimension⟩, ⟨"sumprecision(v)", .object, .metric⟩]⟩
  rows := [[.int 1, .bigDecimal (.ofInt32 10)], [.int 2, .bigDecimal (.ofInt32 9)]]
  nulls := []
  metadata := .empty
  exceptions := []

/-- The group of the sum 10 is shown first. -/
theorem reduceGroupBy_tenAndNine : reduceGroupBy ascendingSums tenAndNine.schema [tenAndNine] =
    .ok ⟨⟨[⟨"k", .int, .dimension⟩, ⟨"sumprecision(v)", .string, .metric⟩]⟩,
      [[.int 1, .string "10"], [.int 2, .string "9"]]⟩ :=
  @reduceGroupBy_of_ascending ascendingSums tenAndNine.schema [tenAndNine]
    ⟨[([(Cell.int 1).key], [.bigDecimal (.ofInt32 10)]),
      ([(Cell.int 2).key], [.bigDecimal (.ofInt32 9)])]⟩
    ⟨[(1, .asc)]⟩ [[.int 1, .string "10"], [.int 2, .string "9"]] rfl
    (.cons (by decide +kernel) (.cons (by decide +kernel) .nil)) rfl rfl
    (by unfold Ascending; decide +kernel)

/-- Sums are shown as the texts that put them in order. -/
theorem inDirection_of_reduceGroupBy_sums :
    ∃ shown fulls, reduceGroupBy ascendingSums tenAndNine.schema [tenAndNine] = .ok shown ∧
      (fulls.Pairwise fun a b => Cell.InDirection .asc (RowOrder.cellAt a 1) (RowOrder.cellAt b 1)) ∧
      List.Forall₂ (fun full row => ColumnType.string.Admits (RowOrder.cellAt full 1) ∧
        row[1]? = some (RowOrder.cellAt full 1)) fulls shown.rows := by
  have htyped : ∀ r ∈ allRows [tenAndNine], r.length = 2 ∧
      ColumnType.object.Admits (RowOrder.cellAt r 1) := by
    intro r hr
    refine ⟨?_, ColumnType.admits_object _⟩
    rcases List.mem_cons.1 hr with rfl | hr
    · rfl
    · obtain rfl := List.mem_singleton.1 hr
      rfl
  obtain ⟨groups, fulls, -, -, -, hpairs, hshown⟩ :=
    @inDirection_of_reduceGroupBy ascendingSums tenAndNine.schema [tenAndNine] _ 0 _ [] []
      ⟨"sumprecision(v)", .asc⟩ rfl rfl rfl reduceGroupBy_tenAndNine
  exact ⟨_, fulls, reduceGroupBy_tenAndNine, hpairs.imp fun hab => hab nofun,
    hshown (by decide) htyped⟩

/-- Groups in the order of their least values. -/
def ascendingMinima : Query where
  kind := .groupBy
  groupBy := ["k"]
  functions := [.min "v"]
  orderBy := [⟨"min(v)", .asc⟩]

/-- The least value of one group. -/
def minimumOf (group : Int32) (type : ColumnType) (least : Cell) : DataTable where
  schema := ⟨[⟨"k", .int, .dimension⟩, ⟨"min(v)", type, .metric⟩]⟩
  rows := [[.int group, least]]
  nulls := []
  metadata := .empty
  exceptions := []

/-- Not every order by an aggregate is that of numbers: a sum of 10 is shown
before a sum of 9, as its text comes first, and a minimum of 100, handed on
as an integer, before one of 5, handed on as a double. -/
theorem reduceGroupBy_not_numeric :
    let integer := minimumOf 1 .int (.int 100)
    let double := minimumOf 2 .double (.double (.ofInt 5))
    (ascendingSums.orderBy = [⟨(AggregateFunction.sumPrecision "v" 0 none false).resultColumn, .asc⟩] ∧
      (reduceGroupBy ascendingSums tenAndNine.schema [tenAndNine]).toOption.map ResultTable.rows =
        some [[.int 1, .string "10"], [.int 2, .string "9"]] ∧
      Decimal.ofText "10" = .ok (.ofInt32 10) ∧ Decimal.ofText "9" = .ok (.ofInt32 9) ∧
      ¬ (Decimal.ofInt32 10).toRat ≤ (Decimal.ofInt32 9).toRat) ∧
    ascendingMinima.orderBy = [⟨(AggregateFunction.min "v").resultColumn, .asc⟩] ∧
      (reduceGroupBy ascendingMinima integer.schema [integer, double]).toOption.map ResultTable.rows =
        some [[.int 1, .double (.ofInt 100)], [.int 2, .double (.ofInt 5)]] ∧
      ¬ (Double.ofInt 100).le (.ofInt 5) := by
  intro integer double
  have hminima : reduceGroupBy ascendingMinima integer.schema [integer, double] =
      ResultTable.render _ _ _ :=
    @reduceGroupBy_of_ascending ascendingMinima integer.schema [integer, double]
      ⟨[([(Cell.int 1).key], [.int 100]), ([(Cell.int 2).key], [.double (.ofInt 5)])]⟩
      ⟨[(1, .asc)]⟩ [[.int 1, .int 100], [.int 2, .double (.ofInt 5)]] rfl
      (.cons (by decide +kernel) (.cons (by decide +kernel) .nil)) rfl rfl
      (by unfold Ascending; decide +kernel)
  refine ⟨⟨by decide, ?_, by decide +kernel, by decide +kernel, ?_⟩, by decide, ?_, by decide +kernel⟩
  · rw [reduceGroupBy_tenAndNine]
    rfl
  · rw [← Decimal.isLE_compare]
    decide +kernel
  · rw [hminima]
    decide +kernel

end Broker

end SegmentQuery
