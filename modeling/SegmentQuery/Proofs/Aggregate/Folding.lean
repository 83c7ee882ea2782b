import SegmentQuery.Proofs.Aggregate.Slots
import SegmentQuery.Proofs.Aggregate.Totals
/-!
# Holders that accumulate documents

Over a whole scan a function folds block after block into one holder.
What the holder has accumulated is said by the documents of the blocks
alone, whatever blocks they came in, and one more block adds its
documents.
-/


namespace SegmentQuery

open Document

variable {nullHandling : Bool} {name : String} {batch seen : List Document} {c : Column}

/-! ## Positions that are not null -/

/-- In ascending order, what is below a bound comes first. -/
theorem takeWhile_lt_of_ascending {ns : List Nat} (h : ns.Pairwise (· < ·)) (bound : Nat) :
    ns.takeWhile (· < bound) = ns.filter (· < bound) := by
  induction ns with
  | nil => rfl
  | cons n ns ih =>
    obtain ⟨hn, hns⟩ := List.pairwise_cons.1 h
    by_cases hlt : n < bound
    · rw [List.takeWhile_cons_of_pos (by simpa using hlt),
        List.filter_cons_of_pos (by simpa using hlt), ih hns]
    · rw [List.takeWhile_cons_of_neg (by simpa using hlt),
        List.filter_cons_of_neg (by simpa using hlt), List.filter_eq_nil_iff.2]
      intro m hm
      have := hn m hm
      simp only [decide_eq_true_eq]
      omega

/-- The nulls of a block's positions are the positions that a null set
records. -/
theorem DocSet.length_takeWhile_lt (s : DocSet) {bound : Nat} (hbound : bound ≤ Number.bound32) :
    (s.toList.takeWhile (· < bound)).length =
      ((List.range bound).filter fun i => Column.recordsNull (some s) i).length := by
  rw [takeWhile_lt_of_ascending s.ascending]
  refine List.Perm.length_eq ((List.perm_ext_iff_of_nodup ?_ ?_).2 fun n => ?_)
  · exact (s.ascending.imp fun h => Nat.ne_of_lt h).filter _
  · exact List.nodup_range.filter _
  · simp only [List.mem_filter, List.mem_range, decide_eq_true_eq, Column.recordsNull,
      Option.any_some, DocSet.contains_iff]
    constructor
    · rintro ⟨hmem, hlt⟩
      rw [Nat.mod_eq_of_lt (Nat.lt_of_lt_of_le hlt hbound)]
      exact ⟨hlt, hmem⟩
    · rintro ⟨hlt, hmem⟩
      rw [Nat.mod_eq_of_lt (Nat.lt_of_lt_of_le hlt hbound)] at hmem
      exact ⟨hmem, hlt⟩

namespace Column

/-- **A count of a block's values** counts those that are not null. -/
theorem countPresent_eq {α : Type} {vs : List α} (hvs : vs.length = c.length)
    (hbound : c.length ≤ Number.bound32) :
    c.countPresent c.length = (present c.nulls c.length vs).length := by
  have hpresent : (present c.nulls c.length vs).length =
      ((List.range c.length).filter fun i => !recordsNull c.nulls i).length := by
    rw [present, List.length_map, ← hvs, List.take_length]
    have hpositions : List.range vs.length = vs.zipIdx.map (·.2) := by
      rw [List.zipIdx_map_snd, List.range'_eq_map_range]
      simp
    rw [hpositions, List.filter_map, List.length_map]
    rfl
  have hsplit := List.length_eq_length_filter_add (l := List.range c.length)
    fun i => recordsNull c.nulls i
  rw [List.length_range] at hsplit
  rw [hpresent]
  have hnulls : (((c.nulls.map DocSet.toList).getD []).takeWhile (· < c.length)).length =
      ((List.range c.length).filter fun i => recordsNull c.nulls i).length := by
    cases c.nulls with
    | none => simp [recordsNull]
    | some nulls => exact nulls.length_takeWhile_lt hbound
  rw [countPresent, reach, Nat.min_self, hnulls]
  omega

/-! ## Columns of integers -/

/-- A column of a block holds the integers of its documents: a value for
each document, which is the document's integer unless it is null. -/
inductive HoldsIntegers (nullHandling : Bool) (name : String) (batch : List Document) :
    Int × Int → Column → Prop
  | int {nulls : Option DocSet} (value : Document → Int32)
    (h : ∀ d ∈ batch, d.integer? nullHandling name =
      if d.isNull nullHandling name then none else some (value d).toInt) :
    HoldsIntegers nullHandling name batch (Int32.minValue.toInt, Int32.maxValue.toInt)
      ⟨.single .int (batch.map value), nulls⟩
  | long {nulls : Option DocSet} (value : Document → Int64)
    (h : ∀ d ∈ batch, d.integer? nullHandling name =
      if d.isNull nullHandling name then none else some (value d).toInt) :
    HoldsIntegers nullHandling name batch (Int64.minValue.toInt, Int64.maxValue.toInt)
      ⟨.single .long (batch.map value), nulls⟩

section

variable {α : Type} {toInt : α → Int} {value : Document → α}

/-- The integers of documents are those that are not null. -/
theorem values_eq (h : ∀ d ∈ batch, d.integer? nullHandling name =
      if d.isNull nullHandling name then none else some (toInt (value d))) :
    Document.values nullHandling name batch =
      ((batch.filter fun d => !d.isNull nullHandling name).map value).map toInt := by
  rw [Document.values, List.map_map, ← List.filterMap_eq_map, List.filterMap_filter]
  refine List.filterMap_congr fun d hd => ?_
  rw [h d hd]
  cases d.isNull nullHandling name <;> rfl

/-- **The extremum of a block** is that of its values and the sentinel. -/
theorem Delivers.picks (hc : c.Delivers nullHandling name batch)
    (h : ∀ d ∈ batch, d.integer? nullHandling name =
      if d.isNull nullHandling name then none else some (toInt (value d)))
    (e : Extremum) {better : α → α → Bool} {toDouble : α → Double} {sentinel : Int}
    (hbetter : ∀ a b, better a b = e.before (toInt a) (toInt b))
    (hdouble : ∀ a, toDouble a = Double.ofInt (toInt a))
    (hafter : ∀ v, e.before (toInt v) sentinel = true) :
    ∃ n, e.Picks (sentinel :: Document.values nullHandling name batch) n ∧
      ((Numeric.best better (present c.nulls batch.length (batch.map value))).map toDouble).getD
        (Double.ofInt sentinel) = Double.ofInt n := by
  rw [values_eq h, present_map hc.isNull_eq]
  exact e.picks_block hbetter hdouble fun v _ => hafter v

end

variable {low high : Int}

/-- The least of a block of integers. -/
theorem HoldsIntegers.least (h : c.HoldsIntegers nullHandling name batch (low, high))
    (hc : c.Delivers nullHandling name batch) :
    ∃ (ns : NumericValues) (n : Int), c.numeric = .ok ns ∧
      Extremum.least.Picks (high :: Document.values nullHandling name batch) n ∧
      ns.least batch.length c.nulls = Double.ofInt n := by
  cases h with
  | int value h =>
    obtain ⟨n, hn, hleast⟩ := hc.picks h .least (fun _ _ => rfl) (fun _ => rfl)
      fun v => decide_eq_true v.toInt_le
    exact ⟨_, n, rfl, hn, hleast⟩
  | long value h =>
    obtain ⟨n, hn, hleast⟩ := hc.picks h .least (fun _ _ => rfl) (fun _ => rfl)
      fun v => decide_eq_true v.toInt_le
    exact ⟨_, n, rfl, hn, hleast⟩

/-- The greatest of a block of integers. -/
theorem HoldsIntegers.greatest (h : c.HoldsIntegers nullHandling name batch (low, high))
    (hc : c.Delivers nullHandling name batch) :
    ∃ (ns : NumericValues) (n : Int), c.numeric = .ok ns ∧
      Extremum.greatest.Picks (low :: Document.values nullHandling name batch) n ∧
      ns.greatest batch.length c.nulls = Double.ofInt n := by
  cases h with
  | int value h =>
    obtain ⟨n, hn, hgreatest⟩ := hc.picks h .greatest (fun _ _ => rfl) (fun _ => rfl)
      fun v => decide_eq_true v.le_toInt
    exact ⟨_, n, rfl, hn, hgreatest⟩
  | long value h =>
    obtain ⟨n, hn, hgreatest⟩ := hc.picks h .greatest (fun _ _ => rfl) (fun _ => rfl)
      fun v => decide_eq_true v.le_toInt
    exact ⟨_, n, rfl, hn, hgreatest⟩

/-- The decimals of positions that are not null. -/
theorem Delivers.filterMap_decimals {α : Type} {value : Document → α}
    (hc : c.Delivers nullHandling name batch) (toDecimal : α → Decimal)
    (hdecimal : ∀ position, c.decimalAt true position =
      .ok ((batch.map value)[position]?.map toDecimal)) :
    ∃ ds, c.decimals true batch.length = .ok ds ∧ ds.filterMap id =
      ((batch.filter fun d => !d.isNull nullHandling name).map value).map toDecimal := by
  have hreach : c.reach batch.length = batch.length := by rw [reach, hc.length_eq, Nat.min_self]
  refine ⟨batch.map fun d => if d.isNull nullHandling name then none else some (toDecimal (value d)),
    ?_, ?_⟩
  · rw [decimals, hreach, Except.mapM_eq_ok]
    refine List.forall₂_iff_get.2 ⟨by simp, fun i hi hi' => ?_⟩
    have hlt : i < batch.length := by simpa using hi
    simp only [List.get_eq_getElem, List.getElem_range, List.getElem_map, Bool.true_and,
      hc.isNull_eq i hlt]
    split
    · rfl
    · rw [hdecimal, List.getElem?_map, List.getElem?_eq_getElem hlt]
      rfl
  · rw [List.filterMap_map, List.map_map, ← List.filterMap_eq_map, List.filterMap_filter]
    refine List.filterMap_congr fun d _ => ?_
    simp only [Function.comp_apply, id_eq]
    cases d.isNull nullHandling name <;> rfl

/-- **The decimals of a block of integers** are its integers. -/
theorem HoldsIntegers.decimals {range : Int × Int}
    (h : c.HoldsIntegers nullHandling name batch range)
    (hc : c.Delivers nullHandling name batch) :
    ∃ ds, c.decimals true batch.length = .ok ds ∧
      List.Forall₂ Decimal.IsWhole (ds.filterMap id) (Document.values nullHandling name batch) := by
  cases h with
  | int value h =>
    obtain ⟨ds, hds, hvalues⟩ := hc.filterMap_decimals Decimal.ofInt32 fun _ => rfl
    refine ⟨ds, hds, ?_⟩
    rw [hvalues, values_eq h, List.forall₂_map_left_iff, List.forall₂_map_right_iff]
    exact List.forall₂_same.2 fun v _ => Decimal.isWhole_ofInt32 v
  | long value h =>
    obtain ⟨ds, hds, hvalues⟩ := hc.filterMap_decimals Decimal.ofInt64 fun _ => rfl
    refine ⟨ds, hds, ?_⟩
    rw [hvalues, values_eq h, List.forall₂_map_left_iff, List.forall₂_map_right_iff]
    exact List.forall₂_same.2 fun v _ => Decimal.isWhole_ofInt64 v

/-- The integers of a column are within its range. -/
theorem HoldsIntegers.mem_range (h : c.HoldsIntegers nullHandling name batch (low, high)) {n : Int}
    (hn : n ∈ Document.values nullHandling name batch) : low ≤ n ∧ n ≤ high := by
  cases h with
  | int value h =>
    rw [values_eq h] at hn
    obtain ⟨v, -, rfl⟩ := List.mem_map.1 hn
    exact ⟨v.le_toInt, v.toInt_le⟩
  | long value h =>
    rw [values_eq h] at hn
    obtain ⟨v, -, rfl⟩ := List.mem_map.1 hn
    exact ⟨v.le_toInt, v.toInt_le⟩

end Column

/-! ## What holders accumulate -/

variable {range : String → Option (Int × Int)} {f : AggregateFunction} {h after : Holder}
variable {input : Option Column}

/-- A holder has accumulated some documents: what would be extracted from
it has tallied them. An exact sum keeps its number before there is a
value to show. -/
def Accumulates (range : String → Option (Int × Int)) (nullHandling : Bool)
    (documents : List Document) : AggregateFunction → Holder → Prop
  | .sumPrecision column _ _ true, h => (range column).isSome →
    h.value.toDecimal.IsWhole (values nullHandling column documents).sum ∧
      h.seenNonNull = !(values nullHandling column documents).isEmpty
  | f, h => Tallies range nullHandling documents f (f.extract h)

/-- A new holder has accumulated nothing. -/
theorem accumulates_holder : Accumulates range nullHandling [] f f.holder := by
  match f with
  | .count none => rfl
  | .count (some _) => rfl
  | .min _ => exact fun _ _ _ => ⟨_, rfl, .inl ⟨rfl, rfl⟩⟩
  | .max _ => exact fun _ _ _ => ⟨_, rfl, .inl ⟨rfl, rfl⟩⟩
  | .sum _ => trivial
  | .sumPrecision _ _ _ true => exact fun _ => ⟨Decimal.isWhole_zero, rfl⟩
  | .sumPrecision _ _ _ false => trivial

/-- **What is extracted has tallied** what was accumulated. -/
theorem Accumulates.tallies (haccumulates : Accumulates range nullHandling seen f h) :
    Tallies range nullHandling seen f (f.extract h) := by
  match f, haccumulates with
  | .count _, haccumulates => exact haccumulates
  | .min _, haccumulates => exact haccumulates
  | .max _, haccumulates => exact haccumulates
  | .sum _, _ => trivial
  | .sumPrecision _ _ _ false, _ => trivial
  | .sumPrecision column precision scale true, haccumulates =>
    intro hcolumn
    obtain ⟨hwhole, hnoted⟩ := haccumulates hcolumn
    by_cases hnone : values nullHandling column seen = []
    · refine .inl ⟨values_eq_nil_iff.1 hnone, ?_⟩
      rw [AggregateFunction.extract, hnoted, hnone]
      rfl
    · refine .inr ⟨Set.nonempty_iff_ne_empty.2 (mt values_eq_nil_iff.2 hnone), _, hwhole, ?_⟩
      rw [AggregateFunction.extract, hnoted, List.isEmpty_eq_false_iff.2 hnone]
      rfl

/-- The input of a function in a block: the column it reads, and integers
where the column has a range. -/
def AggregateFunction.Takes (range : String → Option (Int × Int)) (nullHandling : Bool)
    (batch : List Document) (f : AggregateFunction) (input : Option Column) : Prop :=
  match f.column? with
  | none => input = none
  | some name => ∃ c, input = some c ∧ c.Delivers nullHandling name batch ∧
    ∀ r, range name = some r → c.HoldsIntegers nullHandling name batch r

/-- A count of a block's values is that of its documents with a value. -/
theorem Column.Delivers.countPresent_eq (hc : c.Delivers nullHandling name batch)
    (hlen : batch.length ≤ Number.bound32) : c.countPresent batch.length =
      batch.countP fun d => !d.isNull nullHandling name := by
  have hcount := Column.countPresent_eq hc.length_eq.symm (hc.length_eq ▸ hlen)
  have hpresent := Column.present_map (g := id) hc.isNull_eq
  rw [List.map_id, List.map_id] at hpresent
  rw [hc.length_eq, hpresent] at hcount
  rw [hcount, List.countP_eq_length_filter]

/-- A least takes in the least of a block. -/
theorem toExcept_aggregate_min {low high : Int} (hc : c.Delivers nullHandling name batch)
    (hholds : c.HoldsIntegers nullHandling name batch (low, high)) :
    ∃ n, Extremum.least.Picks (high :: values nullHandling name batch) n ∧
      ((AggregateFunction.min name).aggregate batch.length (some c) h).toExcept =
        .ok { h with value := .double ((Double.ofInt n).min h.value.toDouble) } := by
  obtain ⟨ns, n, hnumeric, hpicks, hleast⟩ := hholds.least hc
  refine ⟨n, hpicks, ?_⟩
  rw [AggregateFunction.aggregate, Progress.toExcept_ofExcept]
  simp only [AggregateFunction.requireInput, hnumeric, bind, Except.bind, hleast]
  rfl

/-- A greatest takes in the greatest of a block. -/
theorem toExcept_aggregate_max {low high : Int} (hc : c.Delivers nullHandling name batch)
    (hholds : c.HoldsIntegers nullHandling name batch (low, high)) :
    ∃ n, Extremum.greatest.Picks (low :: values nullHandling name batch) n ∧
      ((AggregateFunction.max name).aggregate batch.length (some c) h).toExcept =
        .ok { h with value := .double ((Double.ofInt n).max h.value.toDouble) } := by
  obtain ⟨ns, n, hnumeric, hpicks, hgreatest⟩ := hholds.greatest hc
  refine ⟨n, hpicks, ?_⟩
  rw [AggregateFunction.aggregate, Progress.toExcept_ofExcept]
  simp only [AggregateFunction.requireInput, hnumeric, bind, Except.bind, hgreatest]
  rfl

/-- An exact sum takes in the integers of a block, one by one. -/
theorem toExcept_aggregate_sum {r : Int × Int} (hc : c.Delivers nullHandling name batch)
    (hholds : c.HoldsIntegers nullHandling name batch r) (precision : Nat) (scale : Option Nat) :
    ∃ ds, List.Forall₂ Decimal.IsWhole ds (values nullHandling name batch) ∧
      ((AggregateFunction.sumPrecision name precision scale true).aggregate batch.length (some c)
        h).toExcept = (h.addDecimals h.value.toDecimal ds).toExcept := by
  obtain ⟨ds, hds, hwhole⟩ := hholds.decimals hc
  refine ⟨_, hwhole, ?_⟩
  rw [AggregateFunction.aggregate]
  simp only [AggregateFunction.requireInput, hds]

/-- **One block more**: a holder that takes in a block has accumulated the
block's documents too. -/
theorem Accumulates.of_aggregate (hseen : Accumulates range nullHandling seen f h)
    (htakes : f.Takes range nullHandling batch input) (hne : batch ≠ [])
    (hlen : batch.length ≤ Number.bound32)
    (hok : (f.aggregate batch.length input h).toExcept = .ok after) :
    Accumulates range nullHandling (seen ++ batch) f after := by
  match f, hseen, htakes, hok with
  | .count none, hseen, htakes, hok =>
    obtain rfl : input = none := htakes
    obtain rfl := Except.ok.inj hok
    have hseen : h.value.toLong = Counter.signed seen.length := Cell.long.inj hseen
    show Cell.long (Counter.addSigned h.value.toLong (Counter.signed batch.length)) =
      Cell.long (Counter.signed (seen ++ batch).length)
    rw [hseen, Counter.addSigned_signed, List.length_append]
  | .count (some column), hseen, ⟨c, hinput, hc, _⟩, hok =>
    subst hinput
    obtain rfl := Except.ok.inj hok
    have hseen : h.value.toLong =
      Counter.signed (seen.countP fun d => !d.isNull nullHandling column) := Cell.long.inj hseen
    show Cell.long (Counter.addSigned h.value.toLong
        (Counter.signed (c.countPresent batch.length))) =
      Cell.long (Counter.signed ((seen ++ batch).countP fun d => !d.isNull nullHandling column))
    rw [hseen, hc.countPresent_eq hlen, Counter.addSigned_signed, List.countP_append]
  | .min column, hseen, ⟨c, hinput, hc, hholds⟩, hok =>
    subst hinput
    intro low high hcolumn
    obtain ⟨v, hv, hreaches⟩ := hseen low high hcolumn
    obtain ⟨n, hpicks, htaken⟩ := toExcept_aggregate_min (h := h) hc (hholds _ hcolumn)
    obtain rfl := Except.ok.inj (htaken.symm.trans hok)
    obtain rfl : h.value.toDouble = v := Cell.double.inj hv
    have hblock : Extremum.least.Reaches high nullHandling column batch (Double.ofInt n) :=
      .inr ⟨hne, n, hpicks, rfl⟩
    exact ⟨_, rfl, (hblock.append hreaches).comm⟩
  | .max column, hseen, ⟨c, hinput, hc, hholds⟩, hok =>
    subst hinput
    intro low high hcolumn
    obtain ⟨v, hv, hreaches⟩ := hseen low high hcolumn
    obtain ⟨n, hpicks, htaken⟩ := toExcept_aggregate_max (h := h) hc (hholds _ hcolumn)
    obtain rfl := Except.ok.inj (htaken.symm.trans hok)
    obtain rfl : h.value.toDouble = v := Cell.double.inj hv
    have hblock : Extremum.greatest.Reaches low nullHandling column batch (Double.ofInt n) :=
      .inr ⟨hne, n, hpicks, rfl⟩
    exact ⟨_, rfl, (hblock.append hreaches).comm⟩
  | .sumPrecision column precision scale true, hseen, ⟨c, hinput, hc, hholds⟩, hok =>
    subst hinput
    intro hcolumn
    obtain ⟨hwhole, hnoted⟩ := hseen hcolumn
    obtain ⟨r, hr⟩ := Option.isSome_iff_exists.1 hcolumn
    obtain ⟨ds, hds, htaken⟩ := toExcept_aggregate_sum (h := h) hc (hholds r hr) precision scale
    obtain ⟨htotal, hafter⟩ := Holder.of_addDecimals hds hwhole (htaken.symm.trans hok)
    rw [values_append, List.sum_append]
    refine ⟨htotal, ?_⟩
    rw [hafter, hnoted]
    cases values nullHandling column seen <;> rfl
  | .sumPrecision column precision scale false, _, _, _ => trivial
  | .sum column, _, _, _ => trivial

/-- An integer that is stored has 64 bits. -/
theorem Document.natAbs_of_mem_values {n : Int} {documents : List Document}
    (hn : n ∈ values nullHandling name documents) : n.natAbs ≤ 9223372036854775808 := by
  obtain ⟨d, -, hd⟩ := List.mem_filterMap.1 hn
  unfold Document.integer? at hd
  cases hcell : d.segment.cell nullHandling d.number name <;>
    simp only [hcell, Cell.integer?, Option.some.injEq, reduceCtorEq] at hd
  case int v =>
    have := v.toInt_lt
    have := v.le_toInt
    omega
  case long v =>
    have := v.toInt_lt
    have := v.le_toInt
    omega

/-- The integers of as many documents as can be numbered add up to fewer
than 97 bits. -/
theorem Document.natAbs_sum_values_lt {documents : List Document} {ns : List Int}
    (hsub : ns.Sublist (values nullHandling name documents))
    (hlen : documents.length ≤ Number.bound32) : ns.sum.natAbs < Decimal.coeffLimit := by
  have hsum := natAbs_sum_le fun n hn => natAbs_of_mem_values (hsub.subset hn)
  have hcount : ns.length ≤ Number.bound32 :=
    (hsub.length_le.trans (List.length_filterMap_le _ _)).trans hlen
  unfold Number.bound32 at hcount
  unfold Decimal.coeffLimit
  omega

/-- **One block more can be taken in** by a function that has a total. -/
theorem Accumulates.exists_aggregate (hseen : Accumulates range nullHandling seen f h)
    (htakes : f.Takes range nullHandling batch input) (htotal : f.HasTotal range)
    (hlen : (seen ++ batch).length ≤ Number.bound32) :
    ∃ after, (f.aggregate batch.length input h).toExcept = .ok after := by
  match f, hseen, htakes, htotal with
  | .count none, _, _, _ => exact ⟨_, rfl⟩
  | .count (some _), _, _, _ => exact ⟨_, rfl⟩
  | .min column, _, ⟨c, hinput, hc, hholds⟩, hcolumn =>
    subst hinput
    obtain ⟨r, hr⟩ := Option.isSome_iff_exists.1 hcolumn
    obtain ⟨n, -, htaken⟩ := toExcept_aggregate_min (h := h) hc (hholds r hr)
    exact ⟨_, htaken⟩
  | .max column, _, ⟨c, hinput, hc, hholds⟩, hcolumn =>
    subst hinput
    obtain ⟨r, hr⟩ := Option.isSome_iff_exists.1 hcolumn
    obtain ⟨n, -, htaken⟩ := toExcept_aggregate_max (h := h) hc (hholds r hr)
    exact ⟨_, htaken⟩
  | .sumPrecision column precision scale true, hseen, ⟨c, hinput, hc, hholds⟩, ⟨_, hcolumn⟩ =>
    subst hinput
    obtain ⟨hwhole, -⟩ := hseen hcolumn
    obtain ⟨r, hr⟩ := Option.isSome_iff_exists.1 hcolumn
    obtain ⟨ds, hds, htaken⟩ := toExcept_aggregate_sum (h := h) hc (hholds r hr) precision scale
    have hsub (k : Nat) : (values nullHandling column seen ++
        (values nullHandling column batch).take k).Sublist
          (values nullHandling column (seen ++ batch)) := by
      rw [values_append]
      exact (List.Sublist.refl _).append (List.take_sublist k _)
    obtain ⟨after, hafter⟩ := Holder.exists_addDecimals (h := h) hds hwhole fun k => by
      rw [← List.sum_append]
      exact natAbs_sum_values_lt (hsub k) hlen
    exact ⟨after, htaken.trans hafter⟩

end SegmentQuery
