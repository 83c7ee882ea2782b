import SegmentQuery.Proofs.Distinct.Shown
/-!
# Calls on a collection of distinct values

A collection takes in values by calls: one value, one cell, a column, or
another collection. Each call offers some values in a row, and what they do
to the collection is all that the call does to it, also where it fails. A
call reports whether further values can still change the collection, so its
caller may stop reading. That report is sound: after it nothing changes any
more. And what an ordered collection hands back, because it makes way or is
turned away, never comes back.
-/


namespace SegmentQuery

open Std (TransCmp)

namespace DistinctValues

variable {d : DistinctValues} {c : Column} {direction : Direction} {v : Option Key}

/-! ## Calls -/

/-- A call that gives a collection something to take in. -/
inductive Call
  | value (v : Option Key)
  | cell (cell : Cell)
  | column (column : Column) (length : Nat)
  | merge (source : DistinctValues)

/-- What offering one value reports: whether no further value can change
the collection. -/
def addReports (d : DistinctValues) (value : Option Key) : Bool :=
  if d.isSaturated then true else if d.hasSeen value then false else (d.add value).isSaturated

/-- What taking in positions of a column reports. An error is no report. -/
def positionsReport (c : Column) (d : DistinctValues) : List Nat → Bool
  | [] => d.isSaturated
  | position :: rest =>
    match d.readAt c position with
    | .error _ => false
    | .ok value => if d.addReports value then true else positionsReport c (d.add value) rest

/-- The values of a column up to the first position that cannot be read. -/
def readable (d : DistinctValues) (c : Column) : List Nat → List (Option Key)
  | [] => []
  | position :: rest =>
    match d.readAt c position with
    | .error _ => []
    | .ok value => value :: readable d c rest

namespace Call

/-- What a call leaves behind. -/
def run (d : DistinctValues) : Call → Progress QueryError DistinctValues
  | .value v => .done (d.add v)
  | .cell a => .ofExcept d (d.addCell a)
  | .column c length => d.process c length
  | .merge source => .ofExcept d (d.merge source)

/-- Whether a call reports that nothing can change the collection any more.
Taking in another collection reports nothing, and neither does a call that
fails. -/
def reports (d : DistinctValues) : Call → Bool
  | .value v => d.addReports v
  | .cell a =>
    if a.isNull then
      if d.nullHandling then d.addReports none else d.isSaturated
    else if a.storedType = some d.type ∧ !a.isMultiValue then d.addReports (some a.key)
    else false
  | .column c length => positionsReport c d (List.range (min length c.length))
  | .merge _ => false

/-- The values that a call offers. -/
def offers (d : DistinctValues) : Call → List (Option Key)
  | .value v => [v]
  | .cell a =>
    if a.isNull then if d.nullHandling then [none] else []
    else if a.storedType = some d.type ∧ !a.isMultiValue then [some a.key] else []
  | .column c length => d.readable c (List.range (min length c.length))
  | .merge source => if d.type = source.type then source.values else []

end Call

/-- The collection after some calls, be they errors or not. -/
def after (d : DistinctValues) (calls : List Call) : DistinctValues :=
  calls.foldl (fun d call => (call.run d).state) d

/-- The values that calls offer, one after the other. -/
def offered (d : DistinctValues) : List Call → List (Option Key)
  | [] => []
  | call :: calls => call.offers d ++ offered (call.run d).state calls

/-! ## What calls offer -/

/-- Reading a column depends on the type of the collection and on whether
nulls are values. -/
theorem readAt_add (value : Option Key) (c : Column) (position : Nat) :
    (d.add value).readAt c position = d.readAt c position := by
  simp only [readAt, type_add, nullHandling_add]

theorem readable_add (value : Option Key) (c : Column) (positions : List Nat) :
    (d.add value).readable c positions = d.readable c positions := by
  induction positions with
  | nil => rfl
  | cons position rest ih => simp only [readable, readAt_add, ih]

/-- A column is taken in as the values that can be read, although a
saturated collection does not read them all. -/
theorem state_processFrom (c : Column) (positions : List Nat) :
    (processFrom c d positions).state = (d.readable c positions).foldl add d := by
  induction positions generalizing d with
  | nil => rfl
  | cons position rest ih =>
    rw [processFrom, readable]
    cases hread : d.readAt c position with
    | error e => rfl
    | ok value =>
      show (if (d.add value).isSaturated then _ else _ : Progress _ _).state = _
      rw [List.foldl_cons]
      by_cases hfull : (d.add value).isSaturated = true
      · rw [if_pos hfull, foldl_add_of_isSaturated hfull]
        rfl
      · rw [if_neg hfull, ih, readable_add]

/-- **A call does what the values do that it offers.** -/
theorem Call.state_run (call : Call) (d : DistinctValues) :
    (call.run d).state = (call.offers d).foldl add d := by
  cases call with
  | value v => rfl
  | cell cell =>
    simp only [run, offers, addCell]
    split
    · cases d.nullHandling <;> rfl
    · split <;> rfl
  | column column length => exact state_processFrom column _
  | merge source =>
    simp only [run, offers, DistinctValues.merge]
    split <;> rfl

/-- Calls do what the values do that they offer. -/
theorem after_eq_foldl (d : DistinctValues) (calls : List Call) :
    d.after calls = (d.offered calls).foldl add d := by
  induction calls generalizing d with
  | nil => rfl
  | cons call calls ih => rw [offered, List.foldl_append, ← call.state_run, ← ih, after,
      List.foldl_cons, after]

/-! ## What calls report -/

/-- Offering a value reports what the collection then is. -/
theorem addReports_eq (d : DistinctValues) (value : Option Key) :
    d.addReports value = (d.add value).isSaturated := by
  unfold addReports
  by_cases hfull : d.isSaturated = true
  · rw [if_pos hfull, add_of_isSaturated hfull, hfull]
  · rw [if_neg hfull]
    by_cases hseen : d.hasSeen value = true
    · rw [if_pos hseen, add_of_seen hseen, Bool.eq_false_iff.2 hfull]
    · rw [if_neg hseen]

theorem isSaturated_of_positionsReport {positions : List Nat}
    (h : positionsReport c d positions) : (processFrom c d positions).state.isSaturated := by
  induction positions generalizing d with
  | nil => exact h
  | cons position rest ih =>
    unfold positionsReport at h
    unfold processFrom
    cases hread : d.readAt c position with
    | error e => simp [hread] at h
    | ok value =>
      simp only [hread, addReports_eq] at h
      dsimp only
      by_cases hfull : (d.add value).isSaturated = true
      · rw [if_pos hfull]
        exact hfull
      · rw [if_neg hfull] at h ⊢
        exact ih h

/-- **A report is true**: what a call leaves behind is saturated. -/
theorem Call.isSaturated_of_reports {call : Call} (h : call.reports d) :
    (call.run d).state.isSaturated := by
  cases call with
  | value v => exact d.addReports_eq v ▸ h
  | cell cell =>
    simp only [reports] at h
    simp only [run, addCell]
    by_cases hnull : cell.isNull = true
    · rw [if_pos hnull] at h ⊢
      by_cases hkeeps : d.nullHandling = true
      · rw [if_pos hkeeps] at h ⊢
        exact d.addReports_eq none ▸ h
      · rw [if_neg hkeeps] at h ⊢
        exact h
    · rw [if_neg hnull] at h ⊢
      by_cases hfits : cell.storedType = some d.type ∧ !cell.isMultiValue
      · rw [if_pos hfits] at h ⊢
        exact d.addReports_eq (some cell.key) ▸ h
      · rw [if_neg hfits] at h
        exact absurd h Bool.false_ne_true
  | column column length => exact isSaturated_of_positionsReport h
  | merge source => exact absurd h Bool.false_ne_true

/-- A collection in an order is never saturated. -/
theorem isSaturated_of_order (h : d.order = some direction) : d.isSaturated = false := by
  obtain ⟨type, limit, nullHandling, seen, store⟩ := d
  cases store with
  | firstSeen values => exact nomatch h
  | best heap direction => rfl

/-- Nothing changes a saturated collection. -/
theorem after_of_isSaturated (h : d.isSaturated) (calls : List Call) : d.after calls = d := by
  rw [after_eq_foldl, foldl_add_of_isSaturated h]

/-! ## What is handed back -/

/-- What the heap of an ordered collection hands back when a value is
offered: the value that makes way for it, or the value itself when it is
turned away. -/
def handedBack (d : DistinctValues) (value : Option Key) : List (Option Key) :=
  if d.isSaturated || d.hasSeen value then []
  else match d.store with
    | .firstSeen _ => []
    | .best heap direction => (heap.offer (compareValues direction) value).1.handedBack

/-- What is handed back while values are offered in order. -/
def handedBackBy (d : DistinctValues) : List (Option Key) → List (Option Key)
  | [] => []
  | value :: rest => d.handedBack value ++ handedBackBy (d.add value) rest

/-- The collection is full of values that go before one. -/
structure RulesOut (d : DistinctValues) (direction : Direction) (v : Option Key) : Prop where
  order_eq : d.order = some direction
  length_eq : d.values.length = d.limit
  before : ∀ u ∈ d.values, compareValues direction u v = .lt

theorem lt_of_not_sameValue {u : Option Key} (hle : (compareValues direction u v).isLE)
    (hne : ¬ sameValue u v) : compareValues direction u v = .lt := by
  rcases Ordering.isLE_iff_eq_lt_or_eq_eq.1 hle with hlt | heq
  · exact hlt
  · exact absurd (sameValue_iff.2 heq) hne

/-- A new value is offered to the heap. -/
theorem values_add_best {type : StoredType} {limit : Nat} {nullHandling : Bool}
    {seen : List (Option Key)} {heap : TopK (Option Key)} {value : Option Key}
    (hskip : ¬ (isSaturated ⟨type, limit, nullHandling, seen, .best heap direction⟩ ||
      hasSeen ⟨type, limit, nullHandling, seen, .best heap direction⟩ value) = true) :
    values (add ⟨type, limit, nullHandling, seen, .best heap direction⟩ value) =
      arrange (some direction) (heap.offer (compareValues direction) value).2.toList := by
  rw [add, if_neg hskip]
  rfl

/-- What is handed back is ruled out. -/
theorem Sound.rulesOut_of_mem_handedBack (h : d.Sound) {value : Option Key}
    (hv : v ∈ d.handedBack value) : ∃ direction, (d.add value).RulesOut direction v := by
  have hseen : d.hasSeen value = d.values.any (sameValue value) := h.seen_perm.any_eq
  have hdiff := h.different
  have hstored := h.stored
  unfold handedBack at hv
  by_cases hskip : (d.isSaturated || d.hasSeen value) = true
  · rw [if_pos hskip] at hv
    exact absurd hv List.not_mem_nil
  rw [if_neg hskip] at hv
  have hnew : ¬ d.values.any (sameValue value) = true := by
    rw [← hseen]
    exact fun hany => hskip (by rw [hany, Bool.or_true])
  have hapart := different_append hdiff hnew
  obtain ⟨type, limit, nullHandling, seen, store⟩ := d
  cases store with
  | firstSeen values => exact absurd hv List.not_mem_nil
  | best heap direction =>
    obtain ⟨hvalid, rfl⟩ : heap.Valid (compareValues direction) ∧ heap.maximum = limit := hstored
    have hbest := hvalid.isBest_offer value
    have hvalues := values_add_best hskip
    have hall : Different (heap.toList ++ [value]) :=
      hapart.of_perm ((perm_arrange (some direction) _).append_right _)
    refine ⟨direction, ?_, ?_, fun u hu => ?_⟩
    · rw [order_add]
      rfl
    · rw [hvalues, (perm_arrange _ _).length_eq, limit_add]
      exact hbest.length_of_mem_dropped hv
    · rw [hvalues, (perm_arrange _ _).mem_iff] at hu
      exact lt_of_not_sameValue (hbest.le u hu v hv)
        ((List.pairwise_append.1 (hall.of_perm hbest.perm)).2.2 u hu v hv)

/-- **What is ruled out stays ruled out** when one more value is offered. -/
theorem RulesOut.add (h : d.RulesOut direction v) (hsound : d.Sound) (value : Option Key) :
    (d.add value).RulesOut direction v := by
  have hvalues := (hsound.add value).2
  rw [h.order_eq, keep] at hvalues
  by_cases hany : d.values.any (sameValue value) = true
  · rw [if_pos hany] at hvalues
    refine ⟨(order_add value).trans h.order_eq, ?_, hvalues ▸ h.before⟩
    rw [hvalues, limit_add, h.length_eq]
  · rw [if_neg hany] at hvalues
    have hbest := isBest_take_arrange direction d.limit (d.values ++ [value])
    have hapart := (different_append hsound.different hany).of_perm hbest.perm
    rw [← hvalues] at hbest hapart
    have hlength := hbest.length
    have hsum := hbest.perm.length_eq
    rw [List.length_append, List.length_singleton, h.length_eq] at hlength hsum
    refine ⟨(order_add value).trans h.order_eq, by rw [limit_add]; omega, fun u hu => ?_⟩
    rcases List.mem_append.1 (hbest.perm.mem_iff.2 (List.mem_append_left _ hu)) with hold | hnew
    · exact h.before u hold
    · -- the new value goes before the old one that makes way for it
      obtain rfl := List.mem_singleton.1 hnew
      rw [List.length_append] at hsum
      obtain ⟨w, hw⟩ := List.exists_mem_of_length_pos
        (l := (arrange (some direction) (d.values ++ [u])).drop d.limit) (by omega)
      have hlt : compareValues direction w v = .lt := by
        rcases List.mem_append.1 (hbest.perm.mem_iff.2 (List.mem_append_right _ hw)) with hold | hnew
        · exact h.before w hold
        · obtain rfl := List.mem_singleton.1 hnew
          exact absurd (sameValue_refl w) ((List.pairwise_append.1 hapart).2.2 w hu w hw)
      exact TransCmp.lt_of_isLE_of_lt (hbest.le u hu w hw) hlt

/-- What is ruled out stays ruled out, whatever is offered. -/
theorem RulesOut.foldl_add (h : d.RulesOut direction v) (hsound : d.Sound)
    (values : List (Option Key)) : (values.foldl DistinctValues.add d).RulesOut direction v := by
  induction values generalizing d with
  | nil => exact h
  | cons value values ih => exact ih (h.add hsound value) (hsound.add value).1

/-- What is handed back at any time is ruled out from then on. -/
theorem Sound.rulesOut_of_mem_handedBackBy (h : d.Sound) {values : List (Option Key)}
    (hv : v ∈ d.handedBackBy values) :
    ∃ direction, (values.foldl DistinctValues.add d).RulesOut direction v := by
  induction values generalizing d with
  | nil => exact absurd hv List.not_mem_nil
  | cons value values ih =>
    rcases List.mem_append.1 hv with hnow | hlater
    · obtain ⟨direction, hout⟩ := h.rulesOut_of_mem_handedBack hnow
      exact ⟨direction, hout.foldl_add (h.add value).1 values⟩
    · exact ih (h.add value).1 hlater

/-! ## Collections after any calls -/

/-- **What holds after any calls on a fresh collection.** It keeps the first
or the best of the values offered, all different and no more than the limit,
and has seen the ones it keeps. Once a call reports that nothing can change
the collection, no further calls do. A collection in an order never reports
that, and a value that made way or was turned away is not kept. -/
theorem sound_after_calls (type : StoredType) (order : Option Direction) (limit : Nat)
    (nullHandling : Bool) (calls : List Call) :
    let start := new type order limit nullHandling
    let d := start.after calls
    d.values = shown limit order (start.offered calls) ∧
    Different d.values ∧ d.values.length ≤ limit ∧ d.seen.Perm d.values ∧
    (∀ call : Call, call.reports d →
      ∀ more, (call.run d).state.after more = (call.run d).state) ∧
    (order.isSome → ∀ call : Call, call.reports d = false) ∧
    ∀ v ∈ start.handedBackBy (start.offered calls), ∀ u ∈ d.values, ¬ sameValue u v := by
  intro start d
  have hfold : d = (start.offered calls).foldl add start := after_eq_foldl start calls
  have hstart : start.Sound := sound_new type order limit nullHandling
  have horder : start.order = order := by cases order <;> rfl
  have hempty : start.values = [] := (List.Perm.nil_eq hstart.seen_perm).symm
  obtain ⟨hsound, hvalues⟩ := hstart.foldl_add (start.offered calls)
  rw [← hfold] at hsound hvalues
  rw [hempty, horder, foldl_keep_nil] at hvalues
  have hlimit : d.limit = limit := by
    rw [hfold, limit_foldl_add]
    rfl
  refine ⟨hvalues, hsound.different, hlimit ▸ hsound.length_le, hsound.seen_perm,
    fun call hreports => after_of_isSaturated (call.isSaturated_of_reports hreports),
    fun hsome call => ?_, fun v hv u hu hsame => ?_⟩
  · obtain ⟨direction, hdirection⟩ := Option.isSome_iff_exists.1 hsome
    have hafter : (call.run d).state.order = some direction := by
      rw [call.state_run, order_foldl_add, hfold, order_foldl_add, horder, hdirection]
    rw [Bool.eq_false_iff]
    intro hreports
    exact Bool.false_ne_true
      ((isSaturated_of_order hafter).symm.trans (call.isSaturated_of_reports hreports))
  · obtain ⟨direction, hout⟩ := hstart.rulesOut_of_mem_handedBackBy hv
    have hlt := hout.before u (hfold ▸ hu)
    rw [sameValue_iff.1 hsame] at hlt
    exact nomatch hlt

/-- Without an order and with room for two values, a column that brings the
second one saturates the collection, and 5 does not get in. In ascending
order and with room for one, 1 takes the place of 3, which is turned away
when it comes again. -/
theorem sound_after_calls_two :
    let one := (Cell.int 1).key
    let two := (Cell.int 2).key
    let three := (Cell.int 3).key
    (let d := (new .int none 2 false).after [.value (some one)]
      let call : Call := .column ⟨.single .int [1, 2, 3], none⟩ 3
      call.reports d = true ∧ (call.run d).state.values = [some one, some two] ∧
      (call.run d).state.after [.cell (.int 5)] = (call.run d).state) ∧
    (let start := new .int (some .asc) 1 false
      let calls : List Call := [.cell (.int 3), .cell (.int 1), .cell (.int 3)]
      start.handedBackBy (start.offered calls) = [some three, some three] ∧
      (∀ call : Call, call.reports (start.after calls) = false) ∧
      ∀ u ∈ (start.after calls).values, ¬ sameValue u (some three)) := by
  intro one two three
  obtain ⟨-, -, -, -, hsaturated, -⟩ := sound_after_calls .int none 2 false [.value (some one)]
  obtain ⟨-, -, -, -, -, hopen, hback⟩ := sound_after_calls .int (some .asc) 1 false
    [.cell (.int 3), .cell (.int 1), .cell (.int 3)]
  refine ⟨⟨by decide +kernel, by decide +kernel, hsaturated _ (by decide +kernel) _⟩,
    by decide +kernel, hopen rfl, hback (some three) ?_⟩
  decide +kernel

end DistinctValues

end SegmentQuery
