import SegmentQuery.Broker.Reduce
import SegmentQuery.Proofs.Result.Combining
/-!
# Aggregates merge the same way twice

A server merges rows of aggregates in place, and refuses rows without a
value for each function; the broker merges as far as both rows go. Where
the server goes through, the broker yields the same row. Each place of it
is the work of that place's function alone.
-/


namespace SegmentQuery

variable {functions : List AggregateFunction} {left right : Row}

namespace Broker

theorem mergeRow_cons (f : AggregateFunction) (l r : Cell) :
    mergeRow (f :: functions) (l :: left) (r :: right) = do
      return (← f.merge l r) :: (← mergeRow functions left right) := by
  unfold mergeRow
  rw [List.zip_cons_cons, List.zip_cons_cons, List.mapM_cons]

/-- Merging slots in place is merging them into a row. -/
theorem toExcept_mergeSlots (hleft : left.length = functions.length)
    (hright : right.length = functions.length) :
    (Combiner.mergeSlots functions left right).toExcept = mergeRow functions left right := by
  induction functions generalizing left right with
  | nil =>
    obtain rfl := List.length_eq_zero_iff.1 hleft
    rfl
  | cons f functions ih =>
    obtain ⟨l, left, rfl⟩ := List.exists_cons_of_length_eq_add_one hleft
    obtain ⟨r, right, rfl⟩ := List.exists_cons_of_length_eq_add_one hright
    have hrest := ih (Nat.succ.inj hleft) (Nat.succ.inj hright)
    rw [Combiner.mergeSlots, mergeRow_cons, ← hrest]
    cases f.merge l r with
    | error e => rfl
    | ok value =>
      show (Progress.map _ _).toExcept = _
      rw [Progress.toExcept_map]
      cases (Combiner.mergeSlots functions left right).toExcept <;> rfl

/-- Where rows have a value for each function nothing of a group's is
out of reach. -/
theorem mergeOnto_eq_mergeRow (hleft : left.length = functions.length)
    (hright : right.length = functions.length) :
    mergeOnto functions left right = mergeRow functions left right := by
  induction functions generalizing left right with
  | nil =>
    obtain rfl := List.length_eq_zero_iff.1 hleft
    rfl
  | cons f functions ih =>
    obtain ⟨l, left, rfl⟩ := List.exists_cons_of_length_eq_add_one hleft
    obtain ⟨r, right, rfl⟩ := List.exists_cons_of_length_eq_add_one hright
    have hrest := ih (Nat.succ.inj hleft) (Nat.succ.inj hright)
    rw [mergeOnto, mergeRow_cons, hrest]

/-- **What a server merges, the broker merges to the same row.** -/
theorem mergeRow_ok {c : Combiner} {row : Row}
    (h : (c.mergeAggregates left right).toExcept = .ok row) :
    mergeRow c.functions left right = .ok row ∧ mergeOnto c.functions left right = .ok row := by
  unfold Combiner.mergeAggregates at h
  split at h
  · rename_i hwidths
    rw [mergeOnto_eq_mergeRow hwidths.1 hwidths.2, ← toExcept_mergeSlots hwidths.1 hwidths.2]
    exact ⟨h, h⟩
  · exact nomatch h

/-! ## Place by place -/

/-- Each place of a merged row has what its function merges there. -/
theorem getElem?_mergeRow {row : Row} (hleft : left.length = functions.length)
    (hright : right.length = functions.length) (h : mergeRow functions left right = .ok row) :
    row.length = functions.length ∧
      ∀ (j : Nat) f, functions[j]? = some f → ∃ l r v, left[j]? = some l ∧ right[j]? = some r ∧
        row[j]? = some v ∧ f.merge l r = .ok v := by
  induction functions generalizing left right row with
  | nil =>
    obtain rfl := List.length_eq_zero_iff.1 hleft
    obtain rfl := Except.ok.inj h
    exact ⟨rfl, fun j f hf => absurd hf (by simp)⟩
  | cons g functions ih =>
    obtain ⟨l, left, rfl⟩ := List.exists_cons_of_length_eq_add_one hleft
    obtain ⟨r, right, rfl⟩ := List.exists_cons_of_length_eq_add_one hright
    rw [mergeRow_cons] at h
    obtain ⟨v, hv, hrest⟩ := Except.bind_eq_ok.1 h
    obtain ⟨vs, hvs, hpure⟩ := Except.bind_eq_ok.1 hrest
    obtain rfl := Except.ok.inj hpure
    obtain ⟨hlength, hplaces⟩ := ih (Nat.succ.inj hleft) (Nat.succ.inj hright) hvs
    refine ⟨congrArg (· + 1) hlength, fun j f hf => ?_⟩
    cases j with
    | zero =>
      obtain rfl := Option.some.inj hf
      exact ⟨l, r, v, rfl, rfl, rfl, hv⟩
    | succ j => exact hplaces j f hf

/-- Each place of a row that several rows merge to has what its function
merges there. -/
theorem getElem?_foldlM_mergeRow {rest : List Row} {first row : Row}
    (hfirst : first.length = functions.length) (hrest : ∀ r ∈ rest, r.length = functions.length)
    (h : rest.foldlM (mergeRow functions) first = .ok row) :
    row.length = functions.length ∧
      ∀ (j : Nat) f, functions[j]? = some f → ∃ l v, first[j]? = some l ∧ row[j]? = some v ∧
        (rest.filterMap (·[j]?)).foldlM f.merge l = .ok v := by
  induction rest generalizing first with
  | nil =>
    obtain rfl := Except.ok.inj h
    refine ⟨hfirst, fun j f hf => ?_⟩
    have hlt : j < first.length := hfirst ▸ (List.getElem?_eq_some_iff.1 hf).1
    exact ⟨first[j], first[j], List.getElem?_eq_getElem hlt, List.getElem?_eq_getElem hlt, rfl⟩
  | cons other rest ih =>
    obtain ⟨hother, hrest⟩ := List.forall_mem_cons.1 hrest
    obtain ⟨next, hnext, htail⟩ := Except.bind_eq_ok.1 h
    obtain ⟨hlength, hplaces⟩ := getElem?_mergeRow hfirst hother hnext
    obtain ⟨hrow, hfolds⟩ := ih hlength hrest htail
    refine ⟨hrow, fun j f hf => ?_⟩
    obtain ⟨l, r, v, hl, hr, hv, hmerge⟩ := hplaces j f hf
    obtain ⟨l', v', hl', hv', hfold⟩ := hfolds j f hf
    obtain rfl := Option.some.inj (hv.symm.trans hl')
    refine ⟨l, v', hl, hv', ?_⟩
    rw [List.filterMap_cons, hr, List.foldlM_cons, hmerge]
    exact hfold

/-- Each place of a final row has what its function makes final there. -/
theorem getElem?_finalizeRow {row finals : Row} (hrow : row.length = functions.length)
    (h : finalizeRow functions row = .ok finals) :
    finals.length = functions.length ∧
      ∀ (j : Nat) f, functions[j]? = some f → ∃ v final, row[j]? = some v ∧
        finals[j]? = some final ∧ f.finalize v = .ok final := by
  have hpairs := Except.mapM_eq_ok.1 h
  have hlength := hpairs.length_eq
  rw [List.length_zip, hrow, Nat.min_self] at hlength
  refine ⟨hlength.symm, fun j f hf => ?_⟩
  have hj : j < functions.length := (List.getElem?_eq_some_iff.1 hf).1
  have hjrow : j < row.length := hrow ▸ hj
  have hjfinals : j < finals.length := hlength ▸ hj
  obtain ⟨_, rfl⟩ := List.getElem?_eq_some_iff.1 hf
  have hplace := hpairs.get (by simpa [hrow] using hj) hjfinals
  refine ⟨row[j], finals[j], List.getElem?_eq_getElem hjrow, List.getElem?_eq_getElem hjfinals, ?_⟩
  simpa using hplace

end Broker

end SegmentQuery
