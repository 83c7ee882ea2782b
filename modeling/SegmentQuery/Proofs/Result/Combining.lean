import SegmentQuery.Proofs.Except
import SegmentQuery.Proofs.Progress
import SegmentQuery.Result.Combine
/-!
# Combining without a failure

Combining outcomes leaves no exception exactly when every segment
answered and every merge went through. What is combined is then the first
result with the others merged into it, in order. Results of one kind of
rows keep the first one's schema, and their rows merge as that kind does.
-/


namespace SegmentQuery

theorem Traced.value_sequence {α : Type} (ts : List (Traced α)) :
    (sequence ts).value = ts.map Traced.value := by
  induction ts with
  | nil => rfl
  | cons t ts ih => exact congrArg (t.value :: ·) ih

namespace Combiner

variable {c : Combiner}

/-- Merge a result into another, or fail. -/
def mergeResult (c : Combiner) (target other : PartialResult) : Except QueryError PartialResult :=
  (c.mergeInto target other).toExcept

/-- One more result is merged into what has been combined. -/
theorem step_ok (target other : PartialResult) (exceptions : List ProcessingException) :
    c.step ⟨some target, exceptions⟩ (.ok other) =
      ⟨some (c.mergeInto target other).state,
        exceptions ++ ((c.mergeInto target other).error.map exceptionOf).toList⟩ := rfl

/-- Results that all merge are combined into what the merges yield. -/
theorem foldl_step_ok {rest : List PartialResult} {target r : PartialResult}
    (h : rest.foldlM c.mergeResult target = .ok r) :
    (rest.map Except.ok).foldl c.step ⟨some target, []⟩ = ⟨some r, []⟩ := by
  induction rest generalizing target with
  | nil =>
    obtain rfl := Except.ok.inj h
    rfl
  | cons other rest ih =>
    obtain ⟨merged, hmerge, hrest⟩ := Except.bind_eq_ok.1 h
    have hdone := Progress.toExcept_eq_ok.1 hmerge
    rw [List.map_cons, List.foldl_cons, step_ok, hdone]
    exact ih hrest

/-- The exceptions noted so far stay noted. -/
theorem exceptions_of_foldl_step {outcomes : List (Except QueryError PartialResult)}
    {state : Combining} (h : (outcomes.foldl c.step state).exceptions = []) :
    state.exceptions = [] := by
  induction outcomes generalizing state with
  | nil => exact h
  | cons outcome outcomes ih =>
    have hstep := ih h
    unfold step at hstep
    split at hstep
    · exact absurd hstep (by simp)
    · exact hstep
    · exact (List.append_eq_nil_iff.1 hstep).1

/-- Where no exception is noted, every outcome is a result and all of
them merge. -/
theorem of_foldl_step {outcomes : List (Except QueryError PartialResult)} {target : PartialResult}
    (h : (outcomes.foldl c.step ⟨some target, []⟩).exceptions = []) :
    ∃ (rest : List PartialResult) (r : PartialResult),
      outcomes = rest.map .ok ∧ rest.foldlM c.mergeResult target = .ok r := by
  induction outcomes generalizing target with
  | nil => exact ⟨[], target, rfl, rfl⟩
  | cons outcome outcomes ih =>
    rw [List.foldl_cons] at h
    have hstep := exceptions_of_foldl_step h
    cases outcome with
    | error e => exact absurd hstep (by simp [step])
    | ok other =>
      rw [step_ok] at h hstep
      cases hmerge : c.mergeInto target other with | mk merged error
      rw [hmerge] at h hstep
      cases error with
      | some e => exact absurd hstep (by simp)
      | none =>
        obtain ⟨rest, r, rfl, hrest⟩ := ih h
        refine ⟨other :: rest, r, rfl, ?_⟩
        rw [List.foldlM_cons, mergeResult, hmerge]
        exact hrest

@[simp] theorem addExceptions_nil (r : PartialResult) : r.addExceptions [] = r := by
  obtain ⟨schema, rows, stats, exceptions⟩ := r
  simp [PartialResult.addExceptions]

/-- **Results that all merge are combined into the first with the others
merged into it.** -/
theorem combine_ok {first r : PartialResult} {rest : List PartialResult}
    (h : rest.foldlM c.mergeResult first = .ok r) :
    (c.combine ((first :: rest).map .ok)).value = r := by
  have hfold : ((first :: rest).map Except.ok).foldl c.step {} = ⟨some r, []⟩ := foldl_step_ok h
  simp only [combine, hfold, Option.getD_some, addExceptions_nil]

/-- **Combining without an exception merges a result of every segment.** -/
theorem of_combine {outcomes : List (Except QueryError PartialResult)}
    (h : (c.combine outcomes).value.exceptions = []) :
    outcomes = [] ∨ ∃ (first : PartialResult) (rest : List PartialResult) (r : PartialResult),
      outcomes = (first :: rest).map .ok ∧ rest.foldlM c.mergeResult first = .ok r := by
  have hnone := (List.append_eq_nil_iff.1 h).2
  cases outcomes with
  | nil => exact .inl rfl
  | cons outcome outcomes =>
    refine .inr ?_
    rw [List.foldl_cons] at hnone
    have hstep := exceptions_of_foldl_step hnone
    cases outcome with
    | error e => exact absurd hstep (by simp [step])
    | ok first =>
      obtain ⟨rest, r, rfl, hrest⟩ := of_foldl_step hnone
      exact ⟨first, rest, r, rfl, hrest⟩

/-! ## Results of one kind of rows -/

section

variable {α : Type} {wrap : α → ResultRows} {merge : α → α → Except QueryError α}

/-- What merging does to schemas and rows. -/
theorem map_mergeResult (hne : ∀ a, wrap a ≠ .empty)
    (hmerge : ∀ a b, (c.mergeRows (wrap a) (wrap b)).toExcept.map (·.1) = (merge a b).map wrap)
    {target other : PartialResult} {a b : α} (ha : target.rows = wrap a) (hb : other.rows = wrap b) :
    (c.mergeResult target other).map (fun r => (r.schema, r.rows)) =
      (merge a b).map fun m => (target.schema, wrap m) := by
  have hrows := hmerge a b
  rw [← ha, ← hb] at hrows
  have hnonempty : target.rows ≠ .empty := ha ▸ hne a
  have hunfold : (c.mergeResult target other).map (fun r => (r.schema, r.rows)) =
      ((c.mergeRows target.rows other.rows).toExcept.map (·.1)).map fun m => (target.schema, m) := by
    unfold mergeResult mergeInto
    split
    · rename_i hempty
      exact absurd hempty hnonempty
    · simp only [Progress.toExcept_map]
      cases (c.mergeRows target.rows other.rows).toExcept <;> rfl
  rw [hunfold, hrows]
  cases merge a b <;> rfl

/-- **The rows of one kind merge one after the other, under the first
schema.** -/
theorem map_foldlM_mergeResult (hne : ∀ a, wrap a ≠ .empty)
    (hmerge : ∀ a b, (c.mergeRows (wrap a) (wrap b)).toExcept.map (·.1) = (merge a b).map wrap)
    {rest : List PartialResult} {payloads : List α}
    (hrest : List.Forall₂ (fun r b => r.rows = wrap b) rest payloads)
    {target : PartialResult} {a : α} (ha : target.rows = wrap a) :
    (rest.foldlM c.mergeResult target).map (fun r => (r.schema, r.rows)) =
      (payloads.foldlM merge a).map fun m => (target.schema, wrap m) := by
  induction hrest generalizing target a with
  | nil =>
    show Except.ok (target.schema, target.rows) = Except.ok (target.schema, wrap a)
    rw [ha]
  | @cons other b rest payloads hb _ ih =>
    have hone := map_mergeResult hne hmerge ha hb
    rw [List.foldlM_cons, List.foldlM_cons]
    cases hleft : c.mergeResult target other with
    | error e =>
      cases hright : merge a b with
      | error e' =>
        rw [hleft, hright] at hone
        exact hone
      | ok m =>
        rw [hleft, hright] at hone
        exact nomatch hone
    | ok merged =>
      cases hright : merge a b with
      | error e' =>
        rw [hleft, hright] at hone
        exact nomatch hone
      | ok m =>
        rw [hleft, hright] at hone
        obtain ⟨hschema, hrows⟩ := Prod.mk.inj (Except.ok.inj hone)
        rw [← hschema]
        exact ih hrows

/-- **Where the rows merge, so do the results that hold them.** -/
theorem exists_foldlM_mergeResult (hne : ∀ a, wrap a ≠ .empty)
    (hmerge : ∀ a b, (c.mergeRows (wrap a) (wrap b)).toExcept.map (·.1) = (merge a b).map wrap)
    {rest : List PartialResult} {payloads : List α}
    (hrest : List.Forall₂ (fun r b => r.rows = wrap b) rest payloads)
    {target : PartialResult} {a m : α} (ha : target.rows = wrap a)
    (hm : payloads.foldlM merge a = .ok m) :
    ∃ r, rest.foldlM c.mergeResult target = .ok r ∧ r.schema = target.schema ∧ r.rows = wrap m := by
  have hfold := map_foldlM_mergeResult hne hmerge hrest ha
  rw [hm] at hfold
  obtain ⟨r, hr, hparts⟩ := Except.map_eq_ok.1 hfold
  obtain ⟨hschema, hrows⟩ := Prod.mk.inj hparts
  exact ⟨r, hr, hschema, hrows⟩

end

/-- Rows of aggregates merge as rows of their kind. -/
theorem mergeRows_aggregation (a b : Row) :
    (c.mergeRows (.aggregation a) (.aggregation b)).toExcept.map (·.1) =
      (c.mergeAggregates a b).toExcept.map ResultRows.aggregation := by
  rw [mergeRows, Progress.toExcept_map]
  cases (c.mergeAggregates a b).toExcept <;> rfl

/-- Group tables merge as rows of their kind. -/
theorem mergeRows_groupBy (a b : GroupTable) :
    (c.mergeRows (.groupBy a) (.groupBy b)).toExcept.map (·.1) =
      ((c.mergeGroups a b).toExcept.map (·.1)).map ResultRows.groupBy := by
  rw [mergeRows, Progress.toExcept_map]
  cases (c.mergeGroups a b).toExcept <;> rfl

/-- Collections of distinct values merge as rows of their kind. -/
theorem mergeRows_distinct (a b : DistinctValues) :
    (c.mergeRows (.distinct a) (.distinct b)).toExcept.map (·.1) =
      (a.merge b).map ResultRows.distinct := by
  rw [mergeRows, Progress.toExcept_map, Progress.toExcept_ofExcept]
  cases a.merge b <;> rfl

end Combiner

end SegmentQuery
