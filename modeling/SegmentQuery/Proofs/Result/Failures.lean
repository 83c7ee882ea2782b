import Mathlib.Algebra.GroupWithZero.Nat
import Mathlib.Data.List.Induction
import SegmentQuery.Proofs.Result.Combining
/-!
# Failures on the way

A segment that failed, or whose result does not merge, takes nothing away
from what the others yield. Combining makes of the results the same
schema, rows and statistics whether failures stand between them or not,
keeps the exceptions that the results bring along, and adds one exception
for each failure, in the order in which they occur. Every counter adds up
over all results, those that did not merge included.
-/


namespace SegmentQuery

/-! ## Counters -/

/-- A counter that each step adds an amount to holds their sum, up to the
greatest counter. -/
theorem Counter.part_foldl {σ α : Type} {step : σ → α → σ} {part : σ → Nat} {amount : α → Nat}
    (hstep : ∀ s a, part s ≤ max64 → part (step s a) = add (part s) (amount a)) (xs : List α)
    {s : σ} (hs : part s ≤ max64) :
    part (xs.foldl step s) = min (part s + (xs.map amount).sum) max64 := by
  induction xs generalizing s with
  | nil => exact (Nat.min_eq_left hs).symm
  | cons x xs ih =>
    have hx : part (step s x) = min (part s + amount x) max64 := hstep s x hs
    rw [List.foldl_cons, ih (hx ▸ Nat.min_le_right _ _), hx, List.map_cons, List.sum_cons]
    omega

namespace ExecutionStats

/-- The counters, which are all statistics but the flag. -/
def counters : List (ExecutionStats → Nat) :=
  [docsScanned, entriesInFilter, entriesPostFilter, totalDocs, segmentsProcessed, segmentsMatched,
    resizes, resizeMillis]

theorem counter_merge {part : ExecutionStats → Nat} (h : part ∈ counters)
    (a b : ExecutionStats) : part (a.merge b) = Counter.add (part a) (part b) := by
  simp only [counters, List.mem_cons, List.not_mem_nil, or_false] at h
  rcases h with rfl | rfl | rfl | rfl | rfl | rfl | rfl | rfl <;> rfl

theorem counter_default {part : ExecutionStats → Nat} (h : part ∈ counters) : part {} = 0 := by
  simp only [counters, List.mem_cons, List.not_mem_nil, or_false] at h
  rcases h with rfl | rfl | rfl | rfl | rfl | rfl | rfl | rfl <;> rfl

/-- **Merging statistics adds each counter up**, and stops at the greatest
one. It makes no difference where on the way that happens. -/
theorem counter_foldl {part : ExecutionStats → Nat} (h : part ∈ counters)
    (xs : List ExecutionStats) {s : ExecutionStats} (hs : part s ≤ Counter.max64) :
    part (xs.foldl merge s) = min (part s + (xs.map part).sum) Counter.max64 :=
  Counter.part_foldl (fun s x _ => counter_merge h s x) xs hs

end ExecutionStats

namespace Combiner

variable {c : Combiner}

/-! ## What is answered and what fails -/

/-- The results among the outcomes. -/
def answered (outcomes : List (Except QueryError PartialResult)) : List PartialResult :=
  outcomes.filterMap Except.toOption

theorem answered_map_ok (results : List PartialResult) :
    answered (results.map .ok) = results := by
  induction results with
  | nil => rfl
  | cons r results ih => exact congrArg (r :: ·) ih

/-- The first result with the others merged into it, each as far as it
goes. -/
def merged (c : Combiner) : List PartialResult → Option PartialResult
  | [] => none
  | first :: rest => some (rest.foldl (fun target other => (c.mergeInto target other).state) first)

/-- How one more outcome fails after the results before it: it is a
failure itself, or a result that does not merge. -/
def failure? (c : Combiner) (before : List PartialResult) :
    Except QueryError PartialResult → Option QueryError
  | .error e => some e
  | .ok other => (c.merged before).bind fun target => (c.mergeInto target other).error

/-- The failures among outcomes, in order of occurrence. -/
def failures (c : Combiner) (outcomes : List (Except QueryError PartialResult)) :
    List QueryError :=
  outcomes.zipIdx.filterMap fun item => c.failure? (answered (outcomes.take item.2)) item.1

theorem answered_append (before after : List (Except QueryError PartialResult)) :
    answered (before ++ after) = answered before ++ answered after := List.filterMap_append

theorem merged_append_singleton (results : List PartialResult) (r : PartialResult) :
    c.merged (results ++ [r]) = some (match c.merged results with
      | none => r
      | some target => (c.mergeInto target r).state) := by
  cases results with
  | nil => rfl
  | cons first rest => rw [List.cons_append, merged, List.foldl_append]; rfl

/-- One more outcome adds at most one failure, at the end. -/
theorem failures_append_singleton (outcomes : List (Except QueryError PartialResult))
    (last : Except QueryError PartialResult) :
    c.failures (outcomes ++ [last]) =
      c.failures outcomes ++ (c.failure? (answered outcomes) last).toList := by
  have hbefore : (outcomes.zipIdx.filterMap fun item =>
      c.failure? (answered ((outcomes ++ [last]).take item.2)) item.1) = c.failures outcomes := by
    refine List.filterMap_congr fun item hitem => ?_
    have hlt : item.2 < outcomes.length :=
      (List.getElem?_eq_some_iff.1 (List.mem_zipIdx_iff_getElem?.1 hitem)).1
    rw [List.take_append_of_le_length (Nat.le_of_lt hlt)]
  have hlast : ((outcomes ++ [last]).take (0 + outcomes.length)) = outcomes := by simp
  rw [failures, List.zipIdx_append, List.filterMap_append, hbefore, List.zipIdx_singleton,
    List.filterMap_cons, List.filterMap_nil, hlast]
  cases c.failure? (answered outcomes) last <;> rfl

/-- **What combining has come to.** The results are merged one after the
other as if nothing stood between them, and each failure is noted. -/
theorem foldl_step (outcomes : List (Except QueryError PartialResult)) :
    outcomes.foldl c.step {} =
      ⟨c.merged (answered outcomes), (c.failures outcomes).map exceptionOf⟩ := by
  induction outcomes using List.reverseRecOn with
  | nil => rfl
  | append_singleton outcomes last ih =>
    rw [List.foldl_append, ih, failures_append_singleton, List.map_append, answered_append]
    cases last with
    | error e =>
      show Combining.mk _ _ = Combining.mk (c.merged (answered outcomes ++ [])) _
      rw [List.append_nil]
      rfl
    | ok other =>
      show _ = Combining.mk (c.merged (answered outcomes ++ [other])) _
      rw [merged_append_singleton]
      cases hmerged : c.merged (answered outcomes) with
      | none => simp [step, failure?, hmerged]
      | some target =>
        simp only [List.foldl_cons, List.foldl_nil, step, failure?, hmerged, Option.bind_some]
        cases (c.mergeInto target other).error <;> rfl

/-- **What is combined**: the results merged, with an exception for each
failure at the end. -/
theorem combine_value (outcomes : List (Except QueryError PartialResult)) :
    (c.combine outcomes).value = ((c.merged (answered outcomes)).getD .empty).addExceptions
      ((c.failures outcomes).map exceptionOf) := by
  rw [combine, foldl_step]

/-! ## What merging carries along -/

theorem exceptions_mergeInto (target other : PartialResult) :
    (c.mergeInto target other).state.exceptions = target.exceptions ++ other.exceptions := by
  unfold mergeInto
  split <;> rfl

/-- Counters add up whether or not the rows merge. -/
theorem counter_mergeInto {part : ExecutionStats → Nat} (h : part ∈ ExecutionStats.counters)
    (target other : PartialResult) :
    part (c.mergeInto target other).state.stats = part (target.stats.merge other.stats) := by
  have hflag (s : ExecutionStats) (flag : Bool) :
      part { s with groupsLimitReached := flag } = part s := by
    simp only [ExecutionStats.counters, List.mem_cons, List.not_mem_nil, or_false] at h
    rcases h with rfl | rfl | rfl | rfl | rfl | rfl | rfl | rfl <;> rfl
  unfold mergeInto
  split
  · rfl
  · exact hflag _ _

/-- The exceptions that the results bring along stay in order. -/
theorem exceptions_merged (results : List PartialResult) :
    ((c.merged results).getD .empty).exceptions = results.flatMap PartialResult.exceptions := by
  induction results using List.reverseRecOn with
  | nil => rfl
  | append_singleton results r ih =>
    rw [merged_append_singleton, List.flatMap_append, ← ih, List.flatMap_singleton]
    cases c.merged results with
    | none => rfl
    | some target => exact exceptions_mergeInto target r

/-- Results without an exception merge into one without. -/
theorem exceptions_of_foldlM_mergeResult {rest : List PartialResult} {target r : PartialResult}
    (htarget : target.exceptions = []) (hrest : ∀ other ∈ rest, other.exceptions = [])
    (h : rest.foldlM c.mergeResult target = .ok r) : r.exceptions = [] := by
  induction rest generalizing target with
  | nil =>
    obtain rfl := Except.ok.inj h
    exact htarget
  | cons other rest ih =>
    obtain ⟨hother, hrest⟩ := List.forall_mem_cons.1 hrest
    obtain ⟨merged, hmerge, htail⟩ := Except.bind_eq_ok.1 h
    refine ih ?_ hrest htail
    have hdone := Progress.toExcept_eq_ok.1 hmerge
    have hboth := exceptions_mergeInto (c := c) target other
    rw [hdone, htarget, hother] at hboth
    exact hboth

/-- Every counter adds up over all results. -/
theorem counter_merged {part : ExecutionStats → Nat} (h : part ∈ ExecutionStats.counters)
    {results : List PartialResult} (hle : ∀ r ∈ results, part r.stats ≤ Counter.max64) :
    part ((c.merged results).getD .empty).stats =
      min (results.map fun r => part r.stats).sum Counter.max64 := by
  induction results using List.reverseRecOn with
  | nil => exact (ExecutionStats.counter_default h).trans (Nat.zero_min _).symm
  | append_singleton results r ih =>
    have hbefore := ih fun r' hr' => hle r' (List.mem_append_left _ hr')
    have hr : part r.stats ≤ Counter.max64 := hle r (by simp)
    rw [merged_append_singleton, List.map_append, List.sum_append, List.map_singleton,
      List.sum_singleton]
    cases hmerged : c.merged results with
    | none =>
      -- nothing has been answered before
      obtain rfl : results = [] := by
        cases results with
        | nil => rfl
        | cons _ _ => exact absurd hmerged (by simp [merged])
      simpa using (Nat.min_eq_left hr).symm
    | some target =>
      rw [hmerged] at hbefore
      show part (c.mergeInto target r).state.stats = _
      rw [counter_mergeInto h, ExecutionStats.counter_merge h, Counter.add,
        show part target.stats = _ from hbefore]
      omega

end Combiner

end SegmentQuery
