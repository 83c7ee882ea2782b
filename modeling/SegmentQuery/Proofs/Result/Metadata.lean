import Mathlib.Data.List.Induction
import SegmentQuery.Proofs.Number.Numerals
import SegmentQuery.Proofs.Order.Cells
import SegmentQuery.Result.Table
/-!
# Metadata keeps what is set

Setting a text keeps the names ascending, changes no other text and may
be repeated: metadata is what the list of its entries makes. Statistics
written into metadata under their nine names are read back from there.
-/


namespace SegmentQuery

open Std (ReflCmp OrientedCmp TransCmp LawfulEqCmp)

namespace Metadata

/-! ## Setting -/

theorem lookup_setSorted (name text : String) (entries : List (String × String)) :
    (setSorted name text entries).lookup name = some text := by
  induction entries with
  | nil => simp [setSorted]
  | cons entry rest ih =>
    unfold setSorted
    split
    · simp
    · simp
    · rename_i hgt
      have hne : (name == entry.1) = false := by
        rw [beq_eq_false_iff_ne]
        intro heq
        have hself : Text.compare entry.1 entry.1 = .eq := ReflCmp.compare_self
        rw [heq, hself] at hgt
        exact nomatch hgt
      obtain ⟨other, old⟩ := entry
      rw [List.lookup_cons, hne]
      exact ih

/-- What was set last is there. -/
@[simp] theorem get?_set (m : Metadata) (name text : String) :
    (m.set name text).get? name = some text := lookup_setSorted name text m.entries

theorem lookup_setSorted_of_ne {name other : String} (h : other ≠ name) (text : String)
    (entries : List (String × String)) :
    (setSorted name text entries).lookup other = entries.lookup other := by
  have hne : (other == name) = false := beq_eq_false_iff_ne.2 h
  induction entries with
  | nil => rw [setSorted, List.lookup_cons, hne]
  | cons entry rest ih =>
    obtain ⟨first, old⟩ := entry
    unfold setSorted
    split
    · rw [List.lookup_cons, hne]
    · rename_i heq
      obtain rfl := LawfulEqCmp.eq_of_compare heq
      rw [List.lookup_cons, List.lookup_cons, hne]
    · rw [List.lookup_cons, List.lookup_cons, ih]

/-- Setting a text changes no other one. -/
theorem get?_set_of_ne {name other : String} (h : other ≠ name) (m : Metadata) (text : String) :
    (m.set name text).get? other = m.get? other := lookup_setSorted_of_ne h text m.entries

/-- **Texts set under different names are all there.** -/
theorem get?_foldl_set {entries : List (String × String)} (h : (entries.map Prod.fst).Nodup)
    (m : Metadata) {name text : String} (hmem : (name, text) ∈ entries) :
    (entries.foldl (fun m (name, text) => m.set name text) m).get? name = some text := by
  induction entries using List.reverseRecOn with
  | nil => exact absurd hmem List.not_mem_nil
  | append_singleton entries last ih =>
    obtain ⟨lastName, lastText⟩ := last
    rw [List.map_append, List.map_singleton, List.nodup_append] at h
    rw [List.foldl_append, List.foldl_cons, List.foldl_nil]
    rcases List.mem_append.1 hmem with hmem | hlast
    · have hne : name ≠ lastName :=
        h.2.2 name (List.mem_map_of_mem hmem) lastName (List.mem_singleton_self _)
      rw [get?_set_of_ne hne, ih h.1 hmem]
    · obtain ⟨rfl, rfl⟩ := Prod.mk.inj (List.mem_singleton.1 hlast)
      exact get?_set _ _ _

/-! ## The order of the names -/

/-- The names ascend and are all different. -/
def Sorted (entries : List (String × String)) : Prop :=
  entries.Pairwise fun a b => Text.compare a.1 b.1 = .lt

theorem mem_setSorted {name text : String} {entries : List (String × String)}
    {entry : String × String} (h : entry ∈ setSorted name text entries) :
    entry = (name, text) ∨ entry ∈ entries := by
  induction entries with
  | nil => exact .inl (List.mem_singleton.1 h)
  | cons first rest ih =>
    unfold setSorted at h
    split at h
    · exact List.mem_cons.1 h
    · exact (List.mem_cons.1 h).imp_right (List.mem_cons_of_mem first)
    · rcases List.mem_cons.1 h with rfl | h
      · exact .inr List.mem_cons_self
      · exact (ih h).imp_right (List.mem_cons_of_mem first)

/-- **Setting a text keeps the order.** -/
theorem sorted_setSorted {entries : List (String × String)} (h : Sorted entries)
    (name text : String) : Sorted (setSorted name text entries) := by
  induction entries with
  | nil => exact List.pairwise_singleton _ _
  | cons first rest ih =>
    obtain ⟨hfirst, hrest⟩ := List.pairwise_cons.1 h
    unfold setSorted
    split
    · rename_i hlt
      refine List.pairwise_cons.2 ⟨fun entry hentry => ?_, h⟩
      rcases List.mem_cons.1 hentry with rfl | hentry
      · exact hlt
      · exact TransCmp.lt_trans hlt (hfirst entry hentry)
    · rename_i heq
      have hname : name = first.1 := LawfulEqCmp.eq_of_compare heq
      exact List.pairwise_cons.2 ⟨hname ▸ hfirst, hrest⟩
    · rename_i hgt
      refine List.pairwise_cons.2 ⟨fun entry hentry => ?_, ih hrest⟩
      rcases mem_setSorted hentry with rfl | hentry
      · exact OrientedCmp.lt_of_gt hgt
      · exact hfirst entry hentry

theorem sorted_foldl_set {σ : Type} (f : σ → String × String) (xs : List σ) {m : Metadata}
    (h : Sorted m.entries) :
    Sorted (xs.foldl (fun m x => m.set (f x).1 (f x).2) m).entries := by
  induction xs generalizing m with
  | nil => exact h
  | cons x xs ih => exact ih (m := m.set (f x).1 (f x).2) (sorted_setSorted h _ _)

/-- A name after all others is put at the end. -/
theorem setSorted_of_lt {name : String} {entries : List (String × String)}
    (h : ∀ entry ∈ entries, Text.compare entry.1 name = .lt) (text : String) :
    setSorted name text entries = entries ++ [(name, text)] := by
  induction entries with
  | nil => rfl
  | cons first rest ih =>
    obtain ⟨hfirst, hrest⟩ := List.forall_mem_cons.1 h
    have hgt : Text.compare name first.1 = .gt := OrientedCmp.gt_of_lt hfirst
    rw [setSorted, hgt, List.cons_append]
    exact congrArg (first :: ·) (ih hrest)

/-- **Metadata is what its entries make.** -/
theorem ofList_entries {m : Metadata} (h : Sorted m.entries) : ofList m.entries = m := by
  obtain ⟨entries⟩ := m
  induction entries using List.reverseRecOn with
  | nil => rfl
  | append_singleton entries last ih =>
    obtain ⟨hsorted, -, hlast⟩ := List.pairwise_append.1 h
    have hlt : ∀ entry ∈ entries, Text.compare entry.1 last.1 = .lt := fun entry hentry =>
      hlast entry hentry last (List.mem_singleton_self last)
    have hrest : ofList entries = ⟨entries⟩ := ih hsorted
    rw [ofList] at hrest ⊢
    rw [List.foldl_append, hrest]
    exact congrArg Metadata.mk (setSorted_of_lt hlt last.2)

end Metadata

/-! ## Statistics -/

/-- Statistics are what their counters make. -/
theorem ExecutionStats.ofCounters_eq {s : ExecutionStats} {counter : String → Nat}
    (h : ∀ entry ∈ s.entries, counter entry.1 = entry.2) : ofCounters counter = s := by
  simp only [entries, List.forall_mem_cons] at h
  obtain ⟨hdocs, hfilter, hpost, htotal, hprocessed, hmatched, hresizes, hmillis, hflag, -⟩ := h
  rw [ofCounters, hdocs, hfilter, hpost, htotal, hprocessed, hmatched, hresizes, hmillis, hflag]
  obtain ⟨_, _, _, _, _, _, _, _, flag⟩ := s
  cases flag <;> rfl

namespace DataTable

variable (t : DataTable) (s : ExecutionStats)

theorem metadata_withStats : (t.withStats s).metadata =
    (s.entries.map fun entry => (entry.1, toString entry.2)).foldl
      (fun m (name, text) => m.set name text) t.metadata := by
  rw [List.foldl_map]
  rfl

/-- The metadata of new statistics is in order. -/
theorem sorted_withStats (h : Metadata.Sorted t.metadata.entries) :
    Metadata.Sorted (t.withStats s).metadata.entries :=
  Metadata.sorted_foldl_set (fun entry : String × Nat => (entry.1, s!"{entry.2}")) s.entries h

/-- A counter of 64 bits is read as it was written. -/
theorem counter_withStats {name : String} {n : Nat} (hmem : (name, n) ∈ s.entries)
    (hn : n < Number.bound64) : (t.withStats s).metadata.counter name = n := by
  have hnames : ((s.entries.map fun entry => (entry.1, toString entry.2)).map Prod.fst).Nodup := by
    rw [List.map_map]
    show ["numDocsScanned", "numEntriesScannedInFilter", "numEntriesScannedPostFilter",
      "totalDocs", "numSegmentsProcessed", "numSegmentsMatched", "numResizes", "resizeTimeMs",
      "numGroupsLimitReached"].Nodup
    decide
  have hget := Metadata.get?_foldl_set hnames t.metadata
    (List.mem_map_of_mem (f := fun entry : String × Nat => (entry.1, toString entry.2)) hmem)
  rw [← metadata_withStats] at hget
  rw [Metadata.counter, hget, Option.bind_some, Text.natural?_toString hn, Option.getD_some]

/-- **A table reads the statistics that it was given.** -/
theorem stats_withStats (h : ∀ entry ∈ s.entries, entry.2 < Number.bound64) :
    (t.withStats s).stats = s :=
  ExecutionStats.ofCounters_eq fun entry hentry => counter_withStats t s hentry (h entry hentry)

end DataTable

end SegmentQuery
