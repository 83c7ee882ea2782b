import SegmentQuery.Proofs.Operator.GroupedTuples
import SegmentQuery.Proofs.Result.Combining
/-!
# Tables that hold all tuples

A group table holds some tuples when these are the ones it finds. A table
that a segment or a server hands on without the limit flag holds the
tuples of all matching documents: no group has been dropped on the way.
-/


namespace SegmentQuery

open Std (TransCmp)

namespace GroupTable

/-- A table whose groups are those of some tuples. -/
def Holds (t : GroupTable) (tuples : List (List Key)) : Prop :=
  ∀ tuple, (t.find? tuple).isSome ↔ ∃ a ∈ tuples, Key.sameTuple a tuple

variable {t : GroupTable} {tuples more : List (List Key)} {tuple : List Key}

theorem holds_empty : Holds empty [] := by simp [Holds, empty, find?]

/-- A table in order holds the tuples of its groups. -/
theorem holds_groups (t : GroupTable) : t.Holds (t.groups.map Prod.fst) := by
  intro tuple
  simp [isSome_find?_iff, Key.sameTuple_iff]

/-- What a table holds counts up to tuples that are one. -/
theorem Holds.congr (h : t.Holds tuples)
    (hsame : ∀ tuple, (∃ a ∈ tuples, Key.sameTuple a tuple) ↔ ∃ a ∈ more, Key.sameTuple a tuple) :
    t.Holds more := fun tuple => (h tuple).trans (hsame tuple)

/-- A table holds what is put in. -/
theorem Holds.insert (h : t.Holds tuples) (aggregates : Row) :
    (t.insert tuple aggregates).Holds (tuples ++ [tuple]) := by
  intro other
  rw [isSome_find?_insert, h other, ← Key.sameTuple_iff]
  simp only [List.mem_append, List.mem_singleton]
  constructor
  · rintro (hsame | ⟨a, ha, hsame⟩)
    · exact ⟨tuple, .inr rfl, hsame⟩
    · exact ⟨a, .inl ha, hsame⟩
  · rintro ⟨a, ha | rfl, hsame⟩
    · exact .inr ⟨a, ha, hsame⟩
    · exact .inl hsame

/-- The tuples of a table in order are different. -/
theorem different_of_ordered {groups : List (List Key × Row)} (h : Ordered groups) :
    Key.Different (groups.map Prod.fst) := by
  refine List.pairwise_map.2 (h.imp fun hlt hsame => ?_)
  exact nomatch hlt.symm.trans (Key.sameTuple_iff.1 hsame)

/-- **A table in order has no more groups than there are tuples to
hold.** -/
theorem Holds.size_le (h : t.Holds tuples) (hordered : Ordered t.groups)
    {others : List (List Key)} (hin : ∀ a ∈ tuples, ∃ b ∈ others, Key.sameTuple b a) :
    t.size ≤ others.length := by
  refine le_of_eq_of_le (List.length_map (f := Prod.fst)).symm ?_
  refine Key.length_le_of_different (different_of_ordered hordered) fun a ha => ?_
  obtain ⟨c, hc, hsame⟩ := (h a).1 ((holds_groups t a).2 ⟨a, ha, Key.sameTuple_refl a⟩)
  obtain ⟨b, hb, hsame'⟩ := hin c hc
  exact ⟨b, hb, Key.sameTuple_trans hsame' hsame⟩

/-- While a tuple is missing there are more to hold than groups. -/
theorem Holds.size_lt (h : t.Holds tuples) (hordered : Ordered t.groups)
    (hnew : t.find? tuple = none) {others : List (List Key)}
    (hin : ∀ a ∈ tuples ++ [tuple], ∃ b ∈ others, Key.sameTuple b a) : t.size < others.length := by
  have hsize : (t.insert tuple []).size = t.size + 1 :=
    (perm_insertSorted (find?_eq_none.1 hnew)).length_eq
  have hle := (h.insert []).size_le (ordered_insertSorted hordered) hin
  omega

end GroupTable

/-! ## Segments -/

namespace GroupBy

open GroupKeys GroupTable

variable {s : MemorySegment} {groupBy : List String} {functions : List AggregateFunction}

/-- The table of a finished scan holds the tuples that are numbered. -/
theorem holds_table {state : State} {tuples : List (List Key)}
    (hall : state.keys.tuples = Key.differentTuples tuples) {t : GroupTable}
    (h : table functions state = .ok t) : t.Holds tuples := by
  obtain ⟨rows, hrows, hperm⟩ := perm_table (hall ▸ Key.different_differentTuples _) h
  have hlength : state.keys.tuples.length = rows.length := by
    rw [← hrows.length_eq, List.length_zipIdx]
  have hmem (a : List Key) : a ∈ t.groups.map Prod.fst ↔ a ∈ state.keys.tuples := by
    rw [(hperm.map Prod.fst).mem_iff, List.map_fst_zip hlength.le]
  refine (holds_groups t).congr fun tuple => ?_
  rw [← Key.exists_mem_differentTuples_iff tuples, ← hall]
  simp only [hmem]

/-- **A segment that drops no group** hands on a table of the tuples of
all its matching documents. The flag tells of a drop while there are
numbers enough: up to a limit of 32 bits, or for tuples that 32 bits
number. -/
theorem holds_run {options : Options} {r : PartialResult}
    (hnumbers : options.numGroupsLimit ≤ Number.bound32 ∨
      (Key.differentTuples (tuplesOf s options.nullHandling groupBy s.matching)).length ≤
        Number.bound32)
    (h : (run s.segment groupBy functions options).value = .ok r)
    (hflag : r.stats.groupsLimitReached = false) :
    ∃ t, r.rows = .groupBy t ∧
      t.Holds (tuplesOf s options.nullHandling groupBy s.matching) := by
  obtain ⟨-, state, t, -, hstate, htable, hrows, hreached, -⟩ := of_run h
  have hkeys := hstate.keys_eq
  rw [snd_assignAll_new] at hkeys
  -- the flag is down, so every different tuple has a number
  have hall : state.keys.tuples =
      Key.differentTuples (tuplesOf s options.nullHandling groupBy s.matching) := by
    rw [hreached, hkeys] at hflag
    rw [hkeys]
    exact tuples_ofDifferent (le_available_of_flag_down hnumbers hflag)
  exact ⟨t, hrows, holds_table hall htable⟩

end GroupBy

/-! ## Servers -/

namespace Combiner

open GroupTable

variable {c : Combiner} {tuples more : List (List Key)}

/-- **One group** is merged, or it is dropped and the flag is up. -/
theorem holds_mergeGroup {state state' : GroupTable × Bool} {g : List Key × Row}
    (h : (c.mergeGroup state g).toExcept = .ok state')
    (hstate : state.2 = false → state.1.Holds tuples) (hkept : state'.2 = false) :
    state'.1.Holds (tuples ++ [g.1]) := by
  unfold mergeGroup at h
  cases hfind : state.1.find? g.1 with
  | some existing =>
    simp only [hfind, Progress.toExcept_map] at h
    obtain ⟨row, -, rfl⟩ := Except.map_eq_ok.1 h
    exact (hstate hkept).insert row
  | none =>
    simp only [hfind] at h
    split at h
    · obtain rfl := Except.ok.inj h
      exact (hstate hkept).insert g.2
    · obtain rfl := Except.ok.inj h
      exact nomatch hkept

/-- One group after the other. -/
theorem holds_foldlM_mergeGroup {groups : List (List Key × Row)} {state state' : GroupTable × Bool}
    (h : groups.foldlM (fun s g => (c.mergeGroup s g).toExcept) state = .ok state')
    (hstate : state.2 = false → state.1.Holds tuples) (hkept : state'.2 = false) :
    state'.1.Holds (tuples ++ groups.map Prod.fst) := by
  induction groups generalizing state tuples with
  | nil =>
    obtain rfl := Except.ok.inj h
    rw [List.map_nil, List.append_nil]
    exact hstate hkept
  | cons g groups ih =>
    obtain ⟨next, hnext, hrest⟩ := Except.bind_eq_ok.1 h
    have hall := ih hrest (holds_mergeGroup hnext hstate)
    rwa [List.append_assoc] at hall

/-- **One table** is merged into another, or a group is dropped and the
flag is up. -/
theorem holds_mergeGroups {target other : GroupTable} {state : GroupTable × Bool}
    (h : (c.mergeGroups target other).toExcept = .ok state) (hkept : state.2 = false)
    (htarget : target.Holds tuples) (hother : other.Holds more) :
    state.1.Holds (tuples ++ more) := by
  rw [mergeGroups, Progress.toExcept_foldl] at h
  refine (holds_foldlM_mergeGroup h (fun _ => htarget) hkept).congr fun tuple => ?_
  -- the other table's tuples are those it holds
  have hgroups := (holds_groups other tuple).symm.trans (hother tuple)
  simp only [List.mem_append, or_and_right, exists_or, hgroups]

/-- What merging does to group tables and to the flag. -/
theorem of_mergeResult_groupBy {target other r : PartialResult} {t o : GroupTable}
    (ht : target.rows = .groupBy t) (ho : other.rows = .groupBy o)
    (h : c.mergeResult target other = .ok r) :
    ∃ state, (c.mergeGroups t o).toExcept = .ok state ∧ r.schema = target.schema ∧
      r.rows = .groupBy state.1 ∧ r.stats.groupsLimitReached =
        (target.stats.groupsLimitReached || other.stats.groupsLimitReached || state.2) := by
  unfold mergeResult mergeInto at h
  rw [ht, ho] at h
  rcases hmerged : c.mergeGroups t o with ⟨merged, error⟩
  simp only [mergeRows, hmerged] at h
  cases error with
  | some e => cases h
  | none =>
    obtain rfl := Except.ok.inj h
    exact ⟨merged, rfl, rfl, rfl, rfl⟩

end Combiner

end SegmentQuery
