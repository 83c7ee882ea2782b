import SegmentQuery.Proofs.Broker.Aggregates
import SegmentQuery.Proofs.Result.GroupTables
/-!
# Groups merge the same way twice

A server merges whole group tables, the broker takes in their rows one by
one. A row of proper keys reads back as the group it was made of, so both
do the same to a table; and a sound table taken in from the start is put
together again as it was. A table that servers merged can therefore stand
for the tables they merged.
-/


namespace SegmentQuery

open Std (TransCmp)

variable {q : Query}

namespace GroupTable

/-- The row of one group. -/
def rowOf (g : List Key × Row) : Row := g.1.map Key.cell ++ g.2

/-- The keys of a row are the tuple of the group it was made of. -/
theorem key_take_rowOf {keyCount : Nat} {g : List Key × Row} (hg : Proper keyCount g.1) :
    ((rowOf g).take keyCount).map Cell.key = g.1 := by
  rw [rowOf, List.take_append_of_le_length (by simp [hg.1]),
    List.take_of_length_le (by simp [hg.1]), List.map_map]
  exact (List.map_congr_left (g := id) hg.2).trans (List.map_id _)

/-- The other cells are its aggregates. -/
theorem drop_rowOf {keyCount : Nat} {g : List Key × Row} (hg : Proper keyCount g.1) :
    (rowOf g).drop keyCount = g.2 := by
  rw [rowOf, List.drop_append_of_le_length (by simp [hg.1]),
    List.drop_of_length_le (by simp [hg.1])]
  rfl

/-- The sound tables of a query. -/
abbrev SoundFor (q : Query) (t : GroupTable) : Prop :=
  t.Sound q.groupBy.length q.options.numGroupsLimit

end GroupTable

namespace Broker

open GroupTable

/-- A row reads back as the group it was made of. -/
theorem addGroup_rowOf {g : List Key × Row} (hg : Proper q.groupBy.length g.1) (table : GroupTable) :
    addGroup q table (rowOf g) =
      match table.find? g.1 with
      | some current => (mergeOnto q.functions current g.2).map (table.insert g.1)
      | none =>
        .ok (if table.size < q.options.numGroupsLimit then table.insert g.1 g.2 else table) := by
  unfold addGroup
  simp only [key_take_rowOf hg, drop_rowOf hg]
  cases table.find? g.1 with
  | none => rfl
  | some current => cases mergeOnto q.functions current g.2 <;> rfl

/-- A row that goes through leaves a sound table. -/
theorem sound_addGroup {g : List Key × Row} (hg : Proper q.groupBy.length g.1)
    {table table' : GroupTable} (htable : SoundFor q table)
    (h : addGroup q table (rowOf g) = .ok table') : SoundFor q table' := by
  rw [addGroup_rowOf hg] at h
  cases hfind : table.find? g.1 with
  | some current =>
    rw [hfind] at h
    obtain ⟨row, -, rfl⟩ := Except.map_eq_ok.1 h
    exact htable.insert_found hg hfind
  | none =>
    rw [hfind] at h
    obtain rfl := Except.ok.inj h
    split
    · rename_i hroom
      exact htable.insert_new hg hroom
    · exact htable

/-- **One group**: where a server merges it, the broker takes it in with
the same effect. -/
theorem addGroup_of_mergeGroup {g : List Key × Row} (hg : Proper q.groupBy.length g.1)
    {state state' : GroupTable × Bool} (hstate : SoundFor q state.1)
    (h : (q.combiner.mergeGroup state g).toExcept = .ok state') :
    addGroup q state.1 (rowOf g) = .ok state'.1 ∧ SoundFor q state'.1 := by
  obtain ⟨table, dropped⟩ := state
  obtain ⟨tuple, aggregates⟩ := g
  rw [addGroup_rowOf hg]
  unfold Combiner.mergeGroup at h
  simp only at h ⊢ hstate hg
  cases hfind : table.find? tuple with
  | some current =>
    -- both merge onto the group that is there, room or no room
    rw [hfind] at h
    simp only [Progress.toExcept_map] at h
    obtain ⟨row, hrow, rfl⟩ := Except.map_eq_ok.1 h
    have honto : mergeOnto q.functions current aggregates = .ok row := (mergeRow_ok hrow).2
    refine ⟨?_, hstate.insert_found hg hfind⟩
    simp only [honto, Except.map]
  | none =>
    -- both take the group in under the same limit
    rw [hfind] at h
    simp only at h ⊢
    by_cases hroom : table.size < q.options.numGroupsLimit
    · have hroom' : table.size < q.combiner.groupsLimit := hroom
      rw [if_pos hroom'] at h
      obtain rfl := Except.ok.inj h
      rw [if_pos hroom]
      exact ⟨rfl, hstate.insert_new hg hroom⟩
    · have hroom' : ¬ table.size < q.combiner.groupsLimit := hroom
      rw [if_neg hroom'] at h
      obtain rfl := Except.ok.inj h
      rw [if_neg hroom]
      exact ⟨rfl, hstate⟩

/-- What one merge after the other does to a table, one row after the
other does. -/
theorem foldlM_addGroup_of_mergeGroup {groups : List (List Key × Row)}
    (hproper : ∀ g ∈ groups, Proper q.groupBy.length g.1) {state state' : GroupTable × Bool}
    (hstate : SoundFor q state.1)
    (h : groups.foldlM (fun s g => (q.combiner.mergeGroup s g).toExcept) state = .ok state') :
    (groups.map rowOf).foldlM (addGroup q) state.1 = .ok state'.1 ∧ SoundFor q state'.1 := by
  induction groups generalizing state with
  | nil =>
    obtain rfl := Except.ok.inj h
    exact ⟨rfl, hstate⟩
  | cons g groups ih =>
    obtain ⟨hg, hgroups⟩ := List.forall_mem_cons.1 hproper
    obtain ⟨next, hnext, hrest⟩ := Except.bind_eq_ok.1 h
    obtain ⟨hadd, hsound⟩ := addGroup_of_mergeGroup hg hstate hnext
    obtain ⟨hfolds, hmerged⟩ := ih hgroups hsound hrest
    refine ⟨?_, hmerged⟩
    rw [List.map_cons, List.foldlM_cons, hadd]
    exact hfolds

/-- **One table**: where a server merges it, the broker takes in its rows
with the same effect. -/
theorem addGroup_of_mergeGroups {target other merged : GroupTable} (htarget : SoundFor q target)
    (hother : SoundFor q other)
    (h : (q.combiner.mergeGroups target other).toExcept.map (·.1) = .ok merged) :
    other.rows.foldlM (addGroup q) target = .ok merged ∧ SoundFor q merged := by
  obtain ⟨state, hfold, rfl⟩ := Except.map_eq_ok.1 h
  rw [Combiner.mergeGroups, Progress.toExcept_foldl] at hfold
  exact @foldlM_addGroup_of_mergeGroup q _ hother.proper (target, false) state htarget hfold

/-- Groups that go after those of a table, and fit, are appended. -/
theorem foldlM_addGroup_append {front back : List (List Key × Row)}
    (h : SoundFor q ⟨front ++ back⟩) :
    (back.map rowOf).foldlM (addGroup q) ⟨front⟩ = .ok ⟨front ++ back⟩ := by
  induction back generalizing front with
  | nil =>
    rw [List.append_nil]
    rfl
  | cons g back ih =>
    -- the next group is new, goes last and has room
    have hg : Proper q.groupBy.length g.1 := h.proper g (by simp)
    have hsize : front.length + (back.length + 1) ≤ q.options.numGroupsLimit := by
      have := h.size_le
      simpa only [GroupTable.size, List.length_append, List.length_cons] using this
    have hbefore : ∀ g' ∈ front, Key.compareTuples g'.1 g.1 = .lt := fun g' hg' =>
      (List.pairwise_append.1 h.ordered).2.2 g' hg' g List.mem_cons_self
    have hnew : (⟨front⟩ : GroupTable).find? g.1 = none := by
      refine find?_eq_none.2 fun g' hg' heq => ?_
      rw [hbefore g' hg'] at heq
      exact nomatch heq
    have hadd : addGroup q ⟨front⟩ (rowOf g) = .ok ⟨front ++ [g]⟩ := by
      have hroom : (⟨front⟩ : GroupTable).size < q.options.numGroupsLimit := by
        show front.length < _
        omega
      rw [addGroup_rowOf hg, hnew]
      simp only [if_pos hroom, GroupTable.insert, insertSorted_last hbefore]
    rw [List.map_cons, List.foldlM_cons, hadd]
    have happend : front ++ g :: back = front ++ [g] ++ back := by simp
    rw [happend] at h ⊢
    exact ih h

/-- **A sound table is put together again from its rows.** -/
theorem foldlM_addGroup_rows {t : GroupTable} (h : SoundFor q t) :
    t.rows.foldlM (addGroup q) .empty = .ok t :=
  @foldlM_addGroup_append q [] t.groups h

/-- **Tables that servers merge and tables that the broker takes in one
after the other make the same table.** -/
theorem foldlM_addGroup_of_merge {first merged : GroupTable} {rest : List GroupTable}
    (hfirst : SoundFor q first) (hrest : ∀ t ∈ rest, SoundFor q t)
    (h : rest.foldlM (fun target other => (q.combiner.mergeGroups target other).toExcept.map (·.1))
      first = .ok merged) :
    ((first :: rest).flatMap GroupTable.rows).foldlM (addGroup q) .empty = .ok merged ∧
      merged.rows.foldlM (addGroup q) .empty = .ok merged := by
  have hstep : (rest.flatMap GroupTable.rows).foldlM (addGroup q) first = .ok merged ∧
      SoundFor q merged := by
    induction rest generalizing first with
    | nil =>
      obtain rfl := Except.ok.inj h
      exact ⟨rfl, hfirst⟩
    | cons other rest ih =>
      obtain ⟨next, hnext, htail⟩ := Except.bind_eq_ok.1 h
      obtain ⟨hother, hrest⟩ := List.forall_mem_cons.1 hrest
      obtain ⟨hadd, hsound⟩ := addGroup_of_mergeGroups hfirst hother hnext
      obtain ⟨hfolds, hmerged⟩ := ih hsound hrest htail
      refine ⟨?_, hmerged⟩
      rw [List.flatMap_cons, List.foldlM_append, hadd]
      exact hfolds
  refine ⟨?_, foldlM_addGroup_rows hstep.2⟩
  rw [List.flatMap_cons, List.foldlM_append, foldlM_addGroup_rows hfirst]
  exact hstep.1

end Broker

end SegmentQuery
