import SegmentQuery.Proofs.Broker.Answers
import SegmentQuery.Proofs.Broker.Interchange
import SegmentQuery.Proofs.Result.Holding
/-!
# What the group limit flag tells

Segments, servers and the broker all stop at the group limit. A segment
or a server that drops a group for the limit raises the flag, and the flag
reaches the response. The broker drops groups as well, and raises no flag:
where each server is within the limit and all of them together are not,
groups are missing from an answer that does not say so. Nor does a segment
raise it when it drops groups because 32 bits cannot number them.
-/


namespace SegmentQuery

variable {q : Query}

namespace Query

/-- The key tuples of the matching documents of some segments. -/
def matchingTuples (q : Query) (segments : List MemorySegment) : List (List Key) :=
  segments.flatMap fun s => GroupBy.tuplesOf s q.options.nullHandling q.groupBy s.matching

/-- Whether a segment has numbers for all groups that the limit allows: 32
bits write as many as the limit, or as many as there are different tuples. -/
def HasNumbers (q : Query) (s : MemorySegment) : Prop :=
  q.options.numGroupsLimit ≤ Number.bound32 ∨
    (Key.differentTuples (GroupBy.tuplesOf s q.options.nullHandling q.groupBy
      s.matching)).length ≤ Number.bound32

/-- The key tuple of a row of a group table. -/
def rowTuple (q : Query) (row : Row) : List Key := (row.take q.groupBy.length).map Cell.key

end Query

open GroupTable

/-- A result of grouping some tuples: a sound table, which holds all of
them unless the flag is up. -/
structure PartialResult.Groups (r : PartialResult) (q : Query) (tuples : List (List Key))
    (t : GroupTable) : Prop where
  width_eq : r.schema.width = q.groupBy.length + q.functions.length
  rows_eq : r.rows = .groupBy t
  sound : SoundFor q t
  holds : r.stats.groupsLimitReached = false → t.Holds tuples

namespace Broker

open GroupTable

variable {tuples more : List (List Key)}

/-! ## Servers -/

/-- **Merging keeps the groups of both results**, or the flag is up. -/
theorem groups_mergeResult {target other r : PartialResult} {t o : GroupTable}
    (htarget : target.Groups q tuples t) (hother : other.Groups q more o)
    (h : q.combiner.mergeResult target other = .ok r) :
    ∃ merged, r.Groups q (tuples ++ more) merged := by
  obtain ⟨state, hmerged, hschema, hrows, hreached⟩ :=
    Combiner.of_mergeResult_groupBy htarget.rows_eq hother.rows_eq h
  refine ⟨state.1, hschema ▸ htarget.width_eq, hrows, ?_, fun hflag => ?_⟩
  · exact (addGroup_of_mergeGroups htarget.sound hother.sound (by rw [hmerged]; rfl)).2
  · rw [hreached, Bool.or_eq_false_iff, Bool.or_eq_false_iff] at hflag
    obtain ⟨⟨htargetFlag, hotherFlag⟩, hkept⟩ := hflag
    exact Combiner.holds_mergeGroups hmerged hkept (htarget.holds htargetFlag)
      (hother.holds hotherFlag)

/-- One result after the other. -/
theorem groups_foldlM_mergeResult {rest : List PartialResult} {more : List (List (List Key))}
    {first r : PartialResult} (hfirst : ∃ t, first.Groups q tuples t)
    (hrest : List.Forall₂ (fun r tuples => ∃ t, r.Groups q tuples t) rest more)
    (h : rest.foldlM q.combiner.mergeResult first = .ok r) :
    ∃ t, r.Groups q (tuples ++ more.flatten) t := by
  induction hrest generalizing first tuples with
  | nil =>
    obtain rfl := Except.ok.inj h
    rw [List.flatten_nil, List.append_nil]
    exact hfirst
  | @cons other others rest more hother _ ih =>
    obtain ⟨next, hnext, h⟩ := Except.bind_eq_ok.1 h
    obtain ⟨t, hfirst⟩ := hfirst
    obtain ⟨o, hother⟩ := hother
    rw [List.flatten_cons, ← List.append_assoc]
    exact ih (groups_mergeResult hfirst hother hnext) h

variable {segments : List MemorySegment}

/-- **A server keeps the groups of its segments**, or the flag is up. -/
theorem groups_run (hkind : q.kind = .groupBy) (hnumbers : ∀ s ∈ segments, q.HasNumbers s)
    (hclean : (q.run (segments.map MemorySegment.segment)).value.exceptions = []) :
    segments = [] ∨
      ∃ t, (q.run (segments.map MemorySegment.segment)).value.Groups q
        (q.matchingTuples segments) t := by
  rcases Query.of_run hclean with hnil | ⟨first, rest, r, houtcomes, hfold, hrun⟩
  · exact .inl hnil
  · refine .inr ?_
    rw [hrun]
    have hone : ∀ s ∈ segments, ∀ r, (q.runOver (MemorySegment.segment s)).value = .ok r →
        ∃ t, r.Groups q (GroupBy.tuplesOf s q.options.nullHandling q.groupBy s.matching) t := by
      intro s hs r h
      rw [Query.runOver, hkind] at h
      obtain ⟨t, hrows, hsound⟩ := GroupBy.sound_run h
      refine ⟨t, GroupBy.width_run h, hrows, hsound, fun hflag => ?_⟩
      obtain ⟨t', hrows', hholds⟩ := GroupBy.holds_run (hnumbers s hs) h hflag
      obtain rfl : t = t' := ResultRows.groupBy.inj (hrows.symm.trans hrows')
      exact hholds
    obtain ⟨s, rest', hs, hrest, rfl⟩ := List.forall₂_cons_right_iff.1 houtcomes
    obtain ⟨hfirst, hothers⟩ := List.forall_mem_cons.1 hone
    rw [Query.matchingTuples, List.flatMap_cons, List.flatMap_def]
    refine groups_foldlM_mergeResult (hfirst first hs) ?_ hfold
    rw [List.forall₂_map_right_iff]
    have hpairs := List.forall₂_iff_zip.1 hrest
    exact (List.forall₂_iff_zip.2 ⟨hpairs.1, fun {s r} hmem =>
      hothers s (List.of_mem_zip hmem).1 r (hpairs.2 hmem)⟩).flip

/-! ## Tables -/

/-- A table of the groups of some tuples: it has columns, and its rows are
those of a sound group table that holds the tuples. -/
structure TableOfTuples (q : Query) (tuples : List (List Key)) (t : DataTable)
    (groups : GroupTable) : Prop where
  columns : t.schema.isEmpty = false
  allRows_eq : t.allRows = groups.groups.map rowOf
  sound : SoundFor q groups
  holds : groups.Holds tuples

/-- **What a server hands on** without the flag is a table of all its
tuples, or has no columns if it has no segments. -/
theorem tableOfTuples_server (hkind : q.kind = .groupBy)
    (hnumbers : ∀ s ∈ segments, q.HasNumbers s) (hcolumns : q.groupBy ≠ [] ∨ q.functions ≠ [])
    (hclean : (q.run (segments.map MemorySegment.segment)).value.exceptions = []) {t : DataTable}
    (ht : DataTable.ofPartial (q.run (segments.map MemorySegment.segment)).value = .ok t)
    (hflag : t.stats.groupsLimitReached = false) :
    (segments = [] ∧ t.schema.isEmpty) ∨
      ∃ groups, TableOfTuples q (q.matchingTuples segments) t groups := by
  obtain ⟨hrows, hschema⟩ := DataTable.allRows_ofPartial ht
  rcases groups_run hkind hnumbers hclean with rfl | ⟨groups, h⟩
  · rw [List.map_nil, Query.value_run_nil] at hschema
    exact .inl ⟨rfl, by rw [hschema]; rfl⟩
  · refine .inr ⟨groups, ?_, ?_, h.sound, h.holds ?_⟩
    · exact isEmpty_schema_of_width hcolumns (hschema ▸ h.width_eq)
    · rw [hrows, h.rows_eq]
      rfl
    · rw [← DataTable.groupsLimitReached_ofPartial ht]
      exact hflag

theorem matchingTuples_append (q : Query) (front back : List MemorySegment) :
    q.matchingTuples (front ++ back) = q.matchingTuples front ++ q.matchingTuples back :=
  List.flatMap_append

section

variable {servers : List (List MemorySegment)} {tables : List DataTable}

/-- **The rows that reach the broker** without a flag are groups of all
tuples, and of no others. -/
theorem exists_groups_of_servers (hkind : q.kind = .groupBy)
    (hnumbers : ∀ server ∈ servers, ∀ s ∈ server, q.HasNumbers s)
    (hcolumns : q.groupBy ≠ [] ∨ q.functions ≠ [])
    (hclean : ∀ server ∈ servers,
      (q.run (server.map MemorySegment.segment)).value.exceptions = [])
    (htables : List.Forall₂ (fun server t =>
      DataTable.ofPartial (q.run (server.map MemorySegment.segment)).value = .ok t)
      servers tables)
    (hflags : ∀ t ∈ tables, t.stats.groupsLimitReached = false) :
    ∃ groups : List (List Key × Row),
      allRows (tables.filter fun t => !t.schema.isEmpty) = groups.map rowOf ∧
      (∀ g ∈ groups, Proper q.groupBy.length g.1) ∧
      ∀ tuple, (∃ a ∈ groups.map Prod.fst, Key.sameTuple a tuple) ↔
        ∃ a ∈ q.matchingTuples servers.flatten, Key.sameTuple a tuple := by
  induction htables with
  | nil => exact ⟨[], rfl, by simp, by simp [Query.matchingTuples]⟩
  | @cons server t servers tables ht _ ih =>
    obtain ⟨hserver, hservers⟩ := List.forall_mem_cons.1 hclean
    obtain ⟨hnumber, hnumbers⟩ := List.forall_mem_cons.1 hnumbers
    obtain ⟨hflag, hflags⟩ := List.forall_mem_cons.1 hflags
    obtain ⟨groups, hrows, hproper, hsame⟩ := ih hnumbers hservers hflags
    rcases tableOfTuples_server hkind hnumber hcolumns hserver ht hflag with
      ⟨rfl, hempty⟩ | ⟨table, htable⟩
    · rw [List.filter_cons_of_neg (by simp [hempty])]
      exact ⟨groups, hrows, hproper, hsame⟩
    · rw [List.filter_cons_of_pos (by simp [htable.columns]), List.flatten_cons,
        matchingTuples_append]
      refine ⟨table.groups ++ groups, ?_, ?_, fun tuple => ?_⟩
      · rw [List.map_append, ← hrows, ← htable.allRows_eq]
        exact List.flatMap_cons
      · exact List.forall_mem_append.2 ⟨htable.sound.proper, hproper⟩
      · have hholds := (holds_groups table tuple).symm.trans (htable.holds tuple)
        simp only [List.map_append, List.mem_append, or_and_right, exists_or, hholds, hsame]

/-! ## The broker -/

/-- Rows that go through leave a sound table. -/
theorem sound_foldlM_addGroup {groups : List (List Key × Row)}
    (hproper : ∀ g ∈ groups, Proper q.groupBy.length g.1) {t t' : GroupTable} (ht : SoundFor q t)
    (h : (groups.map rowOf).foldlM (addGroup q) t = .ok t') : SoundFor q t' := by
  induction groups generalizing t with
  | nil =>
    obtain rfl := Except.ok.inj h
    exact ht
  | cons g groups ih =>
    obtain ⟨hg, hgroups⟩ := List.forall_mem_cons.1 hproper
    obtain ⟨next, hnext, h⟩ := Except.bind_eq_ok.1 h
    exact ih hgroups (sound_addGroup hg ht hnext) h

/-- **One group** is taken in while all the tuples fit. -/
theorem holds_addGroup {g : List Key × Row} (hg : Proper q.groupBy.length g.1)
    {others : List (List Key)} (hfit : others.length ≤ q.options.numGroupsLimit)
    (hin : ∀ a ∈ tuples ++ [g.1], ∃ b ∈ others, Key.sameTuple b a) {t t' : GroupTable}
    (ht : SoundFor q t) (hholds : t.Holds tuples) (h : addGroup q t (rowOf g) = .ok t') :
    t'.Holds (tuples ++ [g.1]) := by
  rw [addGroup_rowOf hg] at h
  cases hfind : t.find? g.1 with
  | some current =>
    rw [hfind] at h
    obtain ⟨row, -, rfl⟩ := Except.map_eq_ok.1 h
    exact hholds.insert row
  | none =>
    have hroom : t.size < q.options.numGroupsLimit :=
      (hholds.size_lt ht.ordered hfind hin).trans_le hfit
    rw [hfind] at h
    obtain rfl := Except.ok.inj h
    rw [if_pos hroom]
    exact hholds.insert g.2

/-- One group after the other. -/
theorem holds_foldlM_addGroup {groups : List (List Key × Row)}
    (hproper : ∀ g ∈ groups, Proper q.groupBy.length g.1) {others : List (List Key)}
    (hfit : others.length ≤ q.options.numGroupsLimit)
    (hin : ∀ a ∈ tuples ++ groups.map Prod.fst, ∃ b ∈ others, Key.sameTuple b a)
    {t t' : GroupTable} (ht : SoundFor q t) (hholds : t.Holds tuples)
    (h : (groups.map rowOf).foldlM (addGroup q) t = .ok t') :
    t'.Holds (tuples ++ groups.map Prod.fst) := by
  induction groups generalizing t tuples with
  | nil =>
    obtain rfl := Except.ok.inj h
    rw [List.map_nil, List.append_nil]
    exact hholds
  | cons g groups ih =>
    obtain ⟨hg, hgroups⟩ := List.forall_mem_cons.1 hproper
    obtain ⟨next, hnext, h⟩ := Except.bind_eq_ok.1 h
    rw [List.map_cons, List.append_cons] at hin ⊢
    have hfirst := holds_addGroup hg hfit (fun a ha => hin a (List.mem_append_left _ ha)) ht hholds
      hnext
    exact ih hgroups hin (sound_addGroup hg ht hnext) hfirst h

/-- **What the group limit flag tells.** Where a response to a grouping
does not have the flag, no segment that has numbers for its groups and no
server has dropped a group: each server's table has a row for every tuple of
its matching documents. The broker has dropped none exactly when the
different tuples of all servers are within the limit; where they are not,
groups are missing and the flag does not tell. -/
theorem groups_of_flag_down (q : Query) (hkind : q.kind = .groupBy)
    (hcolumns : q.groupBy ≠ [] ∨ q.functions ≠ []) (servers : List (List MemorySegment))
    (hnumbers : ∀ server ∈ servers, ∀ s ∈ server, q.HasNumbers s)
    (hclean : ∀ server ∈ servers,
      (q.run (server.map MemorySegment.segment)).value.exceptions = [])
    (tables : List DataTable)
    (htables : List.Forall₂ (fun server t =>
      DataTable.ofPartial (q.run (server.map MemorySegment.segment)).value = .ok t)
      servers tables)
    (hflag : (reduce q tables).stats.groupsLimitReached = false) :
    List.Forall₂ (fun server t => ∀ tuple ∈ q.matchingTuples server,
      ∃ row ∈ t.allRows, Key.sameTuple (q.rowTuple row) tuple) servers tables ∧
    ∀ groups, mergedGroups q (tables.filter fun t => !t.schema.isEmpty) = .ok groups →
      ((∀ tuple ∈ q.matchingTuples servers.flatten, (groups.find? tuple).isSome) ↔
        (Key.differentTuples (q.matchingTuples servers.flatten)).length ≤
          q.options.numGroupsLimit) := by
  rw [stats_reduce, ExecutionStats.groupsLimitReached_foldl, Bool.false_or] at hflag
  have hflags : ∀ t ∈ tables, t.stats.groupsLimitReached = false := by
    simpa using List.any_eq_false.1 hflag
  refine ⟨?_, fun groups hgroups => ?_⟩
  · -- each table on its own
    have hpairs := List.forall₂_iff_zip.1 htables
    refine List.forall₂_iff_zip.2 ⟨hpairs.1, fun {server t} hmem tuple htuple => ?_⟩
    obtain ⟨hserver, ht⟩ := List.of_mem_zip hmem
    rcases tableOfTuples_server hkind (hnumbers server hserver) hcolumns (hclean server hserver)
      (hpairs.2 hmem) (hflags t ht) with ⟨rfl, -⟩ | ⟨table, htable⟩
    · exact absurd htuple List.not_mem_nil
    · obtain ⟨a, ha, hsame⟩ := (holds_groups table tuple).1
        ((htable.holds tuple).2 ⟨tuple, htuple, Key.sameTuple_refl tuple⟩)
      obtain ⟨g, hg, rfl⟩ := List.mem_map.1 ha
      refine ⟨rowOf g, htable.allRows_eq ▸ List.mem_map_of_mem hg, ?_⟩
      rwa [Query.rowTuple, key_take_rowOf (htable.sound.proper g hg)]
  · obtain ⟨all, hrows, hproper, hsame⟩ :=
      exists_groups_of_servers hkind hnumbers hcolumns hclean htables hflags
    rw [mergedGroups, hrows] at hgroups
    have hsound := sound_foldlM_addGroup hproper sound_empty hgroups
    constructor
    · -- the different tuples all have groups, and there are no more groups than the limit
      intro hall
      refine le_trans ?_ ((List.length_map (f := Prod.fst)).trans_le hsound.size_le)
      refine Key.length_le_of_different (Key.different_differentTuples _) fun a ha => ?_
      exact (holds_groups groups a).1 (hall a (Key.mem_of_mem_differentTuples ha))
    · -- the different tuples fit, so each finds room
      intro hfit tuple htuple
      have hin : ∀ a ∈ [] ++ all.map Prod.fst,
          ∃ b ∈ Key.differentTuples (q.matchingTuples servers.flatten), Key.sameTuple b a :=
        fun a ha => (Key.exists_mem_differentTuples_iff _ a).2
          ((hsame a).1 ⟨a, ha, Key.sameTuple_refl a⟩)
      have hholds := holds_foldlM_addGroup hproper hfit hin sound_empty holds_empty hgroups
      exact (hholds tuple).2 ((hsame tuple).2 ⟨tuple, htuple, Key.sameTuple_refl tuple⟩)

end

/-- Two servers with one integer each are within a limit of one group. The
broker drops the second integer, and the flag is down. -/
theorem groups_of_flag_down_two :
    let servers := [[integers [1] (by decide)], [integers [2] (by decide)]]
    ∃ tables groups, List.Forall₂ (fun server t =>
        DataTable.ofPartial (counted.run (server.map MemorySegment.segment)).value = .ok t)
        servers tables ∧
      (reduce counted tables).stats.groupsLimitReached = false ∧
      mergedGroups counted (tables.filter fun t => !t.schema.isEmpty) = .ok groups ∧
      ¬ ∀ tuple ∈ counted.matchingTuples servers.flatten, (groups.find? tuple).isSome := by
  intro servers
  have hanswer : ((servers.mapM fun server =>
        DataTable.ofPartial (counted.run (server.map MemorySegment.segment)).value) >>= fun tables =>
      (mergedGroups counted (tables.filter fun t => !t.schema.isEmpty)).map fun _ =>
        (reduce counted tables).stats.groupsLimitReached).toOption = some false := by
    decide +kernel
  obtain ⟨tables, htables, hanswer⟩ := Except.bind_eq_ok.1 (Except.toOption_eq_some.1 hanswer)
  obtain ⟨groups, hgroups, hflag⟩ := Except.map_eq_ok.1 hanswer
  have htables := Except.mapM_eq_ok.1 htables
  have hclean : ∀ server ∈ servers,
      (counted.run (server.map MemorySegment.segment)).value.exceptions = [] := by
    decide +kernel
  have htwo : ¬ (Key.differentTuples (counted.matchingTuples servers.flatten)).length ≤
      counted.options.numGroupsLimit := by
    decide +kernel
  have hall := (groups_of_flag_down counted rfl (.inl (List.cons_ne_nil _ _)) servers
    (fun _ _ _ _ => .inl (by decide)) hclean tables htables hflag).2 groups hgroups
  exact ⟨tables, groups, htables, hflag, hgroups, fun h => htwo (hall.1 h)⟩

end Broker

end SegmentQuery
