import SegmentQuery.Proofs.Operator.Occurrences
/-!
# Groupings under a limit

A limit on the groups keeps the first of them whole: the documents of a
tuple that has a number are the same whatever the limit is, and so is what
a function has tallied for it. The flag tells of tuples that the limit has
kept out; tuples that 32 bits are too few for are kept out as well, and it
does not tell of them.
-/


namespace SegmentQuery

namespace GroupBy

open GroupKeys Key

variable {s : MemorySegment} {nullHandling : Bool} {groupBy : List String}
variable {functions : List AggregateFunction} {output : Schema} {multiValue : Bool}
variable {limit all : Nat} {documents : List Nat}

/-! ## The first tuples -/

/-- A limit that all tuples fit numbers as many as 32 bits can. -/
theorem numberedTuples_of_le
    (h : (differentTuples (tuplesOf s nullHandling groupBy documents)).length ≤ all) :
    numberedTuples s nullHandling groupBy all documents =
      (differentTuples (tuplesOf s nullHandling groupBy documents)).take Number.bound32 := by
  rw [numberedTuples, available, Nat.min_comm, ← List.take_take, List.take_of_length_le h]

/-- And no limit numbers more. -/
theorem numberedTuples_leading
    (h : (differentTuples (tuplesOf s nullHandling groupBy documents)).length ≤ all) (limit : Nat) :
    numberedTuples s nullHandling groupBy limit documents <+:
      numberedTuples s nullHandling groupBy all documents := by
  rw [numberedTuples_of_le h, numberedTuples, available, ← List.take_take]
  exact List.take_prefix _ _

theorem nodup_numberedTuples (s : MemorySegment) (nullHandling : Bool) (groupBy : List String)
    (limit : Nat) (documents : List Nat) :
    (numberedTuples s nullHandling groupBy limit documents).Nodup :=
  (different_ofDifferent limit _).nodup

/-! ## Tallies under a limit -/

section

variable (hrows : ∀ d, Placeable multiValue (s.row nullHandling groupBy d))
variable (hleading : numberedTuples s nullHandling groupBy limit documents <+:
  numberedTuples s nullHandling groupBy all documents)

include hleading in
/-- A number stays under a limit that numbers more tuples. -/
theorem find?_of_leading {tuple : List Key} {n : Nat}
    (h : (ofDifferent limit (differentTuples (tuplesOf s nullHandling groupBy documents))).find?
      tuple = some n) :
    (ofDifferent all (differentTuples (tuplesOf s nullHandling groupBy documents))).find? tuple =
      some n := by
  obtain ⟨rest, hrest⟩ := hleading
  have hfirst : List.findIdx? (sameTuple · tuple)
      (numberedTuples s nullHandling groupBy limit documents) = some n := h
  show List.findIdx? (sameTuple · tuple)
    (numberedTuples s nullHandling groupBy all documents) = some n
  simp [← hrest, List.findIdx?_append, hfirst]

include hrows hleading

/-- A document that a limit leaves in is left in where more tuples have
numbers. -/
theorem exists_mem_placed {p : Nat × List Nat}
    (hp : p ∈ (placed s nullHandling groupBy multiValue limit documents).1) :
    ∃ p' ∈ (placed s nullHandling groupBy multiValue all documents).1, p'.1 = p.1 := by
  rw [placed_eq hrows] at hp ⊢
  obtain ⟨d, hd, rfl⟩ := List.mem_map.1 hp
  obtain ⟨hmem, hkept⟩ := List.mem_filter.1 hd
  refine ⟨_, List.mem_map_of_mem (List.mem_filter.2 ⟨hmem, ?_⟩), rfl⟩
  rw [keeps, Bool.or_eq_true, Bool.not_eq_true', List.isEmpty_eq_false_iff_exists_mem] at hkept ⊢
  refine hkept.imp_right fun hsome => ?_
  obtain ⟨n, hn⟩ := hsome
  obtain ⟨tuple, htuple, hfind⟩ := List.mem_filterMap.1 hn
  exact ⟨n, List.mem_filterMap.2 ⟨tuple, htuple, find?_of_leading hleading hfind⟩⟩

/-- **A tally under a limit** has the slots of the first tuples. -/
theorem tally_of_leading {f : AggregateFunction} {view : Nat → GroupSlot}
    (h : tally s nullHandling groupBy multiValue all documents f = .ok view) :
    tally s nullHandling groupBy multiValue limit documents f =
      .ok fun g => if g < (numberedTuples s nullHandling groupBy limit documents).length then view g
        else .fresh f.initial := by
  obtain ⟨hread, hview⟩ := (tally_eq_ok_iff hrows).1 h
  refine (tally_eq_ok_iff hrows).2 ⟨fun p hp => ?_, fun g => ?_⟩
  · obtain ⟨p', hp', heq⟩ := exists_mem_placed hrows hleading hp
    exact heq ▸ hread p' hp'
  · have hg := hview g
    split
    · rename_i hlt
      rw [List.getElem?_eq_getElem (hlt.trans_le hleading.length_le), ← hleading.getElem hlt] at hg
      rwa [List.getElem?_eq_getElem hlt]
    · rename_i hge
      rw [List.getElem?_eq_none (Nat.le_of_not_lt hge)]
      rfl

end

/-! ## Tables under a limit -/

/-- The first things have the first positions. -/
theorem zipIdx_take {α : Type} (xs : List α) (n : Nat) : (xs.take n).zipIdx = xs.zipIdx.take n := by
  refine List.ext_getElem? fun i => ?_
  rw [List.getElem?_take, List.getElem?_zipIdx, List.getElem?_take, List.getElem?_zipIdx]
  split <;> rfl

/-- The pairs of different things with any others that start with one of
the first things are the first pairs. -/
theorem filter_zip_take {α β : Type} [BEq α] [LawfulBEq α] {xs : List α} (h : xs.Nodup)
    (ys : List β) (n : Nat) :
    (xs.zip ys).filter (fun p => p.1 ∈ xs.take n) = (xs.take n).zip (ys.take n) := by
  have hcut : xs.zip ys = (xs.take n).zip (ys.take n) ++ (xs.drop n).zip (ys.drop n) := by
    rw [List.zip, ← List.take_append_drop n (List.zipWith Prod.mk xs ys), List.take_zipWith,
      List.drop_zipWith]
  have hfirst : ∀ p ∈ (xs.take n).zip (ys.take n), decide (p.1 ∈ xs.take n) = true :=
    fun p hp => decide_eq_true (List.of_mem_zip hp).1
  have hlater : ∀ p ∈ (xs.drop n).zip (ys.drop n), ¬ decide (p.1 ∈ xs.take n) = true := by
    intro p hp hmem
    exact List.disjoint_take_drop h (Nat.le_refl n) (of_decide_eq_true hmem) (List.of_mem_zip hp).1
  rw [hcut, List.filter_append, List.filter_eq_self.2 hfirst, List.filter_eq_nil_iff.2 hlater,
    List.append_nil]

section

variable (hrows : ∀ d, Placeable multiValue (s.row nullHandling groupBy d))
variable (hleading : numberedTuples s nullHandling groupBy limit documents <+:
  numberedTuples s nullHandling groupBy all documents)
variable {whole state : State}
variable (hwhole : Absorbed s nullHandling groupBy multiValue functions all documents whole)
variable (hstate : Absorbed s nullHandling groupBy multiValue functions limit documents state)

include hrows hleading hwhole hstate

/-- The aggregates of a number are the same under either limit. -/
theorem groupRow_of_leading {n : Nat}
    (hnumber : n < (numberedTuples s nullHandling groupBy limit documents).length) :
    groupRow functions state.holders n = groupRow functions whole.holders n := by
  have hcount : n < state.keys.count := by rwa [hstate.keys_eq_ofDifferent hrows]
  have hcount' : n < whole.keys.count := by
    rw [hwhole.keys_eq_ofDifferent hrows]
    exact hnumber.trans_le hleading.length_le
  have hcell : ∀ f ∈ functions,
      ((tally s nullHandling groupBy multiValue limit documents f).map fun view =>
        f.extractSlot (view n)) =
      (tally s nullHandling groupBy multiValue all documents f).map fun view =>
        f.extractSlot (view n) := fun f hf => by
    obtain ⟨view, hview⟩ := hwhole.exists_tally hf
    rw [tally_of_leading hrows hleading hview, hview, Except.map, Except.map]
    dsimp only
    rw [if_pos hnumber]
  rw [groupRow_eq hstate.holders hcount, groupRow_eq hwhole.holders hcount']
  exact Except.mapM_congr hcell

/-- **The table under a limit** is that of more groups without those of
later tuples. -/
theorem table_of_leading {t t' : GroupTable} (ht : table functions whole = .ok t)
    (ht' : table functions state = .ok t') :
    (t.groups.map Prod.fst).Perm (numberedTuples s nullHandling groupBy all documents) ∧
      t'.groups = t.groups.filter fun g =>
        g.1 ∈ numberedTuples s nullHandling groupBy limit documents := by
  obtain ⟨rows, hread, hperm⟩ := hwhole.perm_groups hrows ht
  obtain ⟨rows', hread', hperm'⟩ := hstate.perm_groups hrows ht'
  have hlength := (Except.mapM_eq_ok.1 hread).length_eq
  rw [List.length_zipIdx] at hlength
  have hnodup := nodup_numberedTuples s nullHandling groupBy all documents
  have hnumber (n : Nat) := groupRow_of_leading hrows hleading hwhole hstate (n := n)
  have hfirst := List.prefix_iff_eq_take.1 hleading
  generalize (numberedTuples s nullHandling groupBy limit documents).length = count
    at hfirst hnumber
  rw [hfirst] at hread' hperm' ⊢
  -- both tables have the same aggregates under each number that both give
  have hsame : rows' = rows.take count := by
    have hpart := Except.mapM_eq_ok.2 (List.forall₂_take count (Except.mapM_eq_ok.1 hread))
    have hcongr := Except.mapM_congr fun pair (hpair : pair ∈
        ((numberedTuples s nullHandling groupBy all documents).take count).zipIdx) =>
      hnumber pair.2 ((List.snd_lt_of_mem_zipIdx hpair).trans_le (List.length_take_le _ _))
    rw [hread', zipIdx_take, hpart] at hcongr
    exact Except.ok.inj hcongr
  rw [hsame, ← filter_zip_take hnodup] at hperm'
  have hordered : GroupTable.Ordered t.groups := (sound_table hwhole.sound ht).ordered
  have hordered' : GroupTable.Ordered t'.groups := (sound_table hstate.sound ht').ordered
  refine ⟨?_, hordered'.eq_of_perm (hordered.sublist List.filter_sublist) (hperm'.trans ?_)⟩
  · have hfst := hperm.map Prod.fst
    rwa [List.map_fst_zip hlength.le] at hfst
  · exact (hperm.filter _).symm

end

/-! ## Runs under a limit -/

/-- Of different things among the first `m`, the first `n` are those among
the first of both. -/
theorem mem_take_min_iff {α : Type} {xs : List α} (h : xs.Nodup) {a : α} {m : Nat}
    (ha : a ∈ xs.take m) (n : Nat) : a ∈ xs.take (min n m) ↔ a ∈ xs.take n := by
  refine ⟨fun hmin => List.take_subset_take_left xs (Nat.min_le_left n m) hmin, fun hn => ?_⟩
  obtain ⟨i, hi, rfl⟩ := List.mem_take_iff_getElem.1 ha
  obtain ⟨j, hj, heq⟩ := List.mem_take_iff_getElem.1 hn
  obtain rfl : j = i := (List.Nodup.getElem_inj_iff h).1 heq
  exact List.mem_take_iff_getElem.2 ⟨j, by omega, rfl⟩

/-- The flag of a run tells whether the limit kept a tuple out. -/
theorem flag_of_run {options : Options} {r : PartialResult}
    (h : (run s.segment groupBy functions options).value = .ok r) :
    r.stats.groupsLimitReached = decide (options.numGroupsLimit <
        (differentTuples (tuplesOf s options.nullHandling groupBy s.matching)).length ∧
      options.numGroupsLimit ≤ Number.bound32) := by
  obtain ⟨multiValue, state, -, -, hstate, -, -, hreached, -⟩ := of_run h
  rw [hreached, hstate.keys_eq, snd_assignAll_new]
  rfl

/-- **A run under a limit** that numbers fewer tuples makes the part of the
table with these. -/
theorem exists_run_of_leading {options : Options} {whole : PartialResult}
    (hleading :
      numberedTuples s options.nullHandling groupBy options.numGroupsLimit s.matching <+:
        numberedTuples s options.nullHandling groupBy all s.matching)
    (h : (run s.segment groupBy functions { options with numGroupsLimit := all }).value =
      .ok whole) :
    ∃ t r, whole.rows = .groupBy t ∧
      (t.groups.map Prod.fst).Perm
        (numberedTuples s options.nullHandling groupBy all s.matching) ∧
      (run s.segment groupBy functions options).value = .ok r ∧ r.schema = whole.schema ∧
      r.rows = .groupBy ⟨t.groups.filter fun g =>
        g.1 ∈ numberedTuples s options.nullHandling groupBy options.numGroupsLimit
          s.matching⟩ := by
  obtain ⟨multiValue, columns, state, t, hschema, hcolumns, habsorbed, htable, hrows⟩ :=
    absorbed_of_run h
  have hplaceable := placeable_of_schema hschema options.nullHandling
  obtain ⟨source, batches, hsource, hpulls, hbatches, hne⟩ :=
    MemorySegment.exists_scan hcolumns options.nullHandling
  -- what is tallied for more groups is tallied for those within the limit
  obtain ⟨state', houtcome, habsorbed'⟩ := exists_scan_absorbed hcolumns hbatches hschema options
    hne habsorbed.readable fun f hf => by
      obtain ⟨view, hview⟩ := habsorbed.exists_tally hf
      exact ⟨_, tally_of_leading hplaceable hleading hview⟩
  obtain ⟨t', htable'⟩ := habsorbed'.exists_table
  obtain ⟨hperm, hgroups⟩ :=
    table_of_leading hplaceable hleading habsorbed habsorbed' htable htable'
  obtain ⟨r, hrun, hschema', hrows'⟩ := run_of_scan hschema hsource (hpulls ▸ houtcome) htable'
  exact ⟨t, r, hrows, hperm, hrun, hschema',
    hrows'.trans (congrArg (fun groups => ResultRows.groupBy ⟨groups⟩) hgroups)⟩

/-- **A limit on the groups keeps the first of them, complete.** A grouping
says that it refused a group exactly when the matching documents have more
different tuples than the limit, unless 32 bits are too few to number the
tuples that the limit allows. A limit that all tuples fit makes a table of
all that can be numbered. Any other limit whose holders have room makes,
under the same schema, the part of that table with the first tuples, each
with its aggregates. -/
theorem groups_of_limit (s : MemorySegment) (groupBy : List String)
    (functions : List AggregateFunction) (options : Options) :
    let tuples := differentTuples (tuplesOf s options.nullHandling groupBy s.matching)
    (∀ r, (attempt s.segment groupBy functions options).value = .ok r →
      options.numGroupsLimit ≤ Number.bound32 ∨ tuples.length ≤ Number.bound32 →
      (r.stats.groupsLimitReached = true ↔ options.numGroupsLimit < tuples.length)) ∧
    ∀ all whole, tuples.length ≤ all →
      (attempt s.segment groupBy functions { options with numGroupsLimit := all }).value =
        .ok whole →
      ∃ t, whole.rows = .groupBy t ∧
        (t.groups.map Prod.fst).Perm (tuples.take Number.bound32) ∧
        (Allocatable functions options → ∃ r,
          (attempt s.segment groupBy functions options).value = .ok r ∧
          r.schema = whole.schema ∧
          r.rows = .groupBy
            ⟨t.groups.filter fun g => g.1 ∈ tuples.take options.numGroupsLimit⟩) := by
  intro tuples
  refine ⟨fun r h hnumbers => ?_, fun all whole hall h => ?_⟩
  · rw [flag_of_run (of_attempt h).2, decide_eq_true_iff]
    exact ⟨fun hmore => hmore.1, fun hmore => ⟨hmore, by omega⟩⟩
  · have hleading : _ <+: _ := numberedTuples_leading hall options.numGroupsLimit
    obtain ⟨t, r, hrows, hperm, hrun, hschema, hrows'⟩ :=
      exists_run_of_leading hleading (of_attempt h).2
    rw [numberedTuples_of_le hall] at hperm
    refine ⟨t, hrows, hperm, fun hroom => ⟨r, ?_, hschema, ?_⟩⟩
    · rw [attempt_eq_run hroom, hrun]
    · -- a tuple of the table has a number, so only the limit can keep it out
      have hnodup : tuples.Nodup := (different_differentTuples _).nodup
      have hsame : ∀ g ∈ t.groups, decide (g.1 ∈ tuples.take (available options.numGroupsLimit)) =
          decide (g.1 ∈ tuples.take options.numGroupsLimit) := fun g hg =>
        decide_eq_decide.2 (mem_take_min_iff hnodup
          (hperm.mem_iff.1 (List.mem_map_of_mem hg)) options.numGroupsLimit)
      rw [hrows']
      exact congrArg (fun groups => ResultRows.groupBy ⟨groups⟩) (List.filter_congr hsame)

/-- Three tuples, the last of which comes in the middle of a block and gets
no number. -/
theorem groups_of_limit_tagged :
    let functions := [AggregateFunction.sum "v", .count (some "v")]
    let options : Options := { nullHandling := true, numGroupsLimit := 2 }
    let tuples := differentTuples (tuplesOf tagged true ["tags"] tagged.matching)
    ∃ whole t r, tuples.length = 3 ∧
      (attempt tagged.segment ["tags"] functions { options with numGroupsLimit := 3 }).value =
        .ok whole ∧
      whole.rows = .groupBy t ∧ (attempt tagged.segment ["tags"] functions options).value = .ok r ∧
      r.stats.groupsLimitReached = true ∧
      r.rows = .groupBy ⟨t.groups.filter fun g => g.1 ∈ tuples.take 2⟩ := by
  intro functions options tuples
  have hlength : tuples.length = 3 := by decide +kernel
  have hsome : (attempt tagged.segment ["tags"] functions
      { options with numGroupsLimit := 3 }).value.toOption.isSome = true := by decide +kernel
  obtain ⟨whole, hwhole⟩ := Option.isSome_iff_exists.1 hsome
  rw [Except.toOption_eq_some] at hwhole
  obtain ⟨hflag, hrun⟩ := groups_of_limit tagged ["tags"] functions options
  obtain ⟨t, hrows, -, hfirst⟩ := hrun 3 whole hlength.le hwhole
  obtain ⟨r, hr, -, hgroups⟩ := hfirst (.inr (by decide))
  exact ⟨whole, t, r, hlength, hwhole, hrows, hr,
    (hflag r hr (.inl (by decide))).2 (hlength.ge.trans_lt' (by decide)), hgroups⟩

/-! ## Where the limit is not all -/

theorem one_le_bound32 : 1 ≤ Number.bound32 := Nat.le_add_left 1 4294967295

/-- One document, with an array of the first `n` numbers. -/
def counting (n : Nat) : MemorySegment where
  name := "counting"
  numDocs := 1
  columns := [⟨"k", .dimension, ⟨.multi .long [(List.range n).map Int64.ofNat], none⟩⟩]
  blockSize := defaultBlockSize
  sortedColumns := []
  filter := none
  numDocs_le := one_le_bound32
  length_columns := by simp [Column.length, ColumnValues.length]
  names_nodup := by simp
  blockSize_pos := Nat.zero_lt_succ 9999

/-- Its array makes the counted tuples. -/
theorem tuplesOf_counting (n : Nat) (nullHandling : Bool) :
    tuplesOf (counting n) nullHandling ["k"] (counting n).matching = counted n := by
  rw [MemorySegment.matching_of_none rfl]
  have hrow : (counting n).row nullHandling ["k"] 0 =
      [.longArray ((List.range n).map Int64.ofNat)] := by cases nullHandling <;> rfl
  show [0].flatMap _ = _
  rw [List.flatMap_singleton, hrow]
  simp [documentTuples, elementKeys, counted]

/-- It can be grouped by its array under any options. -/
theorem exists_run_counting (n : Nat) (options : Options) :
    ∃ r, (run (counting n).segment ["k"] [] options).value = .ok r := by
  have hschema : schema (counting n).segment ["k"] [] =
      .ok (⟨[⟨"k", .ofStored .long, .dimension⟩]⟩, true) := rfl
  have hcolumns : (Aggregation.fetchedColumns ["k"] []).mapM (counting n).find =
      .ok (counting n).columns := rfl
  have hfetch : (counting n).Fetchable ["k"] := by
    intro e he
    obtain rfl := List.mem_singleton.1 he
    exact ⟨_, rfl, rfl⟩
  obtain ⟨source, batches, hsource, hpulls, hbatches, hne⟩ :=
    MemorySegment.exists_scan hcolumns options.nullHandling
  obtain ⟨state, houtcome, habsorbed⟩ := exists_scan_absorbed hcolumns hbatches hschema options
    hne (fun _ => ⟨hfetch, by simp⟩) (by simp)
  obtain ⟨t, htable⟩ := habsorbed.exists_table
  obtain ⟨r, hrun, -, -⟩ := run_of_scan hschema hsource (hpulls ▸ houtcome) htable
  exact ⟨r, hrun⟩

/-- Where the limit allows more groups than 32 bits can number, tuples past
both are kept out, and the flag stays down. -/
theorem flag_down_of_counting {n : Nat} (hn : n ≤ Number.twoPow 63) {options : Options}
    (hbits : Number.bound32 < options.numGroupsLimit) (hmore : options.numGroupsLimit < n) :
    options.numGroupsLimit < (differentTuples
        (tuplesOf (counting n) options.nullHandling ["k"] (counting n).matching)).length ∧
      ∃ r, (attempt (counting n).segment ["k"] [] options).value = .ok r ∧
        r.stats.groupsLimitReached = false := by
  obtain ⟨r, hr⟩ := exists_run_counting n options
  refine ⟨?_, r, (attempt_eq_run (.inl rfl)).symm ▸ hr, ?_⟩
  · rwa [tuplesOf_counting, differentTuples_counted hn, length_counted]
  · rw [flag_of_run hr]
    exact decide_eq_false fun hflag => absurd hflag.2 (Nat.not_le.2 hbits)

/-- **What a limit changes besides.** How often holders grew is each run's
own, and of tuples past 32 bits the flag does not tell. -/
theorem limited_run_differs :
    (∃ whole r,
      (attempt tagged.segment ["tags"] [.count none]
        { maxInitialCapacity := 1, numGroupsLimit := 3 }).value = .ok whole ∧
      (attempt tagged.segment ["tags"] [.count none]
        { maxInitialCapacity := 1, numGroupsLimit := 1 }).value = .ok r ∧
      r.stats.resizes ≠ whole.stats.resizes) ∧
    let s := counting (Number.bound32 + 2)
    let options : Options := { numGroupsLimit := Number.bound32 + 1 }
    options.numGroupsLimit < (differentTuples (tuplesOf s false ["k"] s.matching)).length ∧
      ∃ r, (attempt s.segment ["k"] [] options).value = .ok r ∧
        r.stats.groupsLimitReached = false := by
  refine ⟨?_, ?_⟩
  · have hgrown : (attempt tagged.segment ["tags"] [.count none]
        { maxInitialCapacity := 1, numGroupsLimit := 3 }).value.map (fun r => r.stats.resizes) =
          .ok 1 := by decide +kernel
    have hsteady : (attempt tagged.segment ["tags"] [.count none]
        { maxInitialCapacity := 1, numGroupsLimit := 1 }).value.map (fun r => r.stats.resizes) =
          .ok 0 := by decide +kernel
    obtain ⟨whole, hwhole, hone⟩ := Except.map_eq_ok.1 hgrown
    obtain ⟨r, hr, hzero⟩ := Except.map_eq_ok.1 hsteady
    exact ⟨whole, r, hwhole, hr, by rw [hone, hzero]; decide⟩
  · exact flag_down_of_counting (by decide) (Nat.lt_add_one _) (Nat.lt_add_one _)

end GroupBy

end SegmentQuery
