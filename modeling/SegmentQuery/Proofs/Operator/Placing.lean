import SegmentQuery.Proofs.Operator.Tabulating
/-!
# The groups that documents are placed in

A block's documents are placed in groups one after the other: each takes
the numbers of its tuples from the keys so far and leaves keys for the
next. Numbering a block keeps exactly the documents that were placed,
whether or not it was the whole block, so two blocks in a row place what
one block of both places.
-/


namespace SegmentQuery

/-! ## Numbers that are given out -/

namespace GroupKeys

variable {g : GroupKeys} {tuple : List Key}

theorem count_le_count_assign (g : GroupKeys) (tuple : List Key) :
    g.count ≤ (g.assign tuple).2.count := by
  obtain ⟨_, -, hassign⟩ | ⟨-, -, hassign⟩ | ⟨-, -, -, hassign⟩ | ⟨-, -, -, hassign⟩ :=
    g.assign_cases tuple <;> simp [hassign, count]

theorem count_le_count_assignAll (g : GroupKeys) (tuples : List (List Key)) :
    g.count ≤ (g.assignAll tuples).2.count := by
  induction tuples generalizing g with
  | nil => exact Nat.le_refl _
  | cons tuple rest ih => exact (g.count_le_count_assign tuple).trans (ih _)

/-- A number that is given out is one of the numbers from then on. -/
theorem lt_of_assign {n : Nat} (h : (g.assign tuple).1 = some n) : n < (g.assign tuple).2.count :=
  (of_find?_eq_some ((g.find?_snd_assign tuple).trans h)).1

theorem lt_of_assignAll {tuples : List (List Key)} {n : Nat} (h : some n ∈ (g.assignAll tuples).1) :
    n < (g.assignAll tuples).2.count := by
  induction tuples generalizing g with
  | nil => exact absurd h List.not_mem_nil
  | cons tuple rest ih =>
    rcases List.mem_cons.1 h with h | h
    · exact (lt_of_assign h.symm).trans_le (count_le_count_assignAll _ rest)
    · exact ih h

end GroupKeys

namespace GroupBy

open GroupKeys

/-! ## Placing documents -/

/-- The groups of one document by its row, none where it is left out, and
the keys afterwards. -/
def place (multiValue : Bool) (keys : GroupKeys) (row : Row) : Option (List Nat) × GroupKeys :=
  if multiValue then
    let assigned := keys.assignAll ((row.flatMap elementKeys).map ([·]))
    (some (assigned.1.filterMap id), assigned.2)
  else
    let assigned := keys.assign (row.map Cell.key)
    (assigned.1.map ([·]), assigned.2)

/-- The documents that are placed, each with its groups, and the keys
afterwards. -/
def placeAll (multiValue : Bool) (read : Nat → Row) (keys : GroupKeys) :
    List Nat → List (Nat × List Nat) × GroupKeys
  | [] => ([], keys)
  | d :: rest =>
    let placed := place multiValue keys (read d)
    let more := placeAll multiValue read placed.2 rest
    ((placed.1.map (d, ·)).toList ++ more.1, more.2)

variable {multiValue : Bool} {read : Nat → Row}

/-- **Placing some documents and then others** places all of them. -/
theorem placeAll_append (keys : GroupKeys) (front back : List Nat) :
    placeAll multiValue read keys (front ++ back) =
      ((placeAll multiValue read keys front).1 ++
          (placeAll multiValue read (placeAll multiValue read keys front).2 back).1,
        (placeAll multiValue read (placeAll multiValue read keys front).2 back).2) := by
  induction front generalizing keys with
  | nil => rfl
  | cons d front ih =>
    rw [List.cons_append, placeAll, placeAll]
    dsimp only
    rw [ih, List.append_assoc]

/-- Documents that are placed are some of those that came. -/
theorem sublist_placeAll (keys : GroupKeys) (documents : List Nat) :
    ((placeAll multiValue read keys documents).1.map Prod.fst).Sublist documents := by
  induction documents generalizing keys with
  | nil => exact List.Sublist.slnil
  | cons d rest ih =>
    rw [placeAll]
    dsimp only
    rw [List.map_append]
    cases (place multiValue keys (read d)).1 with
    | none => exact (ih _).cons d
    | some groups => exact (ih _).cons_cons d

theorem count_le_count_place (keys : GroupKeys) (row : Row) :
    keys.count ≤ (place multiValue keys row).2.count := by
  cases multiValue with
  | true => exact count_le_count_assignAll ..
  | false => exact count_le_count_assign ..

theorem count_le_count_placeAll (keys : GroupKeys) (documents : List Nat) :
    keys.count ≤ (placeAll multiValue read keys documents).2.count := by
  induction documents generalizing keys with
  | nil => exact Nat.le_refl _
  | cons d rest ih => exact (count_le_count_place keys (read d)).trans (ih _)

theorem lt_of_place {keys : GroupKeys} {row : Row} {groups : List Nat}
    (h : (place multiValue keys row).1 = some groups) :
    ∀ g ∈ groups, g < (place multiValue keys row).2.count := by
  intro g hg
  cases multiValue with
  | true =>
    obtain rfl := Option.some.inj h
    obtain ⟨_, hg, rfl⟩ := List.mem_filterMap.1 hg
    exact lt_of_assignAll hg
  | false =>
    obtain ⟨n, hn, rfl⟩ := Option.map_eq_some_iff.1 h
    obtain rfl := List.mem_singleton.1 hg
    exact lt_of_assign hn

/-- **The groups of placed documents** have numbers. -/
theorem lt_of_mem_placeAll {keys : GroupKeys} {documents : List Nat} {p : Nat × List Nat}
    (hp : p ∈ (placeAll multiValue read keys documents).1) :
    ∀ g ∈ p.2, g < (placeAll multiValue read keys documents).2.count := by
  induction documents generalizing keys with
  | nil => exact absurd hp List.not_mem_nil
  | cons d rest ih =>
    rcases List.mem_append.1 hp with hp | hp
    · obtain ⟨groups, hgroups, rfl⟩ := Option.map_eq_some_iff.1 (Option.mem_toList.1 hp)
      exact fun g hg => (lt_of_place hgroups g hg).trans_le (count_le_count_placeAll _ rest)
    · exact ih hp

/-! ## Numbering a block -/

/-- Documents of arrays are all placed, by the numbers of their
elements. -/
theorem assignElements_eq (keys : GroupKeys) (documents : List Nat) :
    assignElements keys (documents.map read) =
        ((placeAll true read keys documents).1.map Prod.snd, (placeAll true read keys documents).2) ∧
      (placeAll true read keys documents).1.map Prod.fst = documents := by
  induction documents generalizing keys with
  | nil => exact ⟨rfl, rfl⟩
  | cons d rest ih =>
    obtain ⟨hassign, hdocuments⟩ := ih (place true keys (read d)).2
    refine ⟨?_, congrArg (d :: ·) hdocuments⟩
    rw [List.map_cons, assignElements]
    exact congrArg (fun p : List (List Nat) × GroupKeys => (_ :: p.1, p.2)) hassign

/-- The numbers that are there, each with its position. -/
def keptOf (numbers : List (Option Nat)) (start : Nat) : List (Nat × Nat) :=
  (numbers.zipIdx start).filterMap fun (number, position) => number.map (·, position)

/-- **Documents of single keys** are placed where they got a number. -/
theorem assignAll_eq (keys : GroupKeys) (front documents : List Nat) :
    ∃ numbers, keys.assignAll ((documents.map read).map fun row => row.map Cell.key) =
        (numbers, (placeAll false read keys documents).2) ∧
      numbers.length = documents.length ∧
      List.Forall₂ (fun kept p => p.2 = [kept.1] ∧ (front ++ documents)[kept.2]? = some p.1)
        (keptOf numbers front.length) (placeAll false read keys documents).1 := by
  induction documents generalizing keys front with
  | nil => exact ⟨[], rfl, rfl, .nil⟩
  | cons d rest ih =>
    obtain ⟨numbers, hassign, hlength, hplaced⟩ :=
      ih (keys.assign ((read d).map Cell.key)).2 (front ++ [d])
    refine ⟨(keys.assign ((read d).map Cell.key)).1 :: numbers, ?_, congrArg (· + 1) hlength, ?_⟩
    · rw [List.map_cons, List.map_cons, assignAll]
      exact congrArg (fun p : List (Option Nat) × GroupKeys => (_ :: p.1, p.2)) hassign
    · rw [List.length_append, List.length_singleton, List.append_assoc] at hplaced
      rw [placeAll, place, keptOf, List.zipIdx_cons, List.filterMap_cons]
      dsimp only [Bool.false_eq_true, if_false]
      cases (keys.assign ((read d).map Cell.key)).1 with
      | none => exact hplaced
      | some n => exact .cons ⟨rfl, by simp⟩ hplaced

/-- Positions of numbers that are there are some of all positions. -/
theorem sublist_keptOf (numbers : List (Option Nat)) :
    ((keptOf numbers 0).map Prod.snd).Sublist (List.range numbers.length) := by
  have hfilter : (keptOf numbers 0).map Prod.snd =
      (numbers.zipIdx.filter (·.1.isSome)).map Prod.snd := by
    rw [keptOf, List.map_filterMap, ← List.filterMap_eq_map, List.filterMap_filter]
    refine List.filterMap_congr fun p _ => ?_
    obtain ⟨number, position⟩ := p
    cases number <;> rfl
  rw [hfilter]
  have hall : numbers.zipIdx.map Prod.snd = List.range numbers.length := by
    rw [List.zipIdx_map_snd, List.range_eq_range']
  exact hall ▸ List.filter_sublist.map _

variable {s : MemorySegment} {nullHandling : Bool} {groupBy : List String}
variable {columns : List MemoryColumn} {documents : List Nat}

/-- What is at some positions is what they stand for. -/
theorem filterMap_eq_of_forall₂ {positions kept : List Nat}
    (h : List.Forall₂ (fun position d => documents[position]? = some d) positions kept) :
    positions.filterMap (documents[·]?) = kept := by
  induction h with
  | nil => rfl
  | cons hget _ ih => rw [List.filterMap_cons_some hget, ih]

/-- **A block without the documents at other positions** is the block of
those documents. -/
theorem restrict_block (hlt : ∀ c ∈ columns, ∀ d ∈ documents, d < c.column.length)
    (hlen : documents.length ≤ Number.bound32)
    {positions kept : List Nat} (hsub : positions.Sublist (List.range documents.length))
    (hkept : List.Forall₂ (fun position d => documents[position]? = some d) positions kept) :
    restrict (MemorySegment.block columns nullHandling documents) positions =
      MemorySegment.block columns nullHandling kept := by
  unfold restrict
  split
  · -- as many positions as there are documents are all positions
    rename_i hall
    obtain rfl := hsub.eq_of_length (hall.trans List.length_range.symm)
    have hlength := hkept.length_eq
    rw [List.length_range] at hlength
    have hwhole : documents = kept := by
      refine List.ext_getElem hlength fun i hi hi' => ?_
      have hget := hkept.get (by simpa using hi) hi'
      simpa [List.getElem?_eq_getElem hi] using hget
    rw [hwhole]
  · rw [MemorySegment.block, MemorySegment.block]
    congr 1
    · exact filterMap_eq_of_forall₂ hkept
    · rw [List.map_map]
      refine List.map_congr_left fun c hc => ?_
      show (c.column.delivered nullHandling documents).select positions =
        c.column.delivered nullHandling kept
      rw [Column.delivered_eq, Column.delivered_eq]
      refine Column.select_select (fun d hd => ?_) hlen hkept
      rw [Column.length_seen]
      exact hlt c hc d hd

/-- **Numbering a block** places its documents, and leaves the block of
those that were placed. -/
theorem groupBlock_eq (hfetch : s.Fetchable groupBy) {extra : List String}
    (hcolumns : (groupBy ++ extra).mapM s.find = .ok columns)
    (hdocuments : ∀ d ∈ documents, d ∈ s.matching) (hlen : documents.length ≤ Number.bound32)
    (multiValue : Bool) (keys : GroupKeys) :
    ∃ groups, groupBlock groupBy.length multiValue keys
          (MemorySegment.block columns nullHandling documents) =
        .ok (groups, MemorySegment.block columns nullHandling
            ((placeAll multiValue (s.row nullHandling groupBy) keys documents).1.map Prod.fst),
          (placeAll multiValue (s.row nullHandling groupBy) keys documents).2) ∧
      groups.toLists =
        (placeAll multiValue (s.row nullHandling groupBy) keys documents).1.map Prod.snd := by
  rw [groupBlock_of_fetchable hfetch hcolumns hdocuments hlen]
  cases multiValue with
  | true =>
    obtain ⟨hassign, hall⟩ := @assignElements_eq (s.row nullHandling groupBy) keys documents
    refine ⟨.multi _, ?_, rfl⟩
    rw [hall]
    simp only [hassign, if_true]
  | false =>
    obtain ⟨numbers, hassign, hlength, hplaced⟩ :=
      @assignAll_eq (s.row nullHandling groupBy) keys [] documents
    have hlt : ∀ c ∈ columns, ∀ d ∈ documents, d < c.column.length := by
      intro c hc d hd
      obtain ⟨e, -, hfind⟩ := exists_of_mem_right (Except.mapM_eq_ok.1 hcolumns) hc
      rw [s.length_columns c (MemorySegment.find_name hfind).1]
      exact MemorySegment.lt_of_mem_matching (hdocuments d hd)
    have hkept : List.Forall₂ (fun position d => documents[position]? = some d)
        ((keptOf numbers 0).map Prod.snd)
        ((placeAll false (s.row nullHandling groupBy) keys documents).1.map Prod.fst) :=
      List.forall₂_map_right_iff.2 (List.forall₂_map_left_iff.2 (hplaced.imp fun _ _ h => h.2))
    refine ⟨.single ((keptOf numbers 0).map Prod.fst), ?_, ?_⟩
    · simp only [hassign, Bool.false_eq_true, if_false]
      rw [← restrict_block hlt hlen (hlength ▸ sublist_keptOf numbers) hkept]
      rfl
    · rw [BlockGroups.toLists, List.map_map]
      exact forall₂_iff_map_eq.1 (hplaced.imp fun _ _ h => h.1.symm)

end GroupBy

end SegmentQuery
