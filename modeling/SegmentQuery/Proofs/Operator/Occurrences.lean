import SegmentQuery.Proofs.Aggregate.Reaching
import SegmentQuery.Proofs.Operator.Absorbing
/-!
# The documents of a group

Where a document is placed depends on the documents before it, but the
numbers that it gets are those that its tuples have at the end. A group
is therefore reached by the documents that belong to its tuple, in
document order and each as often as it does, and what a function has
tallied for the group is what these documents make of a fresh slot.
-/


namespace SegmentQuery

namespace GroupBy

open GroupKeys Key

/-! ## Numbers of a document -/

/-- The numbers of a document's tuples, without those that have none. -/
def numbers (keys : GroupKeys) (row : Row) : List Nat := (documentTuples row).filterMap keys.find?

/-- A document can be placed by itself: its row is one cell where a column
of arrays is grouped by, and has no arrays otherwise. -/
def Placeable (multiValue : Bool) (row : Row) : Prop :=
  if multiValue then row.length = 1 else ∀ c ∈ row, c.isMultiValue = false

/-- Whether a document is left in: one of arrays always is, any other where
its tuple has a number. -/
def keeps (multiValue : Bool) (keys : GroupKeys) (row : Row) : Bool :=
  multiValue || !(numbers keys row).isEmpty

variable {multiValue : Bool} {limit : Nat} {row : Row} {read : Nat → Row}

/-- **One document** gets the numbers that its tuples have from then
on. -/
theorem place_ofDifferent (hrow : Placeable multiValue row) (limit : Nat)
    (tuples : List (List Key)) :
    place multiValue (ofDifferent limit (differentTuples tuples)) row =
      let keys := ofDifferent limit (differentTuples (tuples ++ documentTuples row))
      (if keeps multiValue keys row then some (numbers keys row) else none, keys) := by
  cases multiValue with
  | true =>
    have hassign := assignAll_ofDifferent limit tuples (documentTuples row)
    rw [documentTuples_of_length hrow] at hassign
    dsimp only [place, if_true]
    rw [hassign, ← documentTuples_of_length hrow, List.filterMap_map]
    rfl
  | false =>
    have hone : documentTuples row = [row.map Cell.key] := documentTuples_of_single hrow
    dsimp only [place, Bool.false_eq_true, if_false]
    rw [assign_ofDifferent, keeps, Bool.false_or, numbers, hone]
    cases hfind : (ofDifferent limit (differentTuples (tuples ++ [row.map Cell.key]))).find?
        (row.map Cell.key) <;> simp [hfind]

/-- A document keeps the numbers that it got. -/
theorem numbers_append (limit : Nat) {tuples : List (List Key)} (hrow : documentTuples row ⊆ tuples)
    (more : List (List Key)) :
    numbers (ofDifferent limit (differentTuples (tuples ++ more))) row =
      numbers (ofDifferent limit (differentTuples tuples)) row :=
  List.filterMap_congr fun _ htuple => find?_ofDifferent_append limit (hrow htuple) more

/-- **Documents that are placed** have the numbers that their tuples have at
the end. -/
theorem placeAll_ofDifferent (limit : Nat) {documents : List Nat}
    (hrows : ∀ d ∈ documents, Placeable multiValue (read d)) (tuples : List (List Key)) :
    placeAll multiValue read (ofDifferent limit (differentTuples tuples)) documents =
      let keys := ofDifferent limit
        (differentTuples (tuples ++ documents.flatMap fun d => documentTuples (read d)))
      ((documents.filter fun d => keeps multiValue keys (read d)).map fun d =>
        (d, numbers keys (read d)), keys) := by
  induction documents generalizing tuples with
  | nil =>
    rw [List.flatMap_nil, List.append_nil]
    rfl
  | cons d rest ih =>
    obtain ⟨hrow, hrows⟩ := List.forall_mem_cons.1 hrows
    have hstays := numbers_append limit
      (List.subset_append_right tuples (documentTuples (read d)))
      (rest.flatMap fun d => documentTuples (read d))
    rw [placeAll, place_ofDifferent hrow]
    dsimp only
    rw [ih hrows, List.flatMap_cons, ← List.append_assoc, List.filter_cons, keeps, ← hstays,
      ← keeps]
    split <;> rfl

/-! ## Documents of a tuple -/

/-- The documents that belong to a tuple, in document order and each as
often as it does. -/
def occurrences (s : MemorySegment) (nullHandling : Bool) (groupBy : List String)
    (documents : List Nat) (tuple : List Key) : List Nat :=
  documents.flatMap fun d =>
    ((documentTuples (s.row nullHandling groupBy d)).filter (sameTuple tuple ·)).map fun _ => d

/-- The tuples of some documents that have numbers under a limit, each at
its number. -/
def numberedTuples (s : MemorySegment) (nullHandling : Bool) (groupBy : List String) (limit : Nat)
    (documents : List Nat) : List (List Key) :=
  (differentTuples (tuplesOf s nullHandling groupBy documents)).take (available limit)

variable {s : MemorySegment} {nullHandling : Bool} {groupBy : List String}
variable {functions : List AggregateFunction} {output : Schema}

theorem mem_of_mem_occurrences {documents : List Nat} {tuple : List Key} {d : Nat}
    (h : d ∈ occurrences s nullHandling groupBy documents tuple) : d ∈ documents := by
  obtain ⟨d', hd', hmem⟩ := List.mem_flatMap.1 h
  obtain ⟨_, -, rfl⟩ := List.mem_map.1 hmem
  exact hd'

/-- The rows of a segment can be placed as its schema says. -/
theorem placeable_of_schema (h : schema s.segment groupBy functions = .ok (output, multiValue))
    (nullHandling : Bool) (d : Nat) : Placeable multiValue (s.row nullHandling groupBy d) := by
  cases multiValue with
  | true => exact (List.length_map _).trans (length_of_multiValue h rfl)
  | false =>
    intro c hc
    obtain ⟨e, he, rfl⟩ := List.mem_map.1 hc
    exact MemorySegment.isMultiValue_cell (isSingle_of_schema h e he) _ _

/-- Documents that were placed reach a number as often as it is one of
theirs; those that were left out have none. -/
theorem map_reaching {keep : Nat → Bool} {given : Nat → List Nat}
    (hkeep : ∀ d, keep d = false → given d = []) (documents : List Nat) (g : Nat) :
    (GroupHolder.reaching Prod.snd g
        ((documents.filter keep).map fun d => (d, given d))).map Prod.fst =
      documents.flatMap fun d => ((given d).filter (· == g)).map fun _ => d := by
  induction documents with
  | nil => rfl
  | cons d rest ih =>
    rw [List.flatMap_cons, ← ih, List.filter_cons]
    cases hd : keep d with
    | true => simp [GroupHolder.reaching]
    | false => simp [hkeep d hd]

/-- A document has a number as often as tuples that are found under it. -/
theorem map_filter_numbers (keys : GroupKeys) (row : Row) (g d : Nat) :
    ((numbers keys row).filter (· == g)).map (fun _ => d) =
      ((documentTuples row).filter fun tuple => keys.find? tuple == some g).map fun _ => d := by
  rw [numbers]
  induction documentTuples row with
  | nil => rfl
  | cons tuple rest ih =>
    rw [List.filterMap_cons, List.filter_cons]
    cases keys.find? tuple with
    | none => simpa using ih
    | some n =>
      rw [List.filter_cons, Option.some_beq_some]
      split <;> simp [ih]

section

variable (hrows : ∀ d, Placeable multiValue (s.row nullHandling groupBy d))

include hrows

/-- The placed documents of a segment, with the numbers that their tuples
have at the end. -/
theorem placed_eq (limit : Nat) (documents : List Nat) :
    placed s nullHandling groupBy multiValue limit documents =
      let keys := ofDifferent limit (differentTuples (tuplesOf s nullHandling groupBy documents))
      ((documents.filter fun d => keeps multiValue keys (s.row nullHandling groupBy d)).map fun d =>
        (d, numbers keys (s.row nullHandling groupBy d)), keys) := by
  have hplaced := placeAll_ofDifferent limit (fun d (_ : d ∈ documents) => hrows d) []
  rwa [← snd_assignAll_new] at hplaced

/-- **The documents that reach a number** are those that belong to its
tuple. -/
theorem map_reaching_placed (limit : Nat) (documents : List Nat) (g : Nat) :
    (GroupHolder.reaching Prod.snd g
        (placed s nullHandling groupBy multiValue limit documents).1).map Prod.fst =
      (numberedTuples s nullHandling groupBy limit documents)[g]?.elim []
        (occurrences s nullHandling groupBy documents) := by
  rw [placed_eq hrows]
  dsimp only
  rw [map_reaching fun d hd => ?none]
  case none =>
    -- what is left out has no number
    simpa [keeps] using (Bool.or_eq_false_iff.1 hd).2
  simp only [map_filter_numbers]
  cases htuple : (numberedTuples s nullHandling groupBy limit documents)[g]? with
  | none =>
    have hnone : ∀ tuple, (ofDifferent limit (differentTuples
        (tuplesOf s nullHandling groupBy documents))).find? tuple ≠ some g := fun tuple hfind => by
      obtain ⟨hg, -⟩ := of_find?_eq_some hfind
      exact absurd hg (Nat.not_lt.2 (List.getElem?_eq_none_iff.1 htuple))
    simp [hnone]
  | some tuple =>
    obtain ⟨hg, rfl⟩ := List.getElem?_eq_some_iff.1 htuple
    refine List.flatMap_congr fun d _ => congrArg _ (List.filter_congr fun other _ => ?_)
    rw [Bool.eq_iff_iff, beq_iff_eq, find?_eq_some_iff (different_ofDifferent _ _)]
    exact ⟨fun h => h.2, fun h => ⟨hg, h⟩⟩

/-- **A function's tally** is there exactly when every document that was
placed can be read and each number takes in the documents of its tuple;
it has then the slots that these make. -/
theorem tally_eq_ok_iff {documents : List Nat} {f : AggregateFunction} {view : Nat → GroupSlot} :
    tally s nullHandling groupBy multiValue limit documents f = .ok view ↔
      (∀ p ∈ (placed s nullHandling groupBy multiValue limit documents).1,
        ∃ fold, f.effect (f.columnIn s nullHandling) p.1 = .ok fold) ∧
      ∀ g, ((numberedTuples s nullHandling groupBy limit documents)[g]?.elim []
          (occurrences s nullHandling groupBy documents)).foldlM
            (GroupHolder.takeIn f (f.columnIn s nullHandling)) (.fresh f.initial) =
        .ok (view g) := by
  rw [tally, GroupHolder.foldlM_absorb_iff]
  simp only [map_reaching_placed hrows]

/-- The keys of what was absorbed are the first different tuples. -/
theorem Absorbed.keys_eq_ofDifferent {seen : List Nat} {state : State}
    (h : Absorbed s nullHandling groupBy multiValue functions limit seen state) :
    state.keys = ofDifferent limit (differentTuples (tuplesOf s nullHandling groupBy seen)) := by
  rw [h.keys_eq, placed_eq hrows]

/-- The groups of what was absorbed are the first different tuples, each
with the aggregates under its number. -/
theorem Absorbed.perm_groups {seen : List Nat} {state : State}
    (h : Absorbed s nullHandling groupBy multiValue functions limit seen state) {t : GroupTable}
    (ht : table functions state = .ok t) :
    let tuples := numberedTuples s nullHandling groupBy limit seen
    ∃ rows, tuples.zipIdx.mapM (fun pair => groupRow functions state.holders pair.2) = .ok rows ∧
      t.groups.Perm (tuples.zip rows) := by
  intro tuples
  have hkeys := h.keys_eq_ofDifferent hrows
  obtain ⟨rows, hread, hperm⟩ := perm_table (hkeys ▸ different_ofDifferent _ _) ht
  rw [hkeys] at hread hperm
  exact ⟨rows, Except.mapM_eq_ok.2 hread, hperm⟩

/-- **The aggregates of a group** are what the documents of its tuple make
of a fresh slot, and their column can be read. -/
theorem Absorbed.of_mem_groups {seen : List Nat} {state : State}
    (h : Absorbed s nullHandling groupBy multiValue functions limit seen state) {t : GroupTable}
    (ht : table functions state = .ok t) {group : List Key × Row} (hgroup : group ∈ t.groups)
    {j : Nat} {f : AggregateFunction} (hf : functions[j]? = some f) :
    f.Accepts (f.columnIn s nullHandling) ∧ ∃ slot,
      (occurrences s nullHandling groupBy seen group.1).foldlM
          (GroupHolder.takeIn f (f.columnIn s nullHandling)) (.fresh f.initial) = .ok slot ∧
        group.2[j]? = some (f.extractSlot slot) := by
  have hkeys := h.keys_eq_ofDifferent hrows
  obtain ⟨number, htuple, hrow⟩ :=
    of_mem_table (hkeys ▸ different_ofDifferent _ _) ht hgroup
  have hnumber : number < state.keys.count := (List.getElem?_eq_some_iff.1 htuple).1
  rw [groupRow_eq h.holders hnumber, Except.mapM_eq_ok] at hrow
  obtain ⟨cell, hcell, hextract⟩ := getElem?_of_forall₂ hrow hf
  obtain ⟨view, hview, rfl⟩ := Except.map_eq_ok.1 hextract
  have hslot := ((tally_eq_ok_iff hrows).1 hview).2 number
  rw [hkeys] at htuple
  rw [show (numberedTuples s nullHandling groupBy limit seen)[number]? = some group.1 from
    htuple] at hslot
  refine ⟨?_, _, hslot, hcell⟩
  -- a group has a tuple, so there are documents to read
  have hsome : seen ≠ [] := by
    rintro rfl
    have hmem := List.mem_of_mem_take (List.mem_of_getElem? htuple)
    exact absurd (mem_of_mem_differentTuples hmem) List.not_mem_nil
  exact (h.readable hsome).accepts f (List.mem_of_getElem? hf)

end

/-- Three documents of arrays, in one of which an element comes twice, and
a value that is null. -/
def tagged : MemorySegment where
  name := "tagged"
  numDocs := 3
  columns :=
    [⟨"tags", .dimension, ⟨.multi .int [[1, 2], [2, 2, 3], [1]], none⟩⟩,
      ⟨"v", .metric, ⟨.single .int [5, 6, 7], some (DocSet.ofList [2])⟩⟩]
  blockSize := 2
  sortedColumns := []
  filter := none
  numDocs_le := Nat.le_add_left 3 4294967293
  length_columns := by decide
  names_nodup := by decide
  blockSize_pos := Nat.two_pos

end GroupBy

end SegmentQuery
