import Mathlib.Data.List.Pairwise
import SegmentQuery.Proofs.Order.Keys
import SegmentQuery.Result.GroupTable
/-!
# Group tables stay in order

Putting a group at its place keeps the tuples ascending and different. A
group that is there already is replaced, a new one adds to the size, and
one that goes after all others is appended.
-/


namespace SegmentQuery

open Std (TransCmp OrientedCmp ReflCmp)

namespace GroupTable

/-- Groups in the order of their tuples, no two tuples the same. -/
def Ordered (groups : List (List Key × Row)) : Prop :=
  groups.Pairwise fun g g' => Key.compareTuples g.1 g'.1 = .lt

variable {tuple : List Key} {aggregates : Row} {groups : List (List Key × Row)} {t : GroupTable}

theorem find?_eq_none :
    t.find? tuple = none ↔ ∀ g ∈ t.groups, Key.compareTuples g.1 tuple ≠ .eq := by
  simp [find?, Key.sameTuple]

/-- What is found is the row of a group whose tuple ties. -/
theorem exists_of_find? {row : Row} (h : t.find? tuple = some row) :
    ∃ g ∈ t.groups, Key.compareTuples g.1 tuple = .eq ∧ g.2 = row := by
  obtain ⟨g, hg, hrow⟩ := Option.map_eq_some_iff.1 h
  exact ⟨g, List.mem_of_find?_eq_some hg, by simpa [Key.sameTuple] using List.find?_some hg, hrow⟩

/-- The tuples of a table after an insertion: the ones before, and the
new one. -/
theorem fst_of_mem_insertSorted {g : List Key × Row}
    (h : g ∈ insertSorted tuple aggregates groups) : g.1 = tuple ∨ ∃ g' ∈ groups, g'.1 = g.1 := by
  induction groups with
  | nil =>
    obtain rfl := List.mem_singleton.1 h
    exact .inl rfl
  | cons first rest ih =>
    unfold insertSorted at h
    split at h
    · rcases List.mem_cons.1 h with rfl | hg
      · exact .inl rfl
      · exact .inr ⟨g, hg, rfl⟩
    · rcases List.mem_cons.1 h with rfl | hg
      · exact .inr ⟨first, List.mem_cons_self, rfl⟩
      · exact .inr ⟨g, List.mem_cons_of_mem _ hg, rfl⟩
    · rcases List.mem_cons.1 h with rfl | hg
      · exact .inr ⟨g, List.mem_cons_self, rfl⟩
      · rcases ih hg with heq | ⟨g', hg', heq⟩
        · exact .inl heq
        · exact .inr ⟨g', List.mem_cons_of_mem _ hg', heq⟩

/-- The groups after an insertion: the ones before, and one with the
aggregates that were put in. -/
theorem mem_or_snd_of_mem_insertSorted {g : List Key × Row}
    (h : g ∈ insertSorted tuple aggregates groups) : g ∈ groups ∨ g.2 = aggregates := by
  induction groups with
  | nil =>
    obtain rfl := List.mem_singleton.1 h
    exact .inr rfl
  | cons first rest ih =>
    unfold insertSorted at h
    split at h
    · rcases List.mem_cons.1 h with rfl | hg
      · exact .inr rfl
      · exact .inl hg
    · rcases List.mem_cons.1 h with rfl | hg
      · exact .inr rfl
      · exact .inl (List.mem_cons_of_mem _ hg)
    · rcases List.mem_cons.1 h with rfl | hg
      · exact .inl List.mem_cons_self
      · exact (ih hg).imp_left (List.mem_cons_of_mem _)

/-- **Insertion keeps the order.** -/
theorem ordered_insertSorted (h : Ordered groups) :
    Ordered (insertSorted tuple aggregates groups) := by
  induction groups with
  | nil => exact List.pairwise_singleton _ _
  | cons first rest ih =>
    obtain ⟨hfirst, hrest⟩ := List.pairwise_cons.1 h
    unfold insertSorted
    split
    · -- before the first group, and so before all
      rename_i hlt
      refine List.pairwise_cons.2 ⟨fun g hg => ?_, h⟩
      rcases List.mem_cons.1 hg with rfl | hg
      · exact hlt
      · exact TransCmp.lt_trans hlt (hfirst g hg)
    · exact List.pairwise_cons.2 ⟨hfirst, hrest⟩
    · rename_i hgt
      refine List.pairwise_cons.2 ⟨fun g hg => ?_, ih hrest⟩
      rcases fst_of_mem_insertSorted hg with heq | ⟨g', hg', heq⟩
      · rw [heq]
        exact OrientedCmp.lt_of_gt hgt
      · rw [← heq]
        exact hfirst g' hg'

theorem length_insertSorted_le :
    (insertSorted tuple aggregates groups).length ≤ groups.length + 1 := by
  induction groups with
  | nil => simp [insertSorted]
  | cons first rest ih =>
    unfold insertSorted
    split <;> simp only [List.length_cons] <;> omega

/-- Insertion at a tuple that is there replaces its group. -/
theorem length_insertSorted_of_mem (h : Ordered groups)
    (hmem : ∃ g ∈ groups, Key.compareTuples g.1 tuple = .eq) :
    (insertSorted tuple aggregates groups).length = groups.length := by
  induction groups with
  | nil =>
    obtain ⟨g, hg, -⟩ := hmem
    exact absurd hg List.not_mem_nil
  | cons first rest ih =>
    obtain ⟨hfirst, hrest⟩ := List.pairwise_cons.1 h
    obtain ⟨g, hg, heq⟩ := hmem
    have heq' : Key.compareTuples tuple g.1 = .eq := OrientedCmp.eq_symm heq
    unfold insertSorted
    split
    · -- a tuple ahead of the first group ties with none
      rename_i hlt
      rcases List.mem_cons.1 hg with rfl | hg
      · rw [heq'] at hlt
        exact nomatch hlt
      · have hback := TransCmp.lt_of_lt_of_eq (hfirst g hg) heq
        rw [OrientedCmp.gt_of_lt hback] at hlt
        exact nomatch hlt
    · rfl
    · rename_i hgt
      rcases List.mem_cons.1 hg with rfl | hg
      · rw [heq'] at hgt
        exact nomatch hgt
      · rw [List.length_cons, List.length_cons, ih hrest ⟨g, hg, heq⟩]

/-- A group that goes after all others is appended. -/
theorem insertSorted_last (h : ∀ g ∈ groups, Key.compareTuples g.1 tuple = .lt) :
    insertSorted tuple aggregates groups = groups ++ [(tuple, aggregates)] := by
  induction groups with
  | nil => rfl
  | cons first rest ih =>
    obtain ⟨hfirst, hrest⟩ := List.forall_mem_cons.1 h
    rw [insertSorted, OrientedCmp.gt_of_lt hfirst, List.cons_append]
    exact congrArg (first :: ·) (ih hrest)

/-- The groups after an insertion: those of other tuples as they were,
and one with the aggregates that were put in. -/
theorem of_mem_insertSorted (h : Ordered groups) {g : List Key × Row}
    (hg : g ∈ insertSorted tuple aggregates groups) :
    (g ∈ groups ∧ Key.compareTuples g.1 tuple ≠ .eq) ∨
      (g.2 = aggregates ∧ Key.compareTuples g.1 tuple = .eq ∧
        (g.1 = tuple ∨ ∃ g' ∈ groups, g'.1 = g.1)) := by
  induction groups with
  | nil =>
    obtain rfl := List.mem_singleton.1 hg
    exact .inr ⟨rfl, ReflCmp.compare_self, .inl rfl⟩
  | cons first rest ih =>
    obtain ⟨hfirst, hrest⟩ := List.pairwise_cons.1 h
    unfold insertSorted at hg
    split at hg
    · -- the tuple goes in front, and all groups are after it
      rename_i hlt
      rcases List.mem_cons.1 hg with rfl | hg
      · exact .inr ⟨rfl, ReflCmp.compare_self, .inl rfl⟩
      · have hafter : Key.compareTuples tuple g.1 = .lt := by
          rcases List.mem_cons.1 hg with rfl | hg
          · exact hlt
          · exact TransCmp.lt_trans hlt (hfirst g hg)
        exact .inl ⟨hg, by rw [OrientedCmp.gt_of_lt hafter]; exact Ordering.noConfusion⟩
    · rename_i heq
      rcases List.mem_cons.1 hg with rfl | hg
      · exact .inr ⟨rfl, OrientedCmp.eq_symm heq, .inr ⟨first, List.mem_cons_self, rfl⟩⟩
      · have hafter := TransCmp.lt_of_eq_of_lt heq (hfirst g hg)
        exact .inl ⟨List.mem_cons_of_mem _ hg,
          by rw [OrientedCmp.gt_of_lt hafter]; exact Ordering.noConfusion⟩
    · rename_i hgt
      rcases List.mem_cons.1 hg with rfl | hg
      · exact .inl ⟨List.mem_cons_self,
          by rw [OrientedCmp.lt_of_gt hgt]; exact Ordering.noConfusion⟩
      · rcases ih hrest hg with ⟨hmem, hne⟩ | ⟨hrow, heq, hname⟩
        · exact .inl ⟨List.mem_cons_of_mem _ hmem, hne⟩
        · refine .inr ⟨hrow, heq, hname.imp id ?_⟩
          rintro ⟨g', hg', hsame⟩
          exact ⟨g', List.mem_cons_of_mem _ hg', hsame⟩

/-- Groups of other tuples survive an insertion. -/
theorem mem_insertSorted_of_ne {g : List Key × Row} (hg : g ∈ groups)
    (hne : Key.compareTuples g.1 tuple ≠ .eq) : g ∈ insertSorted tuple aggregates groups := by
  induction groups with
  | nil => exact absurd hg List.not_mem_nil
  | cons first rest ih =>
    unfold insertSorted
    split
    · exact List.mem_cons_of_mem _ hg
    · rename_i heq
      rcases List.mem_cons.1 hg with rfl | hg
      · exact absurd (OrientedCmp.eq_symm heq) hne
      · exact List.mem_cons_of_mem _ hg
    · rcases List.mem_cons.1 hg with rfl | hg
      · exact List.mem_cons_self
      · exact List.mem_cons_of_mem _ (ih hg)

/-- A new tuple joins the groups that are there. -/
theorem perm_insertSorted (h : ∀ g ∈ groups, Key.compareTuples g.1 tuple ≠ .eq) :
    (insertSorted tuple aggregates groups).Perm ((tuple, aggregates) :: groups) := by
  induction groups with
  | nil => exact .refl _
  | cons first rest ih =>
    obtain ⟨hfirst, hrest⟩ := List.forall_mem_cons.1 h
    unfold insertSorted
    split
    · exact .refl _
    · rename_i heq
      exact absurd (OrientedCmp.eq_symm heq) hfirst
    · exact ((ih hrest).cons first).trans (.swap _ _ _)

/-- What was put in is there, under its own tuple or one that ties. -/
theorem exists_mem_insertSorted (tuple : List Key) (aggregates : Row)
    (groups : List (List Key × Row)) : ∃ g ∈ insertSorted tuple aggregates groups,
      Key.compareTuples g.1 tuple = .eq ∧ g.2 = aggregates := by
  induction groups with
  | nil => exact ⟨_, List.mem_singleton.2 rfl, ReflCmp.compare_self, rfl⟩
  | cons first rest ih =>
    unfold insertSorted
    split
    · exact ⟨_, List.mem_cons_self, ReflCmp.compare_self, rfl⟩
    · rename_i heq
      exact ⟨_, List.mem_cons_self, OrientedCmp.eq_symm heq, rfl⟩
    · obtain ⟨g, hg, hsame⟩ := ih
      exact ⟨g, List.mem_cons_of_mem _ hg, hsame⟩

/-- **Groups can be put in order in one way only.** -/
theorem Ordered.eq_of_perm {groups' : List (List Key × Row)} (h : Ordered groups)
    (h' : Ordered groups') (hperm : groups.Perm groups') : groups = groups' := by
  refine List.Perm.eq_of_pairwise (fun a b _ _ hab hba => ?_) h h' hperm
  exact nomatch hab.symm.trans (OrientedCmp.gt_of_lt hba)

/-- A table has a tuple when one of its groups ties with it. -/
theorem isSome_find?_iff :
    (t.find? tuple).isSome ↔ ∃ g ∈ t.groups, Key.compareTuples g.1 tuple = .eq := by
  simp [find?, Key.sameTuple]

/-- After an insertion a table has the tuple and those it had. -/
theorem isSome_find?_insert {tuple' : List Key} :
    ((t.insert tuple aggregates).find? tuple').isSome ↔
      Key.compareTuples tuple tuple' = .eq ∨ (t.find? tuple').isSome := by
  rw [isSome_find?_iff, isSome_find?_iff]
  constructor
  · rintro ⟨g, hg, hsame⟩
    rcases fst_of_mem_insertSorted hg with heq | ⟨g', hg', heq⟩
    · exact .inl (heq ▸ hsame)
    · exact .inr ⟨g', hg', heq ▸ hsame⟩
  · rintro (hsame | ⟨g, hg, hsame⟩)
    · obtain ⟨g, hg, htie, -⟩ := exists_mem_insertSorted tuple aggregates t.groups
      exact ⟨g, hg, TransCmp.eq_trans htie hsame⟩
    · by_cases htie : Key.compareTuples g.1 tuple = .eq
      · obtain ⟨g', hg', htie', -⟩ := exists_mem_insertSorted tuple aggregates t.groups
        exact ⟨g', hg', TransCmp.eq_trans htie' (TransCmp.eq_trans (OrientedCmp.eq_symm htie) hsame)⟩
      · exact ⟨g, mem_insertSorted_of_ne hg htie, hsame⟩

/-! ## Tables that can be put together again -/

/-- A tuple of so many keys, each the key of its cell. -/
def Proper (keyCount : Nat) (tuple : List Key) : Prop :=
  tuple.length = keyCount ∧ ∀ key ∈ tuple, key.cell.key = key

/-- A table in order, within a limit, of proper tuples. -/
structure Sound (keyCount limit : Nat) (t : GroupTable) : Prop where
  ordered : Ordered t.groups
  size_le : t.size ≤ limit
  proper : ∀ g ∈ t.groups, Proper keyCount g.1

variable {keyCount limit : Nat}

theorem sound_empty : Sound keyCount limit empty where
  ordered := .nil
  size_le := Nat.zero_le _
  proper := by simp [empty]

theorem Sound.proper_insert (h : Sound keyCount limit t) (htuple : Proper keyCount tuple) :
    ∀ g ∈ (t.insert tuple aggregates).groups, Proper keyCount g.1 := by
  intro g hg
  rcases fst_of_mem_insertSorted hg with heq | ⟨g', hg', heq⟩
  · rw [heq]
    exact htuple
  · rw [← heq]
    exact h.proper g' hg'

/-- While there is room a table takes a group in. -/
theorem Sound.insert_new (h : Sound keyCount limit t) (htuple : Proper keyCount tuple)
    (hroom : t.size < limit) : Sound keyCount limit (t.insert tuple aggregates) where
  ordered := ordered_insertSorted h.ordered
  size_le := Nat.le_trans length_insertSorted_le hroom
  proper := h.proper_insert htuple

/-- A table that has a group takes its new aggregates, room or no
room. -/
theorem Sound.insert_found (h : Sound keyCount limit t) (htuple : Proper keyCount tuple)
    {row : Row} (hfound : t.find? tuple = some row) :
    Sound keyCount limit (t.insert tuple aggregates) where
  ordered := ordered_insertSorted h.ordered
  size_le := by
    obtain ⟨g, hg, htie, -⟩ := exists_of_find? hfound
    exact (length_insertSorted_of_mem h.ordered ⟨g, hg, htie⟩).le.trans h.size_le
  proper := h.proper_insert htuple

end GroupTable

end SegmentQuery
