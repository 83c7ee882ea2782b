import SegmentQuery.Proofs.Selection.Merging
/-!
# Merging in any order and grouping

Collections of the same order and the same greatest number of rows may be
merged in any order and grouped in any way. Every side has turned rows
away before, and merging offers what it has left as its heap lies; still
the result holds the best of all rows that any of them was ever offered,
as far as key tuples tell.
-/


namespace SegmentQuery

namespace OrderedRows

variable {order : RowOrder} {maximum : Nat}

/-- What is left of two collections when one is merged into the other. -/
def mergedWith (target source : OrderedRows) : Except QueryError OrderedRows :=
  (target.merge source).toExcept

/-- **A tree of merges keeps the best rows.** Where each leaf holds the
best of some rows that the order accepts, the root holds the best of all
of them. -/
theorem best_merged {tree : MergeTree OrderedRows} {alls : List (List Row)}
    (hleaves : List.Forall₂ (fun all rows => rows.order = order ∧ Best order maximum all rows) alls
      tree.leaves)
    (haccepts : ∀ all ∈ alls, ∀ row ∈ all, order.validate row = .ok ()) :
    ∃ root, tree.merged mergedWith = .ok root ∧ root.order = order ∧
      Best order maximum alls.flatten root := by
  induction tree generalizing alls with
  | leaf rows =>
    obtain ⟨all, none, ⟨horder, hbest⟩, hnone, rfl⟩ := List.forall₂_cons_right_iff.1 hleaves
    obtain rfl := List.forall₂_nil_right_iff.1 hnone
    exact ⟨rows, rfl, horder, by rwa [List.flatten_cons, List.flatten_nil, List.append_nil]⟩
  | node target source ihTarget ihSource =>
    -- the rows of the leaves on the left, then those of the leaves on the right
    obtain ⟨left, right, rfl, hleft, hright⟩ : ∃ left right, alls = left ++ right ∧
        List.Forall₂ _ left target.leaves ∧ List.Forall₂ _ right source.leaves :=
      ⟨_, _, (List.take_append_drop target.leaves.length alls).symm,
        List.forall₂_take_append _ _ _ hleaves, List.forall₂_drop_append _ _ _ hleaves⟩
    obtain ⟨t, ht, horder, hbest⟩ := ihTarget hleft fun all hall =>
      haccepts all (List.mem_append_left right hall)
    obtain ⟨s, hs, -, hbest'⟩ := ihSource hright fun all hall =>
      haccepts all (List.mem_append_right left hall)
    have haccepts' : ∀ row ∈ right.flatten, t.order.validate row = .ok () := by
      intro row hrow
      obtain ⟨all, hall, hrow⟩ := List.mem_flatten.1 hrow
      rw [horder]
      exact haccepts all (List.mem_append_right left hall) row hrow
    obtain ⟨root, hroot, horder', hall⟩ := hbest.merge hbest' haccepts'
    refine ⟨root, ?_, horder'.trans horder, by rwa [List.flatten_append]⟩
    rw [MergeTree.merged_node ht hs]
    exact Progress.toExcept_eq_ok.2 hroot

/-- **Merging is independent of order and grouping.** Collections that were
offered any rows without arrays where the keys look are merged by any tree
over any permutation of them: no merge fails, and what is left are as many
rows as there may be, each of them one that was offered, with the key
tuples that come first among those of all rows offered. -/
theorem merged_of_perm (order : RowOrder) (maximum : Nat) (offered : List (List Row))
    (hkeys : ∀ rows ∈ offered, ∀ row ∈ rows, ∀ key ∈ order.keys,
      (RowOrder.cellAt row key.1).isMultiValue = false)
    (collections : List OrderedRows)
    (hoffered : List.Forall₂ (fun rows collection =>
      (empty order maximum).offerAll rows = .done collection) offered collections)
    (tree : MergeTree OrderedRows) (htree : tree.leaves.Perm collections) :
    ∃ root, tree.merged mergedWith = .ok root ∧ root.size = min maximum offered.flatten.length ∧
      root.layout.Subperm offered.flatten ∧
      root.sorted.Perm root.layout ∧ Ascending order.compare root.sorted ∧
      root.sorted.map order.keyTuple =
        ((order.sort offered.flatten).map order.keyTuple).take maximum := by
  have haccepts : ∀ rows ∈ offered, ∀ row ∈ rows, order.validate row = .ok () :=
    fun rows hrows row hrow => RowOrder.validate_ok (hkeys rows hrows row hrow)
  -- every collection holds the best of what it was offered
  have hbests : List.Forall₂ (fun rows collection =>
      collection.order = order ∧ Best order maximum rows collection) offered collections := by
    refine ((List.forall₂_and_left _ _).2 ⟨haccepts, hoffered⟩).imp ?_
    rintro rows collection ⟨hrows, hdone⟩
    obtain rfl := congrArg Progress.state ((offerAll_ok hrows).symm.trans hdone)
    exact ⟨order_foldl_put _ _, best_foldl_put rfl maximum rows⟩
  obtain ⟨alls, hleaves, hperm⟩ := List.perm_comp_forall₂ htree hbests.flip
  obtain ⟨root, hroot, -, hbest⟩ := best_merged hleaves.flip fun all hall =>
    haccepts all (hperm.mem_iff.1 hall)
  have hflat : alls.flatten.Perm offered.flatten := hperm.flatten
  obtain ⟨dropped, hkept⟩ := hbest.best
  refine ⟨root, hroot, ?_, ?_, ?_, hbest.ascending_sorted, ?_⟩
  · exact hkept.length.trans (by rw [hflat.length_eq])
  · exact (List.sublist_append_left root.layout dropped).subperm.trans
      (hkept.perm.symm.trans hflat).subperm
  · rw [hbest.sorted_eq]
    exact order.sort_perm root.layout
  · rw [hbest.map_keyTuple_sorted]
    exact congrArg (List.take maximum) (map_key_mergeSort order.compare_eq_iff
      (hflat.trans (order.sort_perm offered.flatten).symm) (order.ascending_sort offered.flatten))

/-- Three collections with room for two rows each, a null among them: the
last is merged into the first in front of the second, and the two greatest
of all integers are left. -/
theorem merged_of_perm_three :
    let order : RowOrder := ⟨[(0, .desc)]⟩
    let collect (rows : List Row) := rows.foldl put (empty order 2)
    let first := collect [[.int 3], [.null], [.int 5]]
    let second := collect [[.int 7]]
    let third := collect [[.int 1], [.int 5]]
    let tree : MergeTree OrderedRows := .node (.node (.leaf third) (.leaf first)) (.leaf second)
    ∃ root, tree.merged mergedWith = .ok root ∧ root.size = 2 ∧
      root.sorted.map order.keyTuple = [[(Cell.int 7).key], [(Cell.int 5).key]] := by
  intro order collect first second third tree
  let offered : List (List Row) :=
    [[[.int 3], [.null], [.int 5]], [[.int 7]], [[.int 1], [.int 5]]]
  have hkeys : ∀ rows ∈ offered, ∀ row ∈ rows, ∀ key ∈ order.keys,
      (RowOrder.cellAt row key.1).isMultiValue = false := by decide +kernel
  have hoffered : List.Forall₂ (fun rows collection =>
      (empty order 2).offerAll rows = .done collection) offered [first, second, third] := by
    have hdone : ∀ rows ∈ offered, (empty order 2).offerAll rows = .done (collect rows) :=
      fun rows hrows => offerAll_ok fun row hrow => RowOrder.validate_ok (hkeys rows hrows row hrow)
    exact .cons (hdone _ (by decide)) (.cons (hdone _ (by decide)) (.cons (hdone _ (by decide)) .nil))
  have htree : tree.leaves.Perm [first, second, third] :=
    (List.Perm.swap first third [second]).trans ((List.Perm.swap second third []).cons first)
  obtain ⟨root, hroot, hsize, -, -, -, hshown⟩ :=
    merged_of_perm order 2 offered hkeys [first, second, third] hoffered _ htree
  -- the rows in order
  have hperm : offered.flatten.Perm
      [[.int 7], [.int 5], [.int 5], [.int 3], [.int 1], [.null]] := by decide +kernel
  have hascending : List.Pairwise (fun a b => (order.compare a b).isLE)
      [[.int 7], [.int 5], [.int 5], [.int 3], [.int 1], [.null]] := by decide +kernel
  refine ⟨root, hroot, hsize, ?_⟩
  rw [hshown, RowOrder.sort, map_key_mergeSort order.compare_eq_iff hperm hascending]
  decide +kernel

end OrderedRows

end SegmentQuery
