import SegmentQuery.Proofs.Operator.Tabulating
/-!
# Merging tables of documents

A table of some documents by tuple and a table of others merge into the
table of both, as long as the different tuples fit the limit: groups of
one tuple come together, whatever table they come from, and no other
group is touched.
-/


namespace SegmentQuery

open Std (TransCmp OrientedCmp)

variable {nullHandling : Bool} {groupBy : List String} {tuple : List Key}
variable {documents more batch : List Document}

/-! ## Documents of a tuple -/

namespace Document

theorem ofTuple_append : ofTuple nullHandling groupBy tuple (documents ++ more) =
    ofTuple nullHandling groupBy tuple documents ++ ofTuple nullHandling groupBy tuple more :=
  List.filter_append ..

/-- Tuples that are one have the same documents. -/
theorem ofTuple_congr {other : List Key} (h : Key.sameTuple tuple other)
    (documents : List Document) : ofTuple nullHandling groupBy tuple documents =
      ofTuple nullHandling groupBy other documents :=
  List.filter_congr fun _ _ => Key.sameTuple_congr h _

theorem ofTuple_eq_nil (h : ∀ d ∈ documents, ¬ Key.sameTuple tuple (d.tuple nullHandling groupBy)) :
    ofTuple nullHandling groupBy tuple documents = [] :=
  List.filter_eq_nil_iff.2 h

theorem ofTuple_eq_self (h : ∀ d ∈ documents, Key.sameTuple tuple (d.tuple nullHandling groupBy)) :
    ofTuple nullHandling groupBy tuple documents = documents :=
  List.filter_eq_self.2 h

/-- **Different tuples share documents out**, each to the first tuple that
it has. -/
theorem perm_flatMap_ofTuple {tuples : List (List Key)} (hdiffer : Key.Different tuples)
    (documents : List Document) :
    (tuples.flatMap fun tuple => ofTuple nullHandling groupBy tuple documents).Perm
      (documents.filter fun d => tuples.any (Key.sameTuple · (d.tuple nullHandling groupBy))) := by
  induction tuples with
  | nil => simp
  | cons first rest ih =>
    obtain ⟨hfirst, hrest⟩ := List.pairwise_cons.1 hdiffer
    rw [List.flatMap_cons]
    refine ((ih hrest).append_left _).trans ?_
    -- the documents of any tuple are those of the first, and those of the others
    have hsplit := List.filter_append_perm
      (fun d : Document => Key.sameTuple first (d.tuple nullHandling groupBy))
      (documents.filter fun d =>
        (first :: rest).any (Key.sameTuple · (d.tuple nullHandling groupBy)))
    rw [List.filter_filter, List.filter_filter] at hsplit
    refine .trans (.of_eq (congrArg₂ _ ?_ ?_)) hsplit
    · refine List.filter_congr fun d _ => ?_
      rw [List.any_cons]
      cases Key.sameTuple first (d.tuple nullHandling groupBy) <;> rfl
    · refine List.filter_congr fun d _ => ?_
      rw [List.any_cons]
      cases hsame : Key.sameTuple first (d.tuple nullHandling groupBy) with
      | false => simp
      | true =>
        refine List.any_eq_false.2 fun other hother hsame' => ?_
        exact hfirst other hother (Key.sameTuple_trans hsame (Key.sameTuple_symm hsame'))

end Document

open Document GroupTable

/-! ## One table -/

namespace GroupBy.Tabulates

variable {functions : List AggregateFunction} {t : GroupTable} {limit : Nat}

theorem empty : Tabulates nullHandling groupBy functions [] .empty where
  ordered := .nil
  named := by simp [GroupTable.empty]
  found := by simp
  summarizes := by simp [GroupTable.empty]

/-- A table of documents holds their tuples. -/
theorem holds (h : Tabulates nullHandling groupBy functions documents t) :
    t.Holds (documents.map (Document.tuple nullHandling groupBy)) := by
  refine (holds_groups t).congr fun tuple => ⟨?_, ?_⟩
  · rintro ⟨a, ha, hsame⟩
    obtain ⟨g, hg, rfl⟩ := List.mem_map.1 ha
    obtain ⟨d, hd, hnamed⟩ := h.named g hg
    exact ⟨_, List.mem_map_of_mem hd, hnamed ▸ hsame⟩
  · rintro ⟨a, ha, hsame⟩
    obtain ⟨d, hd, rfl⟩ := List.mem_map.1 ha
    obtain ⟨g, hg, hfound⟩ := h.found d hd
    exact ⟨g.1, List.mem_map_of_mem hg, Key.sameTuple_trans hfound hsame⟩

/-- **There are as many groups as different tuples.** -/
theorem size_eq (h : Tabulates nullHandling groupBy functions documents t) :
    t.size =
      (Key.differentTuples (documents.map (Document.tuple nullHandling groupBy))).length := by
  refine Nat.le_antisymm
    (h.holds.size_le h.ordered fun a ha => Key.exists_mem_differentTuples ha) ?_
  refine le_of_le_of_eq ?_ (List.length_map (f := Prod.fst))
  refine Key.length_le_of_different (Key.different_differentTuples _) fun a ha => ?_
  exact (holds_groups t a).1
    ((h.holds a).2 ⟨a, Key.mem_of_mem_differentTuples ha, Key.sameTuple_refl a⟩)

/-- A table of documents that fit a limit is sound. -/
theorem sound (h : Tabulates nullHandling groupBy functions documents t)
    (hfits : Fits nullHandling groupBy limit documents) : t.Sound groupBy.length limit where
  ordered := h.ordered
  size_le := h.size_eq.trans_le hfits
  proper g hg := by
    obtain ⟨d, -, hnamed⟩ := h.named g hg
    have hproper := GroupBy.proper_keys (d.segment.row nullHandling groupBy d.number)
    rw [MemorySegment.length_row] at hproper
    exact hnamed ▸ hproper

/-- The order of the documents does not count. -/
theorem perm (h : Tabulates nullHandling groupBy functions documents t)
    (hperm : documents.Perm more) : Tabulates nullHandling groupBy functions more t where
  ordered := h.ordered
  named g hg := by
    obtain ⟨d, hd, hnamed⟩ := h.named g hg
    exact ⟨d, hperm.mem_iff.1 hd, hnamed⟩
  found d hd := h.found d (hperm.mem_iff.2 hd)
  summarizes g hg := (h.summarizes g hg).imp fun _ _ hsummary => hsummary.perm (hperm.filter _)

/-- **The groups share the documents out.** -/
theorem perm_groups (h : Tabulates nullHandling groupBy functions documents t) :
    (t.groups.flatMap fun g => ofTuple nullHandling groupBy g.1 documents).Perm documents := by
  have hshare : ((t.groups.map Prod.fst).flatMap fun tuple =>
      ofTuple nullHandling groupBy tuple documents).Perm _ :=
    perm_flatMap_ofTuple (different_of_ordered h.ordered) documents
  rw [List.flatMap_map] at hshare
  refine hshare.trans (.of_eq (List.filter_eq_self.2 fun d hd => ?_))
  obtain ⟨g, hg, hsame⟩ := h.found d hd
  exact List.any_eq_true.2 ⟨g.1, List.mem_map_of_mem hg, hsame⟩

/-- **Documents of one tuple** go into its group. -/
theorem insert (h : Tabulates nullHandling groupBy functions documents t)
    (hnamed : ∃ d ∈ batch, d.tuple nullHandling groupBy = tuple)
    (hsame : ∀ d ∈ batch, Key.sameTuple tuple (d.tuple nullHandling groupBy)) {aggregates : Row}
    (hsummary : List.Forall₂
      (Summarizes nullHandling (ofTuple nullHandling groupBy tuple documents ++ batch))
      functions aggregates) :
    Tabulates nullHandling groupBy functions (documents ++ batch) (t.insert tuple aggregates) where
  ordered := ordered_insertSorted h.ordered
  named g hg := by
    rcases fst_of_mem_insertSorted hg with heq | ⟨g', hg', heq⟩
    · obtain ⟨d, hd, hname⟩ := hnamed
      exact ⟨d, List.mem_append_right _ hd, hname.trans heq.symm⟩
    · obtain ⟨d, hd, hname⟩ := h.named g' hg'
      exact ⟨d, List.mem_append_left _ hd, hname.trans heq⟩
  found d hd := by
    have hsome : ((t.insert tuple aggregates).find? (d.tuple nullHandling groupBy)).isSome := by
      rw [isSome_find?_insert]
      rcases List.mem_append.1 hd with hd | hd
      · refine .inr (isSome_find?_iff.2 ?_)
        obtain ⟨g, hg, hfound⟩ := h.found d hd
        exact ⟨g, hg, Key.sameTuple_iff.1 hfound⟩
      · exact .inl (Key.sameTuple_iff.1 (hsame d hd))
    obtain ⟨g, hg, hfound⟩ := isSome_find?_iff.1 hsome
    exact ⟨g, hg, Key.sameTuple_iff.2 hfound⟩
  summarizes g hg := by
    rw [ofTuple_append]
    rcases of_mem_insertSorted h.ordered hg with ⟨hold, hother⟩ | ⟨rfl, htie, -⟩
    · -- a group of another tuple gets none of the documents
      rw [ofTuple_eq_nil fun d hd hhas => hother (Key.sameTuple_iff.1
        (Key.sameTuple_trans hhas (Key.sameTuple_symm (hsame d hd)))), List.append_nil]
      exact h.summarizes g hold
    · have hone := Key.sameTuple_iff.2 htie
      rw [ofTuple_congr hone, ofTuple_congr hone, ofTuple_eq_self hsame]
      exact hsummary

end GroupBy.Tabulates

/-! ## Merging -/

namespace Combiner

open GroupBy

variable {c : Combiner} {t other : GroupTable}

/-- Slots that summarize documents merge. -/
theorem mergeSlots_ok {functions : List AggregateFunction} {left right : Row}
    (hleft : List.Forall₂ (Summarizes nullHandling documents) functions left)
    (hright : List.Forall₂ (Summarizes nullHandling more) functions right) :
    ∃ row, (mergeSlots functions left right).toExcept = .ok row ∧
      List.Forall₂ (Summarizes nullHandling (documents ++ more)) functions row := by
  induction hleft generalizing right with
  | nil => exact ⟨[], by cases hright; rfl, .nil⟩
  | @cons f l functions left hl _ ih =>
    obtain ⟨r, rest, hr, hrest, rfl⟩ := List.forall₂_cons_left_iff.1 hright
    obtain ⟨merged, hmerge, hsummary⟩ := hl.merge hr
    obtain ⟨row, hrow, hsummaries⟩ := ih hrest
    refine ⟨merged :: row, ?_, .cons hsummary hsummaries⟩
    rw [mergeSlots, hmerge, Progress.toExcept_map, hrow]
    rfl

/-- **Rows that summarize documents merge** into the row of both. -/
theorem mergeAggregates_ok {left right : Row}
    (hleft : List.Forall₂ (Summarizes nullHandling documents) c.functions left)
    (hright : List.Forall₂ (Summarizes nullHandling more) c.functions right) :
    ∃ row, (c.mergeAggregates left right).toExcept = .ok row ∧
      List.Forall₂ (Summarizes nullHandling (documents ++ more)) c.functions row := by
  rw [mergeAggregates, if_pos ⟨hleft.length_eq.symm, hright.length_eq.symm⟩]
  exact mergeSlots_ok hleft hright

/-- **One group** with the documents of its tuple is merged, and nothing is
dropped. -/
theorem tabulates_mergeGroup {g : List Key × Row}
    (ht : Tabulates nullHandling groupBy c.functions documents t)
    (hnamed : ∃ d ∈ batch, d.tuple nullHandling groupBy = g.1)
    (hsame : ∀ d ∈ batch, Key.sameTuple g.1 (d.tuple nullHandling groupBy))
    (hsummary : List.Forall₂ (Summarizes nullHandling batch) c.functions g.2)
    (hfits : Fits nullHandling groupBy c.groupsLimit (documents ++ batch)) :
    ∃ merged, (c.mergeGroup (t, false) g).toExcept = .ok (merged, false) ∧
      Tabulates nullHandling groupBy c.functions (documents ++ batch) merged := by
  obtain ⟨tuple, aggregates⟩ := g
  unfold mergeGroup
  dsimp only at hnamed hsame hsummary ⊢
  cases hfind : t.find? tuple with
  | some existing =>
    obtain ⟨g, hg, htie, rfl⟩ := exists_of_find? hfind
    have hexisting := ht.summarizes g hg
    rw [ofTuple_congr (Key.sameTuple_iff.2 htie)] at hexisting
    obtain ⟨row, hrow, hrows⟩ := mergeAggregates_ok hexisting hsummary
    refine ⟨t.insert tuple row, ?_, ht.insert hnamed hsame hrows⟩
    rw [Progress.toExcept_map, hrow]
    rfl
  | none =>
    -- none of the documents so far has the tuple, and all different tuples have room
    have hnone : ∀ d ∈ documents, ¬ Key.sameTuple tuple (d.tuple nullHandling groupBy) := by
      intro d hd hhas
      obtain ⟨g, hg, hfound⟩ := ht.found d hd
      exact find?_eq_none.1 hfind g hg
        (Key.sameTuple_iff.1 (Key.sameTuple_trans hfound (Key.sameTuple_symm hhas)))
    have hroom : t.size < c.groupsLimit := by
      refine (ht.holds.size_lt ht.ordered hfind fun a ha => ?_).trans_le hfits
      refine Key.exists_mem_differentTuples ?_
      rw [List.map_append]
      rcases List.mem_append.1 ha with ha | ha
      · exact List.mem_append_left _ ha
      · obtain ⟨d, hd, hname⟩ := hnamed
        rw [List.mem_singleton.1 ha, ← hname]
        exact List.mem_append_right _ (List.mem_map_of_mem hd)
    rw [if_pos hroom]
    refine ⟨t.insert tuple aggregates, rfl, ht.insert hnamed hsame ?_⟩
    rw [ofTuple_eq_nil hnone]
    exact hsummary

/-- Groups with the documents of their tuples, one after the other. -/
theorem tabulates_foldlM_mergeGroup {groups : List (List Key × Row)}
    (hgroups : ∀ g ∈ groups, (∃ d ∈ more, d.tuple nullHandling groupBy = g.1) ∧
      List.Forall₂ (Summarizes nullHandling (ofTuple nullHandling groupBy g.1 more))
        c.functions g.2)
    (ht : Tabulates nullHandling groupBy c.functions documents t)
    (hfits : Fits nullHandling groupBy c.groupsLimit
      (documents ++ groups.flatMap fun g => ofTuple nullHandling groupBy g.1 more)) :
    ∃ merged, groups.foldlM (fun s g => (c.mergeGroup s g).toExcept) (t, false) =
        .ok (merged, false) ∧
      Tabulates nullHandling groupBy c.functions
        (documents ++ groups.flatMap fun g => ofTuple nullHandling groupBy g.1 more) merged := by
  induction groups generalizing documents t with
  | nil => exact ⟨t, rfl, by simpa using ht⟩
  | cons g groups ih =>
    obtain ⟨⟨⟨d, hd, hname⟩, hsummary⟩, hrest⟩ := List.forall_mem_cons.1 hgroups
    rw [List.flatMap_cons, ← List.append_assoc] at hfits ⊢
    have hof : d ∈ ofTuple nullHandling groupBy g.1 more :=
      List.mem_filter.2 ⟨hd, by rw [hname]; exact Key.sameTuple_refl _⟩
    obtain ⟨next, hnext, htabulates⟩ := tabulates_mergeGroup ht ⟨d, hof, hname⟩
      (fun d hd => (List.mem_filter.1 hd).2) hsummary
      (hfits.of_subset (List.subset_append_left _ _))
    obtain ⟨merged, hmerged, hall⟩ := ih hrest htabulates hfits
    refine ⟨merged, ?_, hall⟩
    rw [List.foldlM_cons, hnext]
    exact hmerged

/-- **Two tables merge** into the table of all their documents, and no
group is dropped. -/
theorem tabulates_mergeGroups (ht : Tabulates nullHandling groupBy c.functions documents t)
    (hother : Tabulates nullHandling groupBy c.functions more other)
    (hfits : Fits nullHandling groupBy c.groupsLimit (documents ++ more)) :
    ∃ merged, (c.mergeGroups t other).toExcept = .ok (merged, false) ∧
      Tabulates nullHandling groupBy c.functions (documents ++ more) merged := by
  have hperm := hother.perm_groups.append_left documents
  rw [mergeGroups, Progress.toExcept_foldl]
  obtain ⟨merged, hmerged, hall⟩ := tabulates_foldlM_mergeGroup
    (fun g hg => ⟨hother.named g hg, hother.summarizes g hg⟩) ht
    (hfits.of_subset hperm.subset)
  exact ⟨merged, hmerged, hall.perm hperm⟩

/-- **One table after the other** is merged. -/
theorem tabulates_foldlM_mergeGroups {parts : List (List Document)} {tables : List GroupTable}
    (htables : List.Forall₂ (Tabulates nullHandling groupBy c.functions) parts tables)
    (ht : Tabulates nullHandling groupBy c.functions documents t)
    (hfits : Fits nullHandling groupBy c.groupsLimit (documents ++ parts.flatten)) :
    ∃ merged, tables.foldlM
        (fun target other => (c.mergeGroups target other).toExcept.map (·.1)) t = .ok merged ∧
      Tabulates nullHandling groupBy c.functions (documents ++ parts.flatten) merged := by
  induction htables generalizing documents t with
  | nil => exact ⟨t, rfl, by simpa using ht⟩
  | @cons part other parts tables hother _ ih =>
    rw [List.flatten_cons, ← List.append_assoc] at hfits ⊢
    obtain ⟨next, hnext, htabulates⟩ := tabulates_mergeGroups ht hother
      (hfits.of_subset (List.subset_append_left _ _))
    obtain ⟨merged, hmerged, hall⟩ := ih htabulates hfits
    refine ⟨merged, ?_, hall⟩
    rw [List.foldlM_cons, hnext]
    exact hmerged

end Combiner

end SegmentQuery
