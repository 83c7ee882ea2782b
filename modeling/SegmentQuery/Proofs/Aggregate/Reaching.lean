import SegmentQuery.Proofs.Aggregate.Effects
/-!
# What reaches a group

Positions are folded one after the other, each into all of its groups. For
one group only those count that belong to it, each as often as it does:
what is shown for a group after a walk is what they make of what was shown
for it before, and a walk goes through exactly when it does for every
group.
-/


namespace SegmentQuery

namespace GroupHolder

variable {β : Type}

/-- The positions that belong to a group, as often as they do. -/
def reaching (groups : β → List Nat) (group : Nat) (positions : List β) : List β :=
  positions.flatMap fun p => ((groups p).filter (· == group)).map fun _ => p

/-- One change after the other, each of one group. -/
theorem foldlM_change_iff {changes : List (Nat × (GroupSlot → Except QueryError GroupSlot))}
    {view view' : Nat → GroupSlot} :
    changes.foldlM (fun view c => change c.2 view c.1) view = .ok view' ↔
      ∀ g, (changes.filter (·.1 == g)).foldlM (fun s c => c.2 s) (view g) = .ok (view' g) := by
  induction changes generalizing view with
  | nil =>
    constructor
    · intro h g
      obtain rfl := Except.ok.inj h
      rfl
    · intro h
      exact congrArg Except.ok (funext fun g => Except.ok.inj (h g))
  | cons c changes ih =>
    obtain ⟨own, fold⟩ := c
    have hown (g : Nat) : ((own, fold) :: changes).filter (·.1 == g) =
        if own = g then (own, fold) :: changes.filter (·.1 == g) else changes.filter (·.1 == g) := by
      rw [List.filter_cons]
      simp only [beq_iff_eq]
    rw [List.foldlM_cons, Except.bind_eq_ok]
    constructor
    · rintro ⟨next, hnext, hrest⟩ g
      obtain ⟨s, hs, rfl⟩ := Except.map_eq_ok.1 hnext
      have hg := ih.1 hrest g
      rw [hown]
      split
      · rename_i heq
        subst heq
        rw [Function.update_self] at hg
        rw [List.foldlM_cons, hs]
        exact hg
      · rename_i hne
        rwa [Function.update_of_ne (Ne.symm hne)] at hg
    · intro h
      have hfirst := h own
      rw [hown, if_pos rfl, List.foldlM_cons] at hfirst
      obtain ⟨s, hs, hrest⟩ := Except.bind_eq_ok.1 hfirst
      refine ⟨Function.update view own s, by rw [change, hs]; rfl, ih.2 fun g => ?_⟩
      by_cases heq : own = g
      · subst heq
        rwa [Function.update_self]
      · have hg := h g
        rw [hown, if_neg heq] at hg
        rwa [Function.update_of_ne (Ne.symm heq)]

/-- **A walk is a walk for each group.** -/
theorem foldlM_positions_iff {groups : β → List Nat}
    {fold : β → GroupSlot → Except QueryError GroupSlot} {positions : List β}
    {view view' : Nat → GroupSlot} :
    positions.foldlM (fun view p => (groups p).foldlM (change (fold p)) view) view = .ok view' ↔
      ∀ g, (reaching groups g positions).foldlM (fun s p => fold p s) (view g) = .ok (view' g) := by
  have hflat : positions.foldlM (fun view p => (groups p).foldlM (change (fold p)) view) view =
      (positions.flatMap fun p => (groups p).map fun g => (g, fold p)).foldlM
        (fun view c => change c.2 view c.1) view := by
    induction positions generalizing view with
    | nil => rfl
    | cons p positions ih =>
      rw [List.flatMap_cons, List.foldlM_append, List.foldlM_cons, List.foldlM_map]
      simp only [ih]
  have hgroup (g : Nat) (s : GroupSlot) :
      ((positions.flatMap fun p => (groups p).map fun g => (g, fold p)).filter (·.1 == g)).foldlM
        (fun s c => c.2 s) s = (reaching groups g positions).foldlM (fun s p => fold p s) s := by
    have hown (p : β) : ((groups p).map fun g => (g, fold p)).filter (·.1 == g) =
        (((groups p).filter (· == g)).map fun _ => p).map fun p => (g, fold p) := by
      rw [List.filter_map, List.map_map]
      refine List.map_congr_left fun g' hg' => ?_
      obtain rfl : g' = g := beq_iff_eq.1 (List.mem_filter.1 hg').2
      rfl
    rw [List.filter_flatMap, reaching]
    simp only [hown]
    rw [← List.map_flatMap, List.foldlM_map]
  rw [hflat, foldlM_change_iff]
  simp only [hgroup]

/-! ## Documents that are taken in -/

/-- Take one document into the slot of a group that it belongs to. -/
def takeIn (f : AggregateFunction) (input : Option Column) (s : GroupSlot) (d : Nat) :
    Except QueryError GroupSlot :=
  f.effect input d >>= fun fold => fold s

/-- **Documents are taken in** exactly when each can be read and each group
takes in those that belong to it. -/
theorem foldlM_absorb_iff {f : AggregateFunction} {input : Option Column}
    {pairs : List (Nat × List Nat)} {view view' : Nat → GroupSlot} :
    pairs.foldlM (f.absorb input) view = .ok view' ↔
      (∀ p ∈ pairs, ∃ fold, f.effect input p.1 = .ok fold) ∧
        ∀ g, ((reaching Prod.snd g pairs).map Prod.fst).foldlM (takeIn f input) (view g) =
          .ok (view' g) := by
  have hwalk (hread : ∀ p ∈ pairs, ∃ fold, f.effect input p.1 = .ok fold) :
      pairs.foldlM (f.absorb input) view = pairs.foldlM
        (fun view p => p.2.foldlM (change fun s => takeIn f input s p.1) view) view := by
    refine Except.foldlM_congr fun view p hp => ?_
    obtain ⟨fold, hfold⟩ := hread p hp
    simp only [AggregateFunction.absorb, takeIn, hfold]
    rfl
  simp only [List.foldlM_map]
  constructor
  · intro h
    have hread : ∀ p ∈ pairs, ∃ fold, f.effect input p.1 = .ok fold := fun p hp => by
      obtain ⟨_, _, hp⟩ := Except.exists_of_foldlM_ok h hp
      obtain ⟨fold, hfold, -⟩ := Except.bind_eq_ok.1 hp
      exact ⟨fold, hfold⟩
    exact ⟨hread, foldlM_positions_iff.1 ((hwalk hread).symm.trans h)⟩
  · rintro ⟨hread, hgroups⟩
    exact (hwalk hread).trans (foldlM_positions_iff.2 hgroups)

/-! ## Holders that go through -/

variable {α : Type} {f : AggregateFunction} {limit : Nat} {h h' : GroupHolder}
variable {view : Nat → GroupSlot}

/-- Room that was made changes nothing that is shown. -/
theorem Shows.of_ensure (hshows : h.Shows f limit 0 view) {wanted : Nat}
    (hok : h.ensure wanted = .ok h') : h'.Shows f limit 0 view :=
  { hshows.grown (grownFrom_of_ensure hok) with room_le := Nat.zero_le _ }

/-- An update that goes through is of a group that there is room for. -/
theorem Shows.of_update (hshows : h.Shows f limit 0 view)
    {fold : GroupSlot → Except QueryError GroupSlot} {number : Nat}
    (hok : (h.update fold number).toExcept = .ok h') :
    ∃ view', change fold view number = .ok view' ∧ h'.Shows f limit 0 view' := by
  have hlt : number < h.capacity := by
    by_contra hge
    have hnone : h.slots[number]? = none := List.getElem?_eq_none (Nat.not_lt.1 hge)
    rw [update_of_none fold hnone] at hok
    cases hok
  have hfull : h.Shows f limit h.capacity view := { hshows with room_le := Nat.le_refl _ }
  obtain ⟨view', hview', hnext⟩ := (hfull.update hlt fold).of_ok hok
  exact ⟨view', hview', { hnext with room_le := Nat.zero_le _ }⟩

/-- **Positions that are folded in** leave each group what those that belong
to it make of its slot. -/
theorem Shows.of_foldPositions (hshows : h.Shows f limit 0 view)
    {fold : α → GroupSlot → Except QueryError GroupSlot} {positions : List (List Nat × α)}
    (hok : (h.foldPositions fold positions).toExcept = .ok h') :
    ∃ view', (∀ g, (reaching Prod.fst g positions).foldlM (fun s p => fold p.2 s) (view g) =
      .ok (view' g)) ∧ h'.Shows f limit 0 view' := by
  rw [GroupHolder.foldPositions, Progress.toExcept_foldl] at hok
  obtain ⟨view', hfold, hnext⟩ := Except.exists_foldlM (R := GroupHolder.Shows f limit 0)
    (g := fun view p => p.1.foldlM (change (fold p.2)) view) hshows
    (fun h view hshows p _ h' hok => by
      rw [Progress.toExcept_foldl] at hok
      exact Except.exists_foldlM hshows (fun h view hshows g _ h' hok => hshows.of_update hok) hok)
    hok
  exact ⟨view', foldlM_positions_iff.1 hfold, hnext⟩

end GroupHolder

end SegmentQuery
