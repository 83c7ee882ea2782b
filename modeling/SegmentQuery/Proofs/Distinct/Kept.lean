import SegmentQuery.Proofs.Heap.Offer
import SegmentQuery.Proofs.Order.Keys
/-!
# Which distinct values are kept

A collection of distinct values can be described by the values that it
shows alone: a value that is there already changes nothing, and a new one
is added, put in its place where there is an order, and cut off at the
limit. How the heap happens to be laid out does not show. So values put
into a fresh collection make it show the same values again, and two
collections that show the same values take in further ones alike.
-/


namespace SegmentQuery

open Std (TransCmp OrientedCmp)

namespace DistinctValues

/-! ## What is shown -/

/-- No two values are one. -/
def Different (values : List (Option Key)) : Prop :=
  values.Pairwise fun a b => ¬ sameValue a b

/-- Values in the order in which they are shown. -/
def arrange : Option Direction → List (Option Key) → List (Option Key)
  | none, values => values
  | some direction, values => values.mergeSort fun a b => (compareValues direction a b).isLE

/-- What one more value makes of the values shown. -/
def keep (limit : Nat) (order : Option Direction) (values : List (Option Key)) (value : Option Key) :
    List (Option Key) :=
  if values.any (sameValue value) then values else (arrange order (values ++ [value])).take limit

/-- The direction in which values are kept, none when they are kept as
they come. -/
def order (d : DistinctValues) : Option Direction :=
  match d.store with
  | .firstSeen _ => none
  | .best _ direction => some direction

theorem not_tie {direction : Direction} {values : List (Option Key)} (h : Different values) :
    values.Pairwise fun a b => compareValues direction a b ≠ .eq :=
  h.imp fun hne heq => hne (sameValue_iff.2 heq)

theorem Different.of_perm {values values' : List (Option Key)} (h : Different values)
    (hperm : values.Perm values') : Different values' :=
  h.perm hperm fun hxy hyx => hxy (sameValue_comm.1 hyx)

theorem different_append {values : List (Option Key)} {value : Option Key} (h : Different values)
    (hnew : ¬ values.any (sameValue value)) : Different (values ++ [value]) := by
  refine List.pairwise_append.2 ⟨h, List.pairwise_singleton _ _, fun a ha b hb hsame => hnew ?_⟩
  rw [List.mem_singleton.1 hb] at hsame
  exact List.any_eq_true.2 ⟨a, ha, sameValue_comm.1 hsame⟩

theorem perm_arrange (order : Option Direction) (values : List (Option Key)) :
    (arrange order values).Perm values := by
  cases order with
  | none => exact .refl _
  | some direction => exact List.mergeSort_perm _ _

/-- What is shown after a value came in was shown before, or is that
value. -/
theorem of_mem_keep {limit : Nat} {order : Option Direction} {values : List (Option Key)}
    {value v : Option Key} (h : v ∈ keep limit order values value) : v ∈ values ∨ v = value := by
  unfold keep at h
  split at h
  · exact .inl h
  · have := (perm_arrange order _).mem_iff.1 (List.mem_of_mem_take h)
    simpa using this

/-! ## Sound collections -/

/-- The store is within the limit, and a heap is one. -/
def StoredWithin (limit : Nat) : DistinctStore → Prop
  | .firstSeen values => values.length ≤ limit
  | .best heap direction => heap.Valid (compareValues direction) ∧ heap.maximum = limit

/-- What is seen is what is kept, no value twice, within the limit. -/
structure Sound (d : DistinctValues) : Prop where
  seen_perm : d.seen.Perm d.values
  different : Different d.values
  stored : StoredWithin d.limit d.store

variable {d : DistinctValues}

/-- What a heap shows is what it holds, in order. -/
theorem values_best {type : StoredType} {limit : Nat} {nullHandling : Bool}
    {seen : List (Option Key)} {heap : TopK (Option Key)} {direction : Direction} :
    values ⟨type, limit, nullHandling, seen, .best heap direction⟩ =
      arrange (some direction) heap.toList := rfl

theorem Sound.length_le (h : d.Sound) : d.values.length ≤ d.limit := by
  obtain ⟨type, limit, nullHandling, seen, store⟩ := d
  have hstored := h.stored
  cases store with
  | firstSeen values => exact hstored
  | best heap direction =>
    obtain ⟨hvalid, rfl⟩ := hstored
    rw [values_best, (perm_arrange _ _).length_eq]
    exact hvalid.size_le

/-- Values shown in an order ascend in it. -/
theorem arrange_values (d : DistinctValues) : arrange d.order d.values = d.values := by
  obtain ⟨type, limit, nullHandling, seen, store⟩ := d
  cases store with
  | firstSeen values => rfl
  | best heap direction =>
    rw [values_best]
    exact List.mergeSort_of_pairwise (ascending_mergeSort heap.toList)

theorem sound_new (type : StoredType) (order : Option Direction) (limit : Nat)
    (nullHandling : Bool) : (new type order limit nullHandling).Sound := by
  cases order with
  | none => exact ⟨.refl _, .nil, Nat.zero_le _⟩
  | some direction =>
    have hnone : (new type (some direction) limit nullHandling).values = [] := by
      rw [new, values_best, TopK.toList_empty]
      exact List.mergeSort_nil
    refine ⟨?_, ?_, TopK.valid_empty limit, rfl⟩
    · rw [hnone]
      exact .refl _
    · rw [hnone]
      exact .nil

/-- Of different values, taking out the one that ties with one of them
takes out that one. -/
theorem eraseP_perm {seen rest : List (Option Key)} {value : Option Key} (hdiff : Different seen)
    (hperm : seen.Perm (value :: rest)) : (seen.eraseP (sameValue value)).Perm rest := by
  have hmem : value ∈ seen := hperm.mem_iff.2 List.mem_cons_self
  obtain ⟨a, front, back, -, hsame, hseen, herase⟩ :=
    List.exists_of_eraseP hmem (sameValue_refl value)
  have ha : a ∈ seen := by
    rw [hseen]
    simp
  obtain rfl : value = a :=
    eq_of_tie (@not_tie .asc _ hdiff) hmem ha (sameValue_iff.1 hsame)
  rw [herase]
  refine List.Perm.cons_inv ((?_ : (value :: (front ++ back)).Perm seen).trans hperm)
  rw [hseen]
  exact List.perm_middle.symm

/-! ## One value -/

/-- A value that is there already changes nothing. -/
theorem add_of_seen {value : Option Key} (h : d.hasSeen value) : d.add value = d := by
  rw [add, h, Bool.or_true, if_pos rfl]

/-- A saturated collection does not change. -/
theorem add_of_isSaturated {value : Option Key} (h : d.isSaturated) : d.add value = d := by
  rw [add, h, Bool.true_or, if_pos rfl]

@[simp] theorem type_add (value : Option Key) : (d.add value).type = d.type := by
  unfold add
  split
  · rfl
  · split <;> rfl

@[simp] theorem limit_add (value : Option Key) : (d.add value).limit = d.limit := by
  unfold add
  split
  · rfl
  · split <;> rfl

@[simp] theorem nullHandling_add (value : Option Key) :
    (d.add value).nullHandling = d.nullHandling := by
  unfold add
  split
  · rfl
  · split <;> rfl

@[simp] theorem order_add (value : Option Key) : (d.add value).order = d.order := by
  obtain ⟨type, limit, nullHandling, seen, store⟩ := d
  unfold add
  split
  · rfl
  · cases store <;> rfl

/-- A new value for a collection that keeps values as they come. -/
theorem Sound.add_firstSeen {type : StoredType} {limit : Nat} {nullHandling : Bool}
    {seen values : List (Option Key)} {value : Option Key}
    (h : Sound ⟨type, limit, nullHandling, seen, .firstSeen values⟩)
    (hnot : hasSeen ⟨type, limit, nullHandling, seen, .firstSeen values⟩ value = false)
    (hnew : Different (values ++ [value])) :
    (DistinctValues.add ⟨type, limit, nullHandling, seen, .firstSeen values⟩ value).Sound ∧
      (DistinctValues.add ⟨type, limit, nullHandling, seen, .firstSeen values⟩ value).values =
        (values ++ [value]).take limit := by
  have hperm : seen.Perm values := h.seen_perm
  have hlength := hperm.length_eq
  have hlimit : values.length ≤ limit := h.stored
  by_cases hfull : limit ≤ seen.length
  · -- no room: the collection is saturated
    rw [add_of_isSaturated (by simp [isSaturated, isOrdered, size, hfull])]
    refine ⟨h, ?_⟩
    show values = (values ++ [value]).take limit
    rw [List.take_append_of_le_length (by omega), List.take_of_length_le hlimit]
  · have hadd : DistinctValues.add ⟨type, limit, nullHandling, seen, .firstSeen values⟩ value =
        ⟨type, limit, nullHandling, value :: seen, .firstSeen (values ++ [value])⟩ := by
      rw [DistinctValues.add, hnot]
      simp [isSaturated, isOrdered, size, hfull]
    have hroom : (values ++ [value]).length ≤ limit := by
      rw [List.length_append, List.length_singleton]
      omega
    rw [hadd]
    refine ⟨⟨?_, hnew, hroom⟩, ?_⟩
    · exact (hperm.cons value).trans (List.perm_append_singleton value values).symm
    · exact (List.take_of_length_le hroom).symm

/-- A new value for a collection that keeps the best ones. -/
theorem Sound.add_best {type : StoredType} {limit : Nat} {nullHandling : Bool}
    {seen : List (Option Key)} {heap : TopK (Option Key)} {direction : Direction}
    {value : Option Key} (h : Sound ⟨type, limit, nullHandling, seen, .best heap direction⟩)
    (hnot : hasSeen ⟨type, limit, nullHandling, seen, .best heap direction⟩ value = false)
    (hnew : Different (arrange (some direction) heap.toList ++ [value])) :
    (DistinctValues.add ⟨type, limit, nullHandling, seen, .best heap direction⟩ value).Sound ∧
      (DistinctValues.add ⟨type, limit, nullHandling, seen, .best heap direction⟩ value).values =
        (arrange (some direction) (arrange (some direction) heap.toList ++ [value])).take limit := by
  obtain ⟨hvalid, rfl⟩ : heap.Valid (compareValues direction) ∧ heap.maximum = limit := h.stored
  have hseen : seen.Perm heap.toList := h.seen_perm.trans (perm_arrange (some direction) _)
  have hheld : Different heap.toList := h.different.of_perm (perm_arrange (some direction) _)
  -- what the heap holds afterwards is the best of what it held and the value
  have hbest := hvalid.isBest_offer value
  have hshown : (arrange (some direction) heap.toList ++ [value]).Perm (heap.toList ++ [value]) :=
    (perm_arrange _ _).append_right _
  have hvalues : arrange (some direction) (heap.offer (compareValues direction) value).2.toList =
      (arrange (some direction) (arrange (some direction) heap.toList ++ [value])).take
        heap.maximum :=
    (hbest.congr_perm hshown (.refl _)).mergeSort_eq_take (not_tie hnew)
  have hkept : Different (heap.offer (compareValues direction) value).2.toList :=
    (List.pairwise_append.1 ((hnew.of_perm hshown).of_perm hbest.perm)).1
  rw [DistinctValues.add, hnot]
  simp only [isSaturated, isOrdered, Bool.not_true, Bool.false_and, Bool.or_self,
    Bool.false_eq_true, if_false]
  refine ⟨⟨?_, hkept.of_perm (perm_arrange (some direction) _).symm, hvalid.offer value, ?_⟩,
    hvalues⟩
  · rw [values_best]
    refine List.Perm.trans ?_ (perm_arrange _ _).symm
    rcases TopK.offer_cases (compareValues direction) hvalid.size_le value with
      ⟨-, hout, hperm⟩ | ⟨-, root, rest, hlist, -, hout, hperm⟩ | ⟨-, hsame, -⟩
    · -- one more value
      simp only [hout]
      exact ((hseen.cons value).trans (List.perm_append_singleton value _).symm).trans hperm.symm
    · -- the root is forgotten
      simp only [hout]
      exact ((eraseP_perm (hheld.of_perm hseen.symm) (hlist ▸ hseen)).cons value).trans hperm.symm
    · rw [hsame]
      exact hseen
  · exact TopK.maximum_offer ..

/-- **What one value does to a sound collection** depends on what it
shows alone. -/
theorem Sound.add (h : d.Sound) (value : Option Key) :
    (d.add value).Sound ∧ (d.add value).values = keep d.limit d.order d.values value := by
  have hseen : d.hasSeen value = d.values.any (sameValue value) := h.seen_perm.any_eq
  by_cases hany : d.values.any (sameValue value)
  · rw [add_of_seen (hseen.trans hany), keep, if_pos hany]
    exact ⟨h, rfl⟩
  · have hnot : d.hasSeen value = false := by simpa [hseen] using hany
    have hnew := different_append h.different hany
    rw [keep, if_neg hany]
    obtain ⟨type, limit, nullHandling, seen, store⟩ := d
    cases store with
    | firstSeen values => exact h.add_firstSeen hnot hnew
    | best heap direction => exact h.add_best hnot hnew

/-! ## Many values -/

/-- **What values do to a sound collection**, one after the other. -/
theorem Sound.foldl_add (h : d.Sound) (values : List (Option Key)) :
    (values.foldl DistinctValues.add d).Sound ∧
      (values.foldl DistinctValues.add d).values = values.foldl (keep d.limit d.order) d.values := by
  induction values generalizing d with
  | nil => exact ⟨h, rfl⟩
  | cons value rest ih =>
    obtain ⟨hsound, hvalues⟩ := h.add value
    have hrest := ih hsound
    rw [limit_add, order_add, hvalues] at hrest
    exact hrest

theorem foldl_add_of_isSaturated (h : d.isSaturated) (values : List (Option Key)) :
    values.foldl DistinctValues.add d = d := by
  induction values with
  | nil => rfl
  | cons value rest ih => rw [List.foldl_cons, add_of_isSaturated h, ih]

@[simp] theorem type_foldl_add (values : List (Option Key)) :
    (values.foldl add d).type = d.type := by
  induction values generalizing d with
  | nil => rfl
  | cons value values ih => rw [List.foldl_cons, ih, type_add]

@[simp] theorem nullHandling_foldl_add (values : List (Option Key)) :
    (values.foldl add d).nullHandling = d.nullHandling := by
  induction values generalizing d with
  | nil => rfl
  | cons value values ih => rw [List.foldl_cons, ih, nullHandling_add]

@[simp] theorem limit_foldl_add (values : List (Option Key)) :
    (values.foldl add d).limit = d.limit := by
  induction values generalizing d with
  | nil => rfl
  | cons value values ih => rw [List.foldl_cons, ih, limit_add]

@[simp] theorem order_foldl_add (values : List (Option Key)) :
    (values.foldl add d).order = d.order := by
  induction values generalizing d with
  | nil => rfl
  | cons value values ih => rw [List.foldl_cons, ih, order_add]

/-- Values that are in place are shown as they come in. -/
theorem foldl_keep_append {limit : Nat} {order : Option Direction} {front back : List (Option Key)}
    (hdiff : Different (front ++ back)) (hlength : (front ++ back).length ≤ limit)
    (hplace : arrange order (front ++ back) = front ++ back) :
    back.foldl (keep limit order) front = front ++ back := by
  induction back generalizing front with
  | nil => exact (List.append_nil front).symm
  | cons value rest ih =>
    have hsplit : front ++ value :: rest = front ++ [value] ++ rest := by simp
    -- the next value is new, in its place already, and has room
    have hnew : ¬ front.any (sameValue value) := by
      intro hany
      obtain ⟨a, ha, hsame⟩ := List.any_eq_true.1 hany
      exact (List.pairwise_append.1 hdiff).2.2 a ha value List.mem_cons_self (sameValue_comm.1 hsame)
    have hfront : arrange order (front ++ [value]) = front ++ [value] := by
      cases order with
      | none => rfl
      | some direction =>
        refine List.mergeSort_of_pairwise ?_
        have hascending : Ascending (compareValues direction) (front ++ value :: rest) :=
          hplace ▸ ascending_mergeSort (front ++ value :: rest)
        rw [hsplit] at hascending
        exact (List.pairwise_append.1 hascending).1
    have hroom : (front ++ [value]).length ≤ limit := by
      rw [hsplit, List.length_append] at hlength
      omega
    have hkeep : keep limit order front value = front ++ [value] := by
      rw [keep, if_neg hnew, hfront, List.take_of_length_le hroom]
    rw [List.foldl_cons, hkeep, hsplit]
    rw [hsplit] at hdiff hlength hplace
    exact ih hdiff hlength hplace

/-- **What a sound collection shows, a fresh one shows after taking it
in.** -/
theorem Sound.foldl_keep_values (h : d.Sound) :
    d.values.foldl (keep d.limit d.order) [] = d.values :=
  @foldl_keep_append _ _ [] d.values h.different h.length_le (arrange_values d)

end DistinctValues

end SegmentQuery
