import SegmentQuery.Proofs.Distinct.Kept
import SegmentQuery.Proofs.Order.Firsts
/-!
# What a collection of distinct values shows

After some values came in, a collection shows the front of their first
occurrences, put in order where there is one. A value that was cut off, by
this collection or by one that is merged into it, is one that can no
longer count: as many values as the limit allows are before it, whatever
came in with them. So a collection of what was shown shows what a
collection of everything shows.
-/


namespace SegmentQuery

open Std (TransCmp OrientedCmp)

namespace DistinctValues

variable {limit : Nat} {order : Option Direction} {values more : List (Option Key)}
variable {value v : Option Key}

/-- The values of a list without those that an earlier one is. -/
def firstValues (values : List (Option Key)) : List (Option Key) := firsts (compareValues .asc) values

/-- What a collection shows that took in some values. -/
def shown (limit : Nat) (order : Option Direction) (values : List (Option Key)) :
    List (Option Key) :=
  (arrange order (firstValues values)).take limit

theorem different_firstValues (values : List (Option Key)) : Different (firstValues values) :=
  apart_firsts values

/-- Every value is one of the first occurrences. -/
theorem exists_mem_firstValues (h : value ∈ values) : ∃ v ∈ firstValues values, sameValue v value :=
  exists_mem_firsts h

/-- Different values that are all in a list are no more than the list. -/
theorem Different.length_le (h : Different values)
    (hin : ∀ a ∈ values, ∃ b ∈ more, sameValue b a) : values.length ≤ more.length :=
  Apart.length_le h hin

theorem different_arrange (order : Option Direction) (h : Different values) :
    Different (arrange order values) :=
  h.of_perm (perm_arrange order values).symm

theorem length_shown (limit : Nat) (order : Option Direction) (values : List (Option Key)) :
    (shown limit order values).length = min limit (firstValues values).length := by
  rw [shown, List.length_take, (perm_arrange _ _).length_eq]

theorem mem_of_mem_shown (h : v ∈ shown limit order values) : v ∈ values :=
  mem_of_mem_firsts ((perm_arrange _ _).mem_iff.1 (List.mem_of_mem_take h))

theorem different_shown (limit : Nat) (order : Option Direction) (values : List (Option Key)) :
    Different (shown limit order values) :=
  (different_arrange order (different_firstValues values)).sublist (List.take_sublist _ _)

theorem any_sameValue_eq (values : List (Option Key)) (value : Option Key) :
    values.any (sameValue value) = values.any (ties (compareValues .asc) · value) :=
  congrArg values.any (funext fun _ => Bool.eq_iff_iff.2 sameValue_comm)

/-! ## Values in order -/

/-- Whether a value goes before another. As they come, all that came
before do. -/
def Before (order : Option Direction) (a b : Option Key) : Prop :=
  match order with
  | none => True
  | some direction => (compareValues direction a b).isLE

/-- Values that are in order. -/
theorem pairwise_before_arrange (order : Option Direction) (values : List (Option Key)) :
    (arrange order values).Pairwise (Before order) := by
  cases order with
  | none => exact List.pairwise_of_forall fun _ _ => trivial
  | some direction => exact ascending_mergeSort values

/-- Different values that are in order stay as they are. -/
theorem arrange_of_pairwise (h : values.Pairwise (Before order)) : arrange order values = values := by
  cases order with
  | none => rfl
  | some direction => exact List.mergeSort_of_pairwise h

theorem pairwise_before_shown (limit : Nat) (order : Option Direction)
    (values : List (Option Key)) : (shown limit order values).Pairwise (Before order) :=
  (pairwise_before_arrange order _).sublist (List.take_sublist _ _)

/-- **The order in which different values are arranged** is that of the
values, not of the list, where there is an order. -/
theorem arrange_congr {direction : Direction} (hdiff : Different values)
    (hperm : values.Perm more) : arrange (some direction) values = arrange (some direction) more :=
  mergeSort_eq_of_ascending (hperm.trans (perm_arrange (some direction) more).symm)
    (ascending_mergeSort more) (not_tie (different_arrange _ (hdiff.of_perm hperm)))

/-! ## Values that cannot count -/

/-- A value changes nothing if a full limit of values goes before it. -/
theorem keep_of_full (hlength : values.length = limit) (hsorted : values.Pairwise (Before order))
    (hbefore : ∀ v ∈ values, Before order v value) : keep limit order values value = values := by
  have hplace : (values ++ [value]).Pairwise (Before order) :=
    List.pairwise_append.2 ⟨hsorted, List.pairwise_singleton _ _, fun v hv w hw =>
      List.mem_singleton.1 hw ▸ hbefore v hv⟩
  unfold keep
  split
  · rfl
  · rw [arrange_of_pairwise hplace, List.take_append_of_le_length hlength.ge,
      List.take_of_length_le hlength.le]

/-- In ascending order, what comes before a value that goes after
another is all that goes before the other. -/
theorem countP_lt_of_not_before {cmp : Option Key → Option Key → Ordering} [TransCmp cmp]
    {front back : List (Option Key)} (hsorted : Ascending cmp (front ++ back)) (hv : v ∈ front)
    (hnot : ¬ (cmp v value).isLE) :
    (front ++ back).countP (fun w => (cmp w value).isLE) < front.length := by
  have hback : back.countP (fun w => (cmp w value).isLE) = 0 := by
    refine List.countP_eq_zero.2 fun w hw hle => hnot ?_
    exact TransCmp.isLE_trans ((List.pairwise_append.1 hsorted).2.2 v hv w hw) hle
  rw [List.countP_append, hback, Nat.add_zero]
  refine Nat.lt_of_le_of_ne List.countP_le_length fun heq => hnot ?_
  exact List.countP_eq_length.1 heq v hv

/-- Values change nothing if a full limit of values goes before them. -/
theorem foldl_keep_of_full (hlength : values.length = limit)
    (hsorted : values.Pairwise (Before order))
    (hbefore : ∀ w ∈ more, ∀ v ∈ values, Before order v w) :
    more.foldl (keep limit order) values = values := by
  induction more with
  | nil => rfl
  | cons value more ih =>
    obtain ⟨hvalue, hmore⟩ := List.forall_mem_cons.1 hbefore
    rw [List.foldl_cons, keep_of_full hlength hsorted hvalue, ih hmore]

/-- **A full limit of values that go before one leave no room for it**,
whatever came in with them. -/
theorem full_of_before {before : List (Option Key)} (hdiff : Different before)
    (hin : before ⊆ values) (hlimit : limit ≤ before.length)
    (hbefore : ∀ b ∈ before, Before order b value) :
    (shown limit order values).length = limit ∧
      ∀ v ∈ shown limit order values, Before order v value := by
  have hcovered : ∀ b ∈ before, ∃ v ∈ arrange order (firstValues values), sameValue v b := by
    intro b hb
    obtain ⟨v, hv, hsame⟩ := exists_mem_firstValues (hin hb)
    exact ⟨v, (perm_arrange order _).mem_iff.2 hv, hsame⟩
  have hmany := hdiff.length_le hcovered
  rw [(perm_arrange order _).length_eq] at hmany
  refine ⟨by rw [length_shown]; omega, fun v hv => ?_⟩
  cases order with
  | none => trivial
  | some direction =>
    by_contra hnot
    have hsorted := pairwise_before_arrange (some direction) (firstValues values)
    rw [← List.take_append_drop limit (arrange _ _)] at hsorted
    -- too few values go before this one, but all of `before` do
    have hfew := countP_lt_of_not_before hsorted hv hnot
    rw [List.take_append_drop, List.countP_eq_length_filter] at hfew
    have hless := List.length_take_le limit (arrange (some direction) (firstValues values))
    have hpartner : ∀ b ∈ before, ∃ w ∈ (arrange (some direction) (firstValues values)).filter
        fun w => (compareValues direction w value).isLE, sameValue w b := by
      intro b hb
      obtain ⟨w, hw, hsame⟩ := hcovered b hb
      refine ⟨w, List.mem_filter.2 ⟨hw, ?_⟩, hsame⟩
      have htie : (compareValues direction w b).isLE := by
        rw [sameValue_iff.1 hsame]
        rfl
      exact TransCmp.isLE_trans htie (hbefore b hb)
    have hall := hdiff.length_le hpartner
    omega

/-! ## One value after others -/

theorem firstValues_append_singleton (values : List (Option Key)) (value : Option Key) :
    firstValues (values ++ [value]) =
      if (firstValues values).any (sameValue value) then firstValues values
      else firstValues values ++ [value] := by
  rw [any_sameValue_eq]
  exact firsts_append_singleton values value

/-- The front of values in order are the best ones. -/
theorem isBest_take_arrange (direction : Direction) (limit : Nat) (values : List (Option Key)) :
    IsBest (compareValues direction) limit values ((arrange (some direction) values).take limit)
      ((arrange (some direction) values).drop limit) where
  perm := by
    rw [List.take_append_drop]
    exact (perm_arrange _ _).symm
  length := by rw [List.length_take, (perm_arrange _ _).length_eq]
  le := by
    have hsorted := pairwise_before_arrange (some direction) values
    rw [← List.take_append_drop limit (arrange _ _)] at hsorted
    exact (List.pairwise_append.1 hsorted).2.2

/-- What is cut off first does not count when one more value is put in
its place. -/
theorem take_arrange_take (hdiff : Different (values ++ [value])) :
    (arrange order ((arrange order values).take limit ++ [value])).take limit =
      (arrange order (values ++ [value])).take limit := by
  cases order with
  | none =>
    show (values.take limit ++ [value]).take limit = (values ++ [value]).take limit
    rw [List.take_append, List.take_append, List.take_take, Nat.min_self, List.length_take]
    congr 2
    omega
  | some direction =>
    have hbest := (isBest_take_arrange direction limit values).trans
      (isBest_take_arrange direction limit (_ ++ [value]))
    have hsorted : ((arrange (some direction)
        ((arrange (some direction) values).take limit ++ [value])).take limit).Pairwise
          (Before (some direction)) :=
      (pairwise_before_arrange (some direction) _).sublist (List.take_sublist _ _)
    rw [← arrange_of_pairwise hsorted]
    exact hbest.mergeSort_eq_take (not_tie hdiff)

/-- A value that has been seen changes nothing, be it shown or cut
off. -/
theorem keep_shown_of_seen (hv : v ∈ firstValues values) (hsame : sameValue value v) :
    keep limit order (shown limit order values) value = shown limit order values := by
  have hmem := (perm_arrange order (firstValues values)).mem_iff.2 hv
  have hsorted := pairwise_before_arrange order (firstValues values)
  rw [← List.take_append_drop limit (arrange order _)] at hmem hsorted
  rcases List.mem_append.1 hmem with hshown | hcut
  · have hany : (shown limit order values).any (sameValue value) :=
      List.any_eq_true.2 ⟨v, hshown, hsame⟩
    rw [keep, if_pos hany]
  · refine keep_of_full ?_ (pairwise_before_shown limit order values) fun w hw => ?_
    · have hpos := List.length_pos_of_mem hcut
      rw [List.length_drop] at hpos
      rw [shown, List.length_take]
      omega
    · have hle := (List.pairwise_append.1 hsorted).2.2 w hw v hcut
      cases order with
      | none => trivial
      | some direction =>
        have htie : (compareValues direction v value).isLE := by
          rw [sameValue_iff.1 (sameValue_comm.1 hsame)]
          rfl
        exact TransCmp.isLE_trans hle htie

/-- **Taking in one more value** is showing what has come in with it. -/
theorem keep_shown (limit : Nat) (order : Option Direction) (values : List (Option Key))
    (value : Option Key) :
    keep limit order (shown limit order values) value = shown limit order (values ++ [value]) := by
  rw [shown.eq_def limit order (values ++ [value]), firstValues_append_singleton]
  by_cases hknown : (firstValues values).any (sameValue value) = true
  · obtain ⟨v, hv, hsame⟩ := List.any_eq_true.1 hknown
    rw [if_pos hknown, keep_shown_of_seen hv hsame, shown]
  · have hnew : ¬ (shown limit order values).any (sameValue value) := fun hany => hknown <| by
      obtain ⟨v, hv, hsame⟩ := List.any_eq_true.1 hany
      exact List.any_eq_true.2
        ⟨v, (perm_arrange order _).mem_iff.1 (List.mem_of_mem_take hv), hsame⟩
    rw [if_neg hknown, keep, if_neg hnew]
    exact take_arrange_take (different_append (different_firstValues values) hknown)

/-- **What a collection shows that takes in values one after the
other.** -/
theorem foldl_keep_shown (limit : Nat) (order : Option Direction) (values more : List (Option Key)) :
    more.foldl (keep limit order) (shown limit order values) = shown limit order (values ++ more) := by
  induction more generalizing values with
  | nil => rw [List.append_nil, List.foldl_nil]
  | cons value more ih => rw [List.foldl_cons, keep_shown, ih, List.append_assoc, List.singleton_append]

theorem shown_nil (limit : Nat) (order : Option Direction) : shown limit order [] = [] :=
  List.eq_nil_iff_forall_not_mem.2 fun _ hv => List.not_mem_nil (mem_of_mem_shown hv)

/-- What a fresh collection shows that takes in values. -/
theorem foldl_keep_nil (limit : Nat) (order : Option Direction) (values : List (Option Key)) :
    values.foldl (keep limit order) [] = shown limit order values := by
  have hfold := foldl_keep_shown limit order [] values
  rwa [shown_nil, List.nil_append] at hfold

/-! ## Collections that are merged -/

theorem firstValues_append (values more : List (Option Key)) :
    firstValues (values ++ more) = firstValues values ++
      (firstValues more).filter fun a => !values.any (ties (compareValues .asc) · a) :=
  firsts_append values more

/-- Different values are their own first occurrences. -/
theorem firstValues_of_different (h : Different values) : firstValues values = values :=
  firsts_of_apart h

/-- First occurrences in their order stand for what they are of. -/
theorem shown_append_arrange (limit : Nat) (order : Option Direction)
    (values more : List (Option Key)) :
    shown limit order (values ++ arrange order (firstValues more)) =
      shown limit order (values ++ more) := by
  have hagain := firstValues_of_different (different_arrange order (different_firstValues more))
  rw [shown, shown]
  cases order with
  | none =>
    rw [firstValues_append, hagain, firstValues_append]
    rfl
  | some direction =>
    refine congrArg (List.take limit) (arrange_congr (different_firstValues _) ?_)
    rw [firstValues_append, hagain, firstValues_append]
    exact ((perm_arrange _ _).filter _).append_left _

/-- **What was cut off from a collection does not count in another
one.** -/
theorem shown_append_shown (limit : Nat) (order : Option Direction)
    (values more : List (Option Key)) :
    shown limit order (values ++ shown limit order more) = shown limit order (values ++ more) := by
  have hsplit := List.take_append_drop limit (arrange order (firstValues more))
  have hsorted := pairwise_before_arrange order (firstValues more)
  rw [← hsplit] at hsorted
  rw [← shown_append_arrange limit order values more, ← hsplit, ← List.append_assoc,
    ← foldl_keep_shown limit order (values ++ _)]
  -- each value that was cut off finds a full limit of values before it
  have hfull (w : Option Key) (hw : w ∈ (arrange order (firstValues more)).drop limit) :
      (shown limit order (values ++ shown limit order more)).length = limit ∧
        ∀ v ∈ shown limit order (values ++ shown limit order more), Before order v w := by
    refine full_of_before (different_shown limit order more) (List.subset_append_right _ _) ?_
      fun v hv => (List.pairwise_append.1 hsorted).2.2 v hv w hw
    have hpos := List.length_pos_of_mem hw
    rw [List.length_drop] at hpos
    rw [shown, List.length_take]
    omega
  cases hcut : (arrange order (firstValues more)).drop limit with
  | nil => rfl
  | cons w rest =>
    rw [hcut] at hfull
    exact (foldl_keep_of_full (hfull w List.mem_cons_self).1 (pairwise_before_shown limit order _)
      fun w hw => (hfull w hw).2).symm

/-- What several collections show, taken in one after the other, is what
a collection of everything shows. -/
theorem shown_append_flatMap_shown (limit : Nat) (order : Option Direction)
    (values : List (Option Key)) (parts : List (List (Option Key))) :
    shown limit order (values ++ parts.flatMap (shown limit order)) =
      shown limit order (values ++ parts.flatten) := by
  induction parts generalizing values with
  | nil => rfl
  | cons part parts ih =>
    rw [List.flatMap_cons, List.flatten_cons, ← List.append_assoc, ih, ← List.append_assoc]
    rw [← foldl_keep_shown, shown_append_shown, foldl_keep_shown]

end DistinctValues

end SegmentQuery
