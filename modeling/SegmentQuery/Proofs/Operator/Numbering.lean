import SegmentQuery.Aggregate.GroupKeys
import SegmentQuery.Proofs.Order.Firsts
import SegmentQuery.Proofs.Order.Keys
/-!
# Numbers of groups

The tuples that have numbers are the first of the different tuples, in
the order in which they came, as many as the limit allows and 32 bits can
number. A tuple that is numbered once has its number for good. The flag is
up exactly when there are more different tuples than the limit, and the
limit is one that numbers can reach.
-/


namespace SegmentQuery

open Std (TransCmp OrientedCmp ReflCmp)

namespace Key

variable {a b c : List Key}

theorem sameTuple_iff : sameTuple a b ↔ compareTuples a b = .eq := by simp [sameTuple]

@[simp] theorem sameTuple_refl (a : List Key) : sameTuple a a := ties_refl a

theorem sameTuple_symm (h : sameTuple a b) : sameTuple b a := ties_symm h

theorem sameTuple_trans (hab : sameTuple a b) (hbc : sameTuple b c) : sameTuple a c :=
  ties_trans hab hbc

/-- Tuples that are one look the same to any other. -/
theorem sameTuple_congr (h : sameTuple a b) (c : List Key) : sameTuple a c = sameTuple b c :=
  ties_congr h c

/-! ## Different tuples -/

/-- One more tuple after the different ones so far. -/
def noteTuple (seen : List (List Key)) (tuple : List Key) : List (List Key) :=
  if seen.any (sameTuple · tuple) then seen else seen ++ [tuple]

/-- The tuples of a list without those that an earlier one is the same
as. -/
def differentTuples (tuples : List (List Key)) : List (List Key) := tuples.foldl noteTuple []

/-- No two tuples are the same. -/
def Different (tuples : List (List Key)) : Prop :=
  tuples.Pairwise fun a b => ¬ sameTuple a b

variable {tuples : List (List Key)}

theorem Different.nodup (h : Different tuples) : tuples.Nodup := by
  refine List.Pairwise.imp (fun {a b} hne heq => hne ?_) h
  rw [heq]
  exact sameTuple_refl b

/-! Tuples are the same where they tie, so the different ones are the
first occurrences. -/

theorem different_differentTuples (tuples : List (List Key)) :
    Different (differentTuples tuples) := apart_firsts tuples

theorem mem_of_mem_differentTuples (h : a ∈ differentTuples tuples) : a ∈ tuples :=
  mem_of_mem_firsts h

/-- Every tuple is the same as one of the different ones. -/
theorem exists_mem_differentTuples (h : a ∈ tuples) :
    ∃ b ∈ differentTuples tuples, sameTuple b a := exists_mem_firsts h

/-- Some tuple of a list is the same as a given one exactly when one of the
different ones is. -/
theorem exists_mem_differentTuples_iff (tuples : List (List Key)) (tuple : List Key) :
    (∃ a ∈ differentTuples tuples, sameTuple a tuple) ↔ ∃ a ∈ tuples, sameTuple a tuple := by
  rw [← List.any_eq_true, ← List.any_eq_true]
  exact Bool.eq_iff_iff.1 (any_ties_firsts tuples tuple)

/-- **Different tuples that are all in a list are no more than the
list.** -/
theorem length_le_of_different {others : List (List Key)} (h : Different tuples)
    (hin : ∀ a ∈ tuples, ∃ b ∈ others, sameTuple b a) : tuples.length ≤ others.length :=
  Apart.length_le h hin

/-- A list has no more different tuples than tuples. -/
theorem length_differentTuples_le (tuples : List (List Key)) :
    (differentTuples tuples).length ≤ tuples.length :=
  length_le_of_different (different_differentTuples tuples) fun a ha =>
    ⟨a, mem_of_mem_differentTuples ha, ties_refl a⟩

/-- A part of a list has no more different tuples than the list. -/
theorem length_differentTuples_mono {others : List (List Key)} (h : tuples ⊆ others) :
    (differentTuples tuples).length ≤ (differentTuples others).length := by
  refine length_le_of_different (different_differentTuples _) fun a ha => ?_
  exact exists_mem_differentTuples (h (mem_of_mem_differentTuples ha))

/-! ## Counted tuples -/

/-- The tuples of the first `n` numbers. -/
def counted (n : Nat) : List (List Key) :=
  (List.range n).map fun i => [(Cell.long (Int64.ofNat i)).key]

@[simp] theorem length_counted (n : Nat) : (counted n).length = n := by simp [counted]

theorem counted_succ (n : Nat) :
    counted (n + 1) = counted n ++ [[(Cell.long (Int64.ofNat n)).key]] := by
  simp [counted, List.range_succ]

theorem eq_of_sameTuple_long {x y : Int64}
    (h : sameTuple [(Cell.long x).key] [(Cell.long y).key]) : x = y := by
  rw [sameTuple_iff, compareTuples, List.compareLex] at h
  refine Std.LawfulEqCmp.eq_of_compare (show Cell.compareInt64 x y = .eq from ?_)
  split at h
  · exact nomatch h
  · assumption
  · exact nomatch h

/-- Numbers that 64 bits hold make different tuples. -/
theorem different_counted {n : Nat} (h : n ≤ Number.twoPow 63) : Different (counted n) := by
  refine List.pairwise_map.2 (List.pairwise_lt_range.imp_of_mem fun {i j} hi hj hlt hsame => ?_)
  have hvalue := congrArg Int64.toInt (eq_of_sameTuple_long hsame)
  rw [Int64.toInt_ofNat_of_lt ((List.mem_range.1 hi).trans_le h),
    Int64.toInt_ofNat_of_lt ((List.mem_range.1 hj).trans_le h)] at hvalue
  omega

theorem differentTuples_counted {n : Nat} (h : n ≤ Number.twoPow 63) :
    differentTuples (counted n) = counted n := firsts_of_apart (different_counted h)

end Key

namespace GroupKeys

open Key

variable {g : GroupKeys} {tuple : List Key} {tuples : List (List Key)} {limit n : Nat}

/-- The state after numbering one tuple after the other. -/
theorem snd_assignAll (g : GroupKeys) (tuples : List (List Key)) :
    (g.assignAll tuples).2 = tuples.foldl (fun g tuple => (g.assign tuple).2) g := by
  induction tuples generalizing g with
  | nil => rfl
  | cons tuple rest ih => exact ih (g.assign tuple).2

theorem snd_assignAll_append (g : GroupKeys) (front back : List (List Key)) :
    (g.assignAll (front ++ back)).2 = ((g.assignAll front).2.assignAll back).2 := by
  rw [snd_assignAll, snd_assignAll, snd_assignAll, List.foldl_append]

theorem find?_eq_none_iff : g.find? tuple = none ↔ ∀ a ∈ g.tuples, ¬ sameTuple a tuple := by
  simp [find?, List.findIdx?_eq_none_iff]

/-! ## What has a number -/

/-- How many numbers can be given out under a limit. -/
def available (limit : Nat) : Nat := min limit Number.bound32

theorem available_le (limit : Nat) : available limit ≤ limit := Nat.min_le_left ..

/-- Tuples that fit the limit have numbers, unless 32 bits are too few for
them. -/
theorem le_available_iff : n ≤ available limit ↔ n ≤ limit ∧ n ≤ Number.bound32 := Nat.le_min

/-- No number is left past the limit, or past 32 bits. -/
theorem available_le_iff : available limit ≤ n ↔ limit ≤ n ∨ Number.bound32 ≤ n := min_le_iff

/-- The numbering after some different tuples: the first of them, and
whether the limit has kept one from getting a number. -/
def ofDifferent (limit : Nat) (seen : List (List Key)) : GroupKeys :=
  ⟨seen.take (available limit), limit,
    decide (limit < seen.length ∧ limit ≤ Number.bound32)⟩

variable {seen : List (List Key)}

theorem count_ofDifferent :
    (ofDifferent limit seen).count = min (available limit) seen.length :=
  List.length_take

@[simp] theorem limit_ofDifferent : (ofDifferent limit seen).limit = limit := rfl

/-- A tuple that is found is one of the different ones. -/
theorem any_of_find?_ofDifferent (h : (ofDifferent limit seen).find? tuple = some n) :
    seen.any (sameTuple · tuple) = true := by
  by_contra hnew
  refine nomatch h.symm.trans (find?_eq_none_iff.2 fun a ha hsame => hnew ?_)
  exact List.any_eq_true.2 ⟨a, List.mem_of_mem_take ha, hsame⟩

/-- While all different tuples have numbers, one that is not found is
new. -/
theorem any_eq_false_of_find?_ofDifferent (h : (ofDifferent limit seen).find? tuple = none)
    (hall : seen.length ≤ available limit) : seen.any (sameTuple · tuple) = false := by
  refine List.any_eq_false.2 fun a ha hsame => find?_eq_none_iff.1 h a ?_ hsame
  show a ∈ seen.take (available limit)
  rwa [List.take_of_length_le hall]

/-- A tuple that is not found gets the next number while there is one; else
it is refused, and the flag tells where that is for the limit. -/
theorem snd_assign_of_find?_eq_none (h : g.find? tuple = none) :
    (g.assign tuple).2 =
      if g.count < available g.limit then { g with tuples := g.tuples ++ [tuple] }
      else { g with limitReached := g.limitReached || decide (g.limit ≤ g.count) } := by
  obtain ⟨n, hfind, -⟩ | ⟨-, hlimit, hassign⟩ | ⟨-, hlimit, hbound, hassign⟩ |
    ⟨-, hlimit, hbound, hassign⟩ := g.assign_cases tuple
  · exact nomatch h.symm.trans hfind
  · rw [hassign, if_neg (Nat.not_lt.2 (available_le_iff.2 (.inl hlimit))), decide_eq_true hlimit,
      Bool.or_true]
  · rw [hassign, if_neg (Nat.not_lt.2 (available_le_iff.2 (.inr hbound))),
      decide_eq_false hlimit.not_ge, Bool.or_false]
  · have hroom : g.count < available g.limit := le_available_iff.2 ⟨hlimit, hbound⟩
    rw [hassign, if_pos hroom]

/-- Once there are more different tuples than numbers, the flag is up where
the limit is the reason. -/
theorem flag_of_refused {m : Nat} (hle : n ≤ m) (hmore : available limit < m) :
    (decide (limit < n ∧ limit ≤ Number.bound32) || decide (limit ≤ available limit)) =
      decide (limit < m ∧ limit ≤ Number.bound32) := by
  unfold available at *
  rw [Bool.eq_iff_iff, Bool.or_eq_true, decide_eq_true_iff, decide_eq_true_iff, decide_eq_true_iff]
  omega

/-- Numbering one more tuple. -/
theorem snd_assign_ofDifferent (seen : List (List Key)) (tuple : List Key) :
    ((ofDifferent limit seen).assign tuple).2 = ofDifferent limit (noteTuple seen tuple) := by
  cases hfind : (ofDifferent limit seen).find? tuple with
  | some n => rw [GroupKeys.assign, hfind, noteTuple, if_pos (any_of_find?_ofDifferent hfind)]
  | none =>
    have hlimit := available_le limit
    rw [snd_assign_of_find?_eq_none hfind, count_ofDifferent, limit_ofDifferent]
    by_cases hroom : seen.length < available limit
    · -- all different tuples so far have numbers, and this one gets the next
      have hnew := any_eq_false_of_find?_ofDifferent hfind hroom.le
      have hnone : ¬ limit < seen.length := by omega
      have hnone' : ¬ limit < seen.length + 1 := by omega
      have hlen : (seen ++ [tuple]).length ≤ available limit := by
        rw [List.length_append, List.length_singleton]
        exact hroom
      rw [if_pos (show min (available limit) seen.length < available limit by omega), noteTuple,
        hnew]
      simp [ofDifferent, List.take_of_length_le hroom.le, List.take_of_length_le hlen, hnone,
        hnone']
    · -- no number is left, and the flag goes up where the limit is the reason
      have hle : available limit ≤ seen.length := Nat.le_of_not_lt hroom
      rw [if_neg (show ¬ min (available limit) seen.length < available limit by omega),
        Nat.min_eq_left hle, noteTuple]
      cases hknown : seen.any (sameTuple · tuple) with
      | true =>
        -- a known tuple without a number has been refused before
        have hmore : available limit < seen.length := by
          by_contra hmore
          have hnew := any_eq_false_of_find?_ofDifferent hfind (Nat.le_of_not_lt hmore)
          exact nomatch hknown.symm.trans hnew
        simp only [ofDifferent, flag_of_refused (Nat.le_refl _) hmore, if_true]
      | false =>
        have hflag := flag_of_refused (Nat.le_succ seen.length) (Nat.lt_succ_of_le hle)
        simp only [ofDifferent, hflag, List.take_append_of_le_length hle, Bool.false_eq_true,
          if_false, List.length_append, List.length_singleton]

/-- **The tuples that get numbers** are the first of the different ones,
and the flag tells whether the limit has kept one from it. -/
theorem snd_assignAll_new (limit : Nat) (tuples : List (List Key)) :
    ((new limit).assignAll tuples).2 = ofDifferent limit (differentTuples tuples) := by
  rw [snd_assignAll]
  induction tuples using List.reverseRecOn with
  | nil => simp [new, ofDifferent, differentTuples]
  | append_singleton tuples tuple ih =>
    have hmore : differentTuples (tuples ++ [tuple]) = noteTuple (differentTuples tuples) tuple := by
      rw [differentTuples, List.foldl_append]
      rfl
    rw [List.foldl_append, ih, hmore]
    exact snd_assign_ofDifferent _ tuple

/-! ## The numbers given out -/

/-- What an assignment answers is what is found from then on. -/
theorem find?_snd_assign (g : GroupKeys) (tuple : List Key) :
    (g.assign tuple).2.find? tuple = (g.assign tuple).1 := by
  obtain ⟨n, hfind, hassign⟩ | ⟨hfind, -, hassign⟩ | ⟨hfind, -, -, hassign⟩ |
    ⟨hfind, -, -, hassign⟩ := g.assign_cases tuple <;> rw [hassign]
  · exact hfind
  · exact hfind
  · exact hfind
  · have hold : List.findIdx? (sameTuple · tuple) g.tuples = none := hfind
    simp [find?, List.findIdx?_append, hold, count]

/-- A number stays. -/
theorem find?_assign_of_some (h : g.find? tuple = some n) (other : List Key) :
    (g.assign other).2.find? tuple = some n := by
  obtain ⟨_, -, hassign⟩ | ⟨-, -, hassign⟩ | ⟨-, -, -, hassign⟩ | ⟨-, -, -, hassign⟩ :=
    g.assign_cases other <;> rw [hassign]
  · exact h
  · exact h
  · exact h
  · have hold : List.findIdx? (sameTuple · tuple) g.tuples = some n := h
    simp [find?, List.findIdx?_append, hold]

theorem find?_assignAll_of_some (h : g.find? tuple = some n) (others : List (List Key)) :
    (g.assignAll others).2.find? tuple = some n := by
  induction others generalizing g with
  | nil => exact h
  | cons other rest ih => exact ih (find?_assign_of_some h other)

/-- A number that is found is that of a tuple. -/
theorem of_find?_eq_some (h : g.find? tuple = some n) :
    ∃ hn : n < g.tuples.length, sameTuple g.tuples[n] tuple := by
  obtain ⟨hn, hsame, -⟩ := List.findIdx?_eq_some_iff_getElem.1 h
  exact ⟨hn, hsame⟩

/-- Of different tuples only one is the same as a given one, and its
number is found. -/
theorem find?_eq_some_iff (hdiffer : Different g.tuples) :
    g.find? tuple = some n ↔ ∃ hn : n < g.tuples.length, sameTuple g.tuples[n] tuple := by
  refine ⟨of_find?_eq_some, ?_⟩
  rintro ⟨hn, hsame⟩
  refine List.findIdx?_eq_some_iff_getElem.2 ⟨hn, hsame, fun j hj hsame' => ?_⟩
  have hne := List.pairwise_iff_getElem.1 hdiffer j n (hj.trans hn) hn hj
  exact hne (sameTuple_trans hsame' (sameTuple_symm hsame))

/-! ## While there are numbers -/

/-- No two tuples with numbers are the same. -/
theorem different_ofDifferent (limit : Nat) (tuples : List (List Key)) :
    Different (ofDifferent limit (differentTuples tuples)).tuples :=
  (different_differentTuples tuples).sublist (List.take_sublist (available limit) _)

theorem tuples_ofDifferent (h : seen.length ≤ available limit) :
    (ofDifferent limit seen).tuples = seen := List.take_of_length_le h

/-- Where the flag is down, all different tuples have numbers, unless they
fit the limit and 32 bits are too few for them. -/
theorem le_available_of_flag_down
    (hnumbers : limit ≤ Number.bound32 ∨ seen.length ≤ Number.bound32)
    (hflag : (ofDifferent limit seen).limitReached = false) : seen.length ≤ available limit := by
  have hdown := of_decide_eq_false hflag
  rw [le_available_iff]
  omega

/-- While the different tuples fit, each tuple has a number. -/
theorem isSome_find?_ofDifferent (h : (differentTuples tuples).length ≤ available limit)
    (hmem : tuple ∈ tuples) : ((ofDifferent limit (differentTuples tuples)).find? tuple).isSome := by
  rw [Option.isSome_iff_ne_none]
  intro hnone
  obtain ⟨b, hb, hsame⟩ := exists_mem_differentTuples hmem
  rw [find?_eq_none_iff, tuples_ofDifferent h] at hnone
  exact hnone b hb hsame

/-- **A tuple that has come keeps what it got**, a number or none: once one
is refused no more numbers are given out. -/
theorem find?_ofDifferent_append (limit : Nat) (hmem : tuple ∈ tuples) (more : List (List Key)) :
    (ofDifferent limit (differentTuples (tuples ++ more))).find? tuple =
      (ofDifferent limit (differentTuples tuples)).find? tuple := by
  cases hfind : (ofDifferent limit (differentTuples tuples)).find? tuple with
  | some n =>
    have hstays := find?_assignAll_of_some hfind more
    rwa [← snd_assignAll_new, ← snd_assignAll_append, snd_assignAll_new] at hstays
  | none =>
    -- it is one of the different tuples, but not of those that have numbers
    have hfull : available limit ≤ (differentTuples tuples).length := by
      by_contra hroom
      have hsome := isSome_find?_ofDifferent (Nat.le_of_not_le hroom) hmem
      rw [hfind] at hsome
      cases hsome
    have hlater : differentTuples (tuples ++ more) = _ := firsts_append tuples more
    have hsame : (differentTuples (tuples ++ more)).take (available limit) =
        (differentTuples tuples).take (available limit) := by
      rw [hlater]
      exact List.take_append_of_le_length hfull
    rw [← hfind, find?, find?, ofDifferent, ofDifferent, hsame]

/-- **The number given to a tuple** is the one that is found from then
on. -/
theorem assign_ofDifferent (limit : Nat) (tuples : List (List Key)) (tuple : List Key) :
    (ofDifferent limit (differentTuples tuples)).assign tuple =
      ((ofDifferent limit (differentTuples (tuples ++ [tuple]))).find? tuple,
        ofDifferent limit (differentTuples (tuples ++ [tuple]))) := by
  have hnote : noteTuple (differentTuples tuples) tuple = differentTuples (tuples ++ [tuple]) := by
    rw [differentTuples, differentTuples, List.foldl_append]
    rfl
  have hnext := @snd_assign_ofDifferent limit (differentTuples tuples) tuple
  rw [hnote] at hnext
  have hnumber := find?_snd_assign (ofDifferent limit (differentTuples tuples)) tuple
  rw [hnext] at hnumber
  exact Prod.ext hnumber.symm hnext

theorem assignAll_ofDifferent (limit : Nat) (tuples more : List (List Key)) :
    (ofDifferent limit (differentTuples tuples)).assignAll more =
      (more.map (ofDifferent limit (differentTuples (tuples ++ more))).find?,
        ofDifferent limit (differentTuples (tuples ++ more))) := by
  induction more generalizing tuples with
  | nil =>
    rw [List.append_nil]
    rfl
  | cons tuple more ih =>
    have hkeeps := find?_ofDifferent_append limit
      (List.mem_append_right tuples (List.mem_singleton_self tuple)) more
    rw [assignAll, assign_ofDifferent]
    dsimp only
    rw [ih, ← hkeeps, ← List.append_cons, List.map_cons]

end GroupKeys

end SegmentQuery
