import SegmentQuery.Proofs.Operator.Numbering
/-!
# Groups and their numbers

Calls for the numbers of tuples, one after the other from a new generator,
give out `0, 1, 2, …` in the order in which tuples are first accepted. The
numbers and the tuples that have one stand for each other: the same tuples
get the same answer, a number leads back to its tuple, and there are never
more than the limit allows and 32 bits can write. A tuple is turned away
exactly when it is new and no number is left, which below the limit happens
once 32 bits are used up.
-/


namespace SegmentQuery

namespace GroupKeys

open Key

variable {g : GroupKeys} {limit i n : Nat} {tuple a b : List Key} {tuples : List (List Key)}

/-! ## One call after the other -/

/-- The answer of one of the calls is the one that the generator gives after
the calls before. -/
theorem getElem?_fst_assignAll (g : GroupKeys) (h : tuples[i]? = some tuple) :
    (g.assignAll tuples).1[i]? = some ((g.assignAll (tuples.take i)).2.assign tuple).1 := by
  induction tuples generalizing g i with
  | nil => exact nomatch h
  | cons first rest ih =>
    cases i with
    | zero =>
      obtain rfl := Option.some.inj h
      rfl
    | succ i => exact ih (g.assign first).2 h

/-- The answers after some more calls. -/
theorem fst_assignAll_concat (g : GroupKeys) (tuples : List (List Key)) (tuple : List Key) :
    (g.assignAll (tuples ++ [tuple])).1 =
      (g.assignAll tuples).1 ++ [((g.assignAll tuples).2.assign tuple).1] := by
  induction tuples generalizing g with
  | nil => rfl
  | cons first rest ih => exact congrArg (_ :: ·) (ih (g.assign first).2)

/-- **What a call answers** is what is found for its tuple after all
calls. -/
theorem assignAll_new (limit : Nat) (tuples : List (List Key)) :
    (new limit).assignAll tuples =
      (tuples.map (ofDifferent limit (differentTuples tuples)).find?,
        ofDifferent limit (differentTuples tuples)) := by
  have hnew : new limit = ofDifferent limit (differentTuples []) := by
    simp [new, ofDifferent, differentTuples]
  rw [hnew, assignAll_ofDifferent, List.nil_append]

/-- Tuples that are one are found under one number. -/
theorem find?_congr (g : GroupKeys) (h : sameTuple a b) : g.find? a = g.find? b := by
  refine congrArg (List.findIdx? · g.tuples) (funext fun key => ?_)
  rw [Bool.eq_iff_iff]
  exact ⟨fun hkey => sameTuple_trans hkey h, fun hkey => sameTuple_trans hkey (sameTuple_symm h)⟩

/-- **A call is turned away** when its tuple is new and there is no number
left. -/
theorem fst_assign_eq_none_iff (g : GroupKeys) (tuple : List Key) :
    (g.assign tuple).1 = none ↔
      (∀ key ∈ g.tuples, ¬ sameTuple key tuple) ∧ available g.limit ≤ g.count := by
  rw [← find?_eq_none_iff, available_le_iff]
  obtain ⟨n, hfind, hassign⟩ | ⟨hfind, hlimit, hassign⟩ | ⟨hfind, -, hbound, hassign⟩ |
    ⟨hfind, hlimit, hbound, hassign⟩ := g.assign_cases tuple <;> rw [hassign, hfind]
  · exact iff_of_false nofun fun h => nomatch h.1
  · exact iff_of_true rfl ⟨rfl, .inl hlimit⟩
  · exact iff_of_true rfl ⟨rfl, .inr hbound⟩
  · exact iff_of_false nofun fun h => h.2.elim hlimit.not_ge hbound.not_ge

/-- A call adds no tuple, or its own under the next number. -/
theorem tuples_assign (g : GroupKeys) (tuple : List Key) :
    (g.assign tuple).2.tuples = g.tuples ∨
      (g.assign tuple).1 = some g.count ∧ (g.assign tuple).2.tuples = g.tuples ++ [tuple] := by
  obtain ⟨_, -, hassign⟩ | ⟨-, -, hassign⟩ | ⟨-, -, -, hassign⟩ | ⟨-, -, -, hassign⟩ :=
    g.assign_cases tuple <;> rw [hassign]
  · exact .inl rfl
  · exact .inl rfl
  · exact .inl rfl
  · exact .inr ⟨rfl, rfl⟩

/-! ## The order of the numbers -/

/-- Each number was given out once it was the next, to the tuple that it
stands for. -/
def InOrder (tuples : List (List Key)) (numbers : List (Option Nat)) (keys : GroupKeys) : Prop :=
  ∀ n < keys.count, ∃ i : Nat, tuples[i]? = keys.tuples[n]? ∧ numbers[i]? = some (some n) ∧
    ∀ j < i, ∀ m : Nat, numbers[j]? = some (some m) → m < n

variable {numbers : List (Option Nat)}

/-- A number from before still stands for what it stood for. -/
theorem InOrder.exists_earlier (h : InOrder tuples numbers g) (hn : n < g.count)
    (tuple : List Key) (answer : Option Nat) :
    ∃ i : Nat, (tuples ++ [tuple])[i]? = (g.assign tuple).2.tuples[n]? ∧
      (numbers ++ [answer])[i]? = some (some n) ∧
      ∀ j < i, ∀ m : Nat, (numbers ++ [answer])[j]? = some (some m) → m < n := by
  obtain ⟨i, htuple, hnumber, hnext⟩ := h n hn
  have hkept : (g.assign tuple).2.tuples[n]? = g.tuples[n]? := by
    rcases tuples_assign g tuple with hsame | ⟨-, hmore⟩
    · rw [hsame]
    · rw [hmore, List.getElem?_append_left hn]
  rw [List.getElem?_eq_getElem hn] at htuple hkept
  have hi := (List.getElem?_eq_some_iff.1 htuple).1
  have hi' := (List.getElem?_eq_some_iff.1 hnumber).1
  refine ⟨i, ?_, ?_, fun j hj m hm => hnext j hj m ?_⟩
  · rw [List.getElem?_append_left hi, htuple, hkept]
  · rw [List.getElem?_append_left hi', hnumber]
  · rwa [List.getElem?_append_left (hj.trans hi')] at hm

/-- **One more call** keeps the order: its number comes after those given
out so far. -/
theorem InOrder.assign (h : InOrder tuples numbers g) (hlength : numbers.length = tuples.length)
    (hlt : ∀ m : Nat, some m ∈ numbers → m < g.count) (tuple : List Key) :
    InOrder (tuples ++ [tuple]) (numbers ++ [(g.assign tuple).1]) (g.assign tuple).2 := by
  intro n hn
  by_cases hold : n < g.count
  · exact h.exists_earlier hold tuple _
  · rcases tuples_assign g tuple with hsame | ⟨hnumber, hmore⟩
    · rw [count, hsame] at hn
      exact absurd hn hold
    · obtain rfl : n = g.count := by
        rw [count, hmore, List.length_append, List.length_singleton] at hn
        exact Nat.le_antisymm (Nat.le_of_lt_succ hn) (Nat.le_of_not_lt hold)
      refine ⟨tuples.length, ?_, ?_, fun j hj m hm => hlt m ?_⟩
      · rw [hmore, List.getElem?_concat_length, count, List.getElem?_concat_length]
      · rw [← hlength, List.getElem?_concat_length, hnumber]
      · rw [List.getElem?_append_left (hlength ▸ hj)] at hm
        exact List.mem_of_getElem? hm

/-! ## What calls give out -/

/-- What the calls of a new generator answer, and what it holds after
them. -/
structure Numbered (limit : Nat) (tuples : List (List Key)) (numbers : List (Option Nat))
    (keys : GroupKeys) : Prop where
  length_eq : numbers.length = tuples.length
  /-- There are never more numbers than the limit allows and 32 bits can write. -/
  count_le : keys.count ≤ limit ∧ keys.count ≤ Number.bound32
  /-- Different numbers stand for different tuples. -/
  different : Different keys.tuples
  /-- A number leads back to the tuple that it was given to. -/
  tuple_eq : ∀ (i : Nat) (tuple : List Key) (n : Nat), tuples[i]? = some tuple →
    numbers[i]? = some (some n) → ∃ key, keys.tuples[n]? = some key ∧ sameTuple key tuple
  /-- The same tuple gets the same answer every time. -/
  same : ∀ (i j : Nat) (a b : List Key), tuples[i]? = some a → tuples[j]? = some b →
    sameTuple a b → numbers[i]? = numbers[j]?
  inOrder : InOrder tuples numbers keys
  /-- Turned away are the tuples that are new when no number is left. -/
  refused : ∀ (i : Nat) (tuple : List Key), tuples[i]? = some tuple →
    let before := ((new limit).assignAll (tuples.take i)).2
    numbers[i]? = some none ↔
      (∀ key ∈ before.tuples, ¬ sameTuple key tuple) ∧
        (before.count = limit ∨ before.count = Number.bound32)

theorem length_fst_assignAll_new (limit : Nat) (tuples : List (List Key)) :
    ((new limit).assignAll tuples).1.length = tuples.length := by
  rw [assignAll_new, List.length_map]

theorem limit_assignAll_new (limit : Nat) (tuples : List (List Key)) :
    ((new limit).assignAll tuples).2.limit = limit := by rw [assignAll_new, limit_ofDifferent]

theorem count_assignAll_new_le (limit : Nat) (tuples : List (List Key)) :
    ((new limit).assignAll tuples).2.count ≤ available limit := by
  rw [assignAll_new, count_ofDifferent]
  exact Nat.min_le_left ..

/-- A number leads back to a tuple that got it. -/
theorem exists_tuple_of_answer (hi : tuples[i]? = some tuple)
    (h : ((new limit).assignAll tuples).1[i]? = some (some n)) :
    ∃ key, ((new limit).assignAll tuples).2.tuples[n]? = some key ∧ sameTuple key tuple := by
  rw [assignAll_new, List.getElem?_map, hi] at h
  rw [assignAll_new]
  obtain ⟨hn, hsame⟩ := of_find?_eq_some (Option.some.inj h)
  exact ⟨_, List.getElem?_eq_getElem hn, hsame⟩

theorem lt_count_of_mem (h : some n ∈ ((new limit).assignAll tuples).1) :
    n < ((new limit).assignAll tuples).2.count := by
  rw [assignAll_new] at h ⊢
  obtain ⟨tuple, -, hfind⟩ := List.mem_map.1 h
  exact (of_find?_eq_some hfind).1

/-- **Numbers are given out in order.** -/
theorem inOrder_assignAll (limit : Nat) (tuples : List (List Key)) :
    InOrder tuples ((new limit).assignAll tuples).1 ((new limit).assignAll tuples).2 := by
  induction tuples using List.reverseRecOn with
  | nil => exact fun n hn => absurd hn (Nat.not_lt_zero n)
  | append_singleton tuples tuple ih =>
    rw [fst_assignAll_concat, snd_assignAll_append]
    exact ih.assign (length_fst_assignAll_new limit tuples) (fun m => lt_count_of_mem) tuple

/-- **Tuples and numbers stand for each other**, whatever calls have been
made. -/
theorem numbered_assignAll (limit : Nat) (tuples : List (List Key)) :
    Numbered limit tuples ((new limit).assignAll tuples).1 ((new limit).assignAll tuples).2 where
  length_eq := length_fst_assignAll_new limit tuples
  count_le := le_available_iff.1 (count_assignAll_new_le limit tuples)
  different := by
    rw [assignAll_new]
    exact different_ofDifferent limit tuples
  tuple_eq i tuple n hi h := exists_tuple_of_answer hi h
  same i j a b hi hj hsame := by
    rw [assignAll_new, List.getElem?_map, List.getElem?_map, hi, hj]
    exact congrArg some (find?_congr _ hsame)
  inOrder := inOrder_assignAll limit tuples
  refused i tuple hi := by
    intro before
    obtain ⟨hlimit, hbound⟩ : before.count ≤ limit ∧ before.count ≤ Number.bound32 :=
      le_available_iff.1 (count_assignAll_new_le limit _)
    rw [getElem?_fst_assignAll _ hi, Option.some_inj, fst_assign_eq_none_iff,
      limit_assignAll_new, available_le_iff]
    exact and_congr_right fun _ => or_congr ⟨fun h => Nat.le_antisymm hlimit h, fun h => h.ge⟩
      ⟨fun h => Nat.le_antisymm hbound h, fun h => h.ge⟩

/-- **32 bits may be fewer than the limit**: a tuple that is new once they
are used up is turned away below it, and nothing tells of that. -/
theorem turned_away_below_limit (hn : n = Number.bound32) (hlimit : n < limit) :
    let keys := ((new limit).assignAll (counted n)).2
    let tuple := [(Cell.long (Int64.ofNat n)).key]
    (∀ key ∈ keys.tuples, ¬ sameTuple key tuple) ∧ keys.count < keys.limit ∧
      (keys.assign tuple).1 = none ∧ (keys.assign tuple).2.limitReached = false := by
  intro keys tuple
  have hbits : n + 1 ≤ Number.twoPow 63 := hn ▸ by decide
  obtain ⟨hfirst, -, hnew⟩ := List.pairwise_append.1 (counted_succ n ▸ different_counted hbits)
  have hnew (key : List Key) (hkey : key ∈ counted n) : ¬ sameTuple key tuple :=
    hnew key hkey tuple (List.mem_singleton_self tuple)
  have hkeys : keys = ⟨counted n, limit, false⟩ := by
    have hall : (counted n).length ≤ available limit := by
      rw [length_counted, le_available_iff]
      omega
    have hdown : ¬ (limit < (counted n).length ∧ limit ≤ Number.bound32) := by omega
    show ((new limit).assignAll (counted n)).2 = _
    rw [snd_assignAll_new, differentTuples_counted (Nat.le_of_succ_le hbits), ofDifferent,
      List.take_of_length_le hall, decide_eq_false hdown]
  rw [hkeys]
  refine ⟨hnew, (length_counted n).trans_lt hlimit, ?_⟩
  obtain ⟨m, hfind, -⟩ | ⟨-, hfull, -⟩ | ⟨-, -, -, hassign⟩ | ⟨-, -, hroom, -⟩ :=
    assign_cases ⟨counted n, limit, false⟩ tuple
  · rw [find?_eq_none_iff.2 hnew] at hfind
    cases hfind
  · have hle : limit ≤ (counted n).length := hfull
    rw [length_counted] at hle
    exact absurd hle (Nat.not_le.2 hlimit)
  · rw [hassign]
    exact ⟨rfl, rfl⟩
  · have hlt : (counted n).length < Number.bound32 := hroom
    rw [length_counted, hn] at hlt
    exact absurd hlt (Nat.lt_irrefl _)

example : ((new 2).assignAll ([7, 8, 7, 9].map fun n => [(Cell.int n).key])).1 =
    [some 0, some 1, some 0, none] := rfl

end GroupKeys

end SegmentQuery
