import SegmentQuery.Proofs.Segment.Cells
import SegmentQuery.Result.NullSet
/-!
# Looking up null rows

A set cut into chunks still has its members: the upper halves of the
chunks ascend strictly, so the halving search finds the one chunk that a
number can be in.
-/


namespace SegmentQuery

namespace NullSet

/-! ## The chunks of an ascending list -/

/-- Splitting a list puts its first number into the chunk of its upper
half. -/
theorem split_cons_cases (n : Nat) (rest : List Nat) :
    (∃ lows more, split rest = (n / halfBound, lows) :: more ∧
      split (n :: rest) = (n / halfBound, n % halfBound :: lows) :: more) ∨
    split (n :: rest) = (n / halfBound, [n % halfBound]) :: split rest ∧
      ∀ chunk more, split rest = chunk :: more → chunk.1 ≠ n / halfBound := by
  cases hrest : split rest with
  | nil => exact .inr ⟨by rw [split, hrest], by simp⟩
  | cons chunk more =>
    obtain ⟨high, lows⟩ := chunk
    by_cases hhigh : high = n / halfBound
    · subst hhigh
      exact .inl ⟨lows, more, rfl, by rw [split, hrest]; exact if_pos rfl⟩
    · refine .inr ⟨by rw [split, hrest]; exact if_neg hhigh, ?_⟩
      rintro chunk more' ⟨rfl, rfl⟩
      exact hhigh

/-- **A number's lower half stands in the chunk of its upper half**, and
only the numbers of the list do so. -/
theorem mem_split_iff {ns : List Nat} {n : Nat} :
    (∃ chunk ∈ split ns, chunk.1 = n / halfBound ∧ n % halfBound ∈ chunk.2) ↔ n ∈ ns := by
  induction ns with
  | nil => simp [split]
  | cons m rest ih =>
    have hsame : m / halfBound = n / halfBound ∧ n % halfBound = m % halfBound ↔ n = m := by
      constructor
      · rintro ⟨hdiv, hmod⟩
        rw [← Nat.div_add_mod n halfBound, ← Nat.div_add_mod m halfBound, hdiv, hmod]
      · rintro rfl
        exact ⟨rfl, rfl⟩
    rw [List.mem_cons, ← ih, ← hsame]
    rcases split_cons_cases m rest with ⟨lows, more, hrest, hsplit⟩ | ⟨hsplit, -⟩
    · rw [hsplit, hrest]
      constructor
      · rintro ⟨chunk, hchunk, hhigh, hlow⟩
        rcases List.mem_cons.1 hchunk with rfl | hchunk
        · rcases List.mem_cons.1 hlow with hlow | hlow
          · exact .inl ⟨hhigh, hlow⟩
          · exact .inr ⟨_, List.mem_cons_self, hhigh, hlow⟩
        · exact .inr ⟨chunk, List.mem_cons_of_mem _ hchunk, hhigh, hlow⟩
      · rintro (⟨hhigh, hlow⟩ | ⟨chunk, hchunk, hhigh, hlow⟩)
        · exact ⟨_, List.mem_cons_self, hhigh, hlow ▸ List.mem_cons_self⟩
        · rcases List.mem_cons.1 hchunk with rfl | hchunk
          · exact ⟨_, List.mem_cons_self, hhigh, List.mem_cons_of_mem _ hlow⟩
          · exact ⟨chunk, List.mem_cons_of_mem _ hchunk, hhigh, hlow⟩
    · rw [hsplit]
      constructor
      · rintro ⟨chunk, hchunk, hhigh, hlow⟩
        rcases List.mem_cons.1 hchunk with rfl | hchunk
        · exact .inl ⟨hhigh, List.mem_singleton.1 hlow⟩
        · exact .inr ⟨chunk, hchunk, hhigh, hlow⟩
      · rintro (⟨hhigh, hlow⟩ | ⟨chunk, hchunk, hhigh, hlow⟩)
        · exact ⟨_, List.mem_cons_self, hhigh, List.mem_singleton.2 hlow⟩
        · exact ⟨chunk, List.mem_cons_of_mem _ hchunk, hhigh, hlow⟩

/-- Each chunk has the upper half of some number. -/
theorem exists_of_mem_split {ns : List Nat} {chunk : Nat × List Nat} (h : chunk ∈ split ns) :
    ∃ n ∈ ns, chunk.1 = n / halfBound := by
  induction ns with
  | nil => exact absurd h (by simp [split])
  | cons m rest ih =>
    rcases split_cons_cases m rest with ⟨lows, more, hrest, hsplit⟩ | ⟨hsplit, -⟩
    · rw [hsplit] at h
      rw [hrest] at ih
      rcases List.mem_cons.1 h with rfl | h
      · exact ⟨m, List.mem_cons_self, rfl⟩
      · obtain ⟨n, hn, heq⟩ := ih (List.mem_cons_of_mem _ h)
        exact ⟨n, List.mem_cons_of_mem m hn, heq⟩
    · rw [hsplit] at h
      rcases List.mem_cons.1 h with rfl | h
      · exact ⟨m, List.mem_cons_self, rfl⟩
      · obtain ⟨n, hn, heq⟩ := ih h
        exact ⟨n, List.mem_cons_of_mem m hn, heq⟩

/-- The upper halves of an ascending list ascend strictly. -/
theorem ascending_split {ns : List Nat} (h : ns.Pairwise (· < ·)) :
    ((split ns).map Prod.fst).Pairwise (· < ·) := by
  induction ns with
  | nil => exact .nil
  | cons m rest ih =>
    obtain ⟨hm, hrest⟩ := List.pairwise_cons.1 h
    have hsorted := ih hrest
    rcases split_cons_cases m rest with ⟨lows, more, hsplit', hsplit⟩ | ⟨hsplit, hhead⟩
    · rw [hsplit]
      rw [hsplit'] at hsorted
      exact hsorted
    · rw [hsplit, List.map_cons, List.pairwise_cons]
      refine ⟨fun high hhigh => ?_, hsorted⟩
      -- no upper half is less than the first number's, and the first chunk's is not the same
      have hge {chunk : Nat × List Nat} (hc : chunk ∈ split rest) : m / halfBound ≤ chunk.1 := by
        obtain ⟨n, hn, heq⟩ := exists_of_mem_split hc
        rw [heq]
        exact Nat.div_le_div_right (Nat.le_of_lt (hm n hn))
      cases hsplit' : split rest with
      | nil =>
        rw [hsplit'] at hhigh
        exact absurd hhigh (by simp)
      | cons chunk more =>
        rw [hsplit'] at hhigh hsorted hge
        have hfirst := hhead chunk more hsplit'
        have hlt : m / halfBound < chunk.1 :=
          Nat.lt_of_le_of_ne (hge List.mem_cons_self) (Ne.symm hfirst)
        rcases List.mem_cons.1 hhigh with rfl | hhigh
        · exact hlt
        · exact Nat.lt_trans hlt ((List.pairwise_cons.1 hsorted).1 high hhigh)

theorem map_high_ofDocSet (s : DocSet) :
    (ofDocSet s).chunks.map Chunk.high = (split s.toList).map Prod.fst := by
  simp [ofDocSet, Chunk.ofLows, Function.comp_def]

/-- The upper halves of a set's chunks ascend strictly. -/
theorem ascending_highs (s : DocSet) :
    ((ofDocSet s).chunks.map Chunk.high).Pairwise (· < ·) := by
  rw [map_high_ofDocSet]
  exact ascending_split s.ascending

/-! ## The search -/

/-- **The search finds the place of a number that is there.** -/
theorem searchHigh_eq {highs : List Nat} (hasc : highs.Pairwise (· < ·)) {key place : Nat}
    (hlt : place < highs.length) (hkey : highs[place] = key) {base size : Nat}
    (hbase : base ≤ place) (hsize : place < base + size) (hbound : base + size ≤ highs.length) :
    searchHigh highs.toArray key base size = place := by
  have hmono {i j : Nat} (hij : i < j) (hj : j < highs.length) : highs[i] < highs[j] :=
    List.pairwise_iff_getElem.1 hasc i j (by omega) hj hij
  fun_induction searchHigh highs.toArray key base size with
  | case1 base size hone => omega
  | case2 base size hmany mid ih =>
    have hmid : mid = base + size / 2 := rfl
    have hmidlt : mid < highs.length := by omega
    have hget : highs.toArray.getD mid 0 = highs[mid] := by
      simp [Array.getD, hmidlt]
    by_cases hless : key < highs.toArray.getD mid 0
    · simp only [if_pos hless, dif_pos hless] at ih ⊢
      have hplace : place < mid := by
        by_contra hge
        rcases Nat.lt_or_eq_of_le (Nat.not_lt.1 hge) with hlt' | heq
        · have := hmono hlt' hlt
          omega
        · subst heq
          omega
      exact ih hbase (by omega) (by omega) hmono
    · simp only [if_neg hless, dif_neg hless] at ih ⊢
      have hplace : mid ≤ place := by
        by_contra hlt'
        have := hmono (Nat.not_le.1 hlt') hmidlt
        omega
      exact ih hplace (by omega) (by omega) hmono

/-- **A number is found exactly when it is a member.** -/
@[simp] theorem contains_ofDocSet (s : DocSet) (n : Nat) :
    (ofDocSet s).contains n = s.contains n := by
  rw [Bool.eq_iff_iff, DocSet.contains_iff, ← mem_split_iff]
  have hasc := ascending_highs s
  rw [contains]
  constructor
  · intro h
    cases hfound : (ofDocSet s).chunk? (n / halfBound) with
    | none => exact absurd h (by simp [hfound])
    | some chunk =>
      rw [hfound] at h
      obtain ⟨hmem, hhigh⟩ := Option.filter_eq_some_iff.1 hfound
      obtain ⟨pair, hpair, rfl⟩ := List.mem_map.1 (List.mem_of_getElem? hmem)
      exact ⟨pair, hpair, by simpa [Chunk.ofLows] using hhigh, List.contains_iff_mem.1 h⟩
  · rintro ⟨chunk, hchunk, hhigh, hlow⟩
    obtain ⟨place, hplace, hget⟩ := List.mem_iff_getElem.1 hchunk
    have hlen : (ofDocSet s).chunks.length = (split s.toList).length := by simp [ofDocSet]
    have hsearch : searchHigh ((ofDocSet s).chunks.map Chunk.high).toArray (n / halfBound) 0
        ((ofDocSet s).chunks.map Chunk.high).length = place := by
      refine searchHigh_eq hasc (by simpa [hlen] using hplace) ?_ (Nat.zero_le _) ?_ (by simp)
      · simp [map_high_ofDocSet, hget, hhigh]
      · simpa [hlen] using hplace
    have hfound : (ofDocSet s).chunk? (n / halfBound) = some (.ofLows chunk.1 chunk.2) := by
      have hget' : (ofDocSet s).chunks[place]? = some (.ofLows chunk.1 chunk.2) := by
        simp [ofDocSet, hplace, hget]
      simp only [chunk?, List.size_toArray, hsearch, hget', Option.filter_some]
      simp [Chunk.ofLows, hhigh]
    rw [hfound]
    exact List.contains_iff_mem.2 hlow

end NullSet

end SegmentQuery
