import SegmentQuery.Column.Numeric
import SegmentQuery.Aggregate.Fold
import SegmentQuery.Proofs.Number.Nearest
/-!
# Least and greatest

A least and a greatest are taken the same way, in opposite orders: inside
a block by comparing elements, between blocks and between segments by
comparing doubles. Where a block has no value a sentinel of the column's
type stands in, and where there was no block an infinity does.
-/


namespace SegmentQuery

namespace Double

/-! ## Integers beside infinities -/

theorem min_infinity_ofInt (i : Int) : infinity.min (ofInt i) = ofInt i := by
  rw [Double.min, isNan_ofInt, if_neg (by decide), if_neg Bool.false_ne_true]
  split
  · rfl
  · rename_i hlt
    exact (ofInt_eq_infinity (Bool.eq_false_iff.2 hlt)).symm

theorem min_ofInt_infinity (i : Int) : (ofInt i).min infinity = ofInt i := by
  have hlt : infinity.lt (ofInt i) = false := by
    rw [lt_eq_of_not_nan (by decide) (isNan_ofInt i)]
    exact decide_eq_false (Int.not_lt.2 (rank_ofInt_le_infinity i))
  rw [Double.min, isNan_ofInt, if_neg Bool.false_ne_true, if_neg (by decide), hlt,
    if_neg Bool.false_ne_true]

theorem max_negInfinity_ofInt (i : Int) : negInfinity.max (ofInt i) = ofInt i := by
  rw [Double.max, isNan_ofInt, if_neg (by decide), if_neg Bool.false_ne_true]
  split
  · rfl
  · rename_i hlt
    refine (ofInt_eq_negInfinity ?_).symm
    rw [lt_eq_of_not_nan (by decide) (isNan_ofInt i), decide_eq_true_iff] at hlt
    rw [le_eq_of_not_nan (isNan_ofInt i) (by decide)]
    exact decide_eq_true (Int.not_lt.1 hlt)

theorem max_ofInt_negInfinity (i : Int) : (ofInt i).max negInfinity = ofInt i := by
  have hlt : (ofInt i).lt negInfinity = false := by
    rw [lt_eq_of_not_nan (isNan_ofInt i) (by decide)]
    exact decide_eq_false (Int.not_lt.2 (negInfinity_le_rank_ofInt i))
  rw [Double.max, isNan_ofInt, if_neg Bool.false_ne_true, if_neg (by decide), hlt,
    if_neg Bool.false_ne_true]

end Double

/-! ## The two extrema -/

/-- One of the two extrema: which of two integers it takes, how it takes
one of two doubles, and the double that stands for nothing. -/
structure Extremum where
  /-- Whether one integer is taken before another. -/
  before : Int → Int → Bool
  merge : Double → Double → Double
  /-- The extremum of no values. -/
  nothing : Double
  before_total : ∀ a b, before a b = true ∨ before b a = true
  before_trans : ∀ {a b c}, before a b = true → before b c = true → before a c = true
  before_antisymm : ∀ {a b}, before a b = true → before b a = true → a = b
  merge_of_before : ∀ {a b}, before a b = true →
    merge (Double.ofInt a) (Double.ofInt b) = Double.ofInt a
  merge_of_after : ∀ {a b}, before b a = true →
    merge (Double.ofInt a) (Double.ofInt b) = Double.ofInt b
  nothing_merge : ∀ i, merge nothing (Double.ofInt i) = Double.ofInt i
  merge_nothing : ∀ i, merge (Double.ofInt i) nothing = Double.ofInt i
  nothing_merge_nothing : merge nothing nothing = nothing

namespace Extremum

def least : Extremum where
  before a b := decide (a ≤ b)
  merge := Double.min
  nothing := Double.infinity
  before_total a b := by simpa using Int.le_total a b
  before_trans hab hbc := by simp only [decide_eq_true_eq] at *; omega
  before_antisymm hab hba := by simp only [decide_eq_true_eq] at *; omega
  merge_of_before h := by rw [Double.min_ofInt, Int.min_eq_left (of_decide_eq_true h)]
  merge_of_after h := by rw [Double.min_ofInt, Int.min_eq_right (of_decide_eq_true h)]
  nothing_merge := Double.min_infinity_ofInt
  merge_nothing := Double.min_ofInt_infinity
  nothing_merge_nothing := rfl

def greatest : Extremum where
  before a b := decide (b ≤ a)
  merge := Double.max
  nothing := Double.negInfinity
  before_total a b := by simpa using Int.le_total b a
  before_trans hab hbc := by simp only [decide_eq_true_eq] at *; omega
  before_antisymm hab hba := by simp only [decide_eq_true_eq] at *; omega
  merge_of_before h := by rw [Double.max_ofInt, Int.max_eq_left (of_decide_eq_true h)]
  merge_of_after h := by rw [Double.max_ofInt, Int.max_eq_right (of_decide_eq_true h)]
  nothing_merge := Double.max_negInfinity_ofInt
  merge_nothing := Double.max_ofInt_negInfinity
  nothing_merge_nothing := rfl

variable {e : Extremum} {a b n : Int} {ns ms : List Int}

/-- An integer of a list that no other one is taken before. -/
def Picks (e : Extremum) (ns : List Int) (n : Int) : Prop :=
  n ∈ ns ∧ ∀ m ∈ ns, e.before n m = true

theorem before_refl (e : Extremum) (a : Int) : e.before a a = true := (e.before_total a a).elim id id

/-- **The pick of two lists together** is the one of their picks that is
taken before the other. -/
theorem Picks.append (ha : e.Picks ns a) (hb : e.Picks ms b) :
    ∃ n, e.Picks (ns ++ ms) n ∧ e.merge (Double.ofInt a) (Double.ofInt b) = Double.ofInt n := by
  rcases e.before_total a b with h | h
  · refine ⟨a, ⟨List.mem_append_left _ ha.1, fun m hm => ?_⟩, e.merge_of_before h⟩
    exact (List.mem_append.1 hm).elim (ha.2 m) fun hm => e.before_trans h (hb.2 m hm)
  · refine ⟨b, ⟨List.mem_append_right _ hb.1, fun m hm => ?_⟩, e.merge_of_after h⟩
    exact (List.mem_append.1 hm).elim (fun hm => e.before_trans h (ha.2 m hm)) (hb.2 m)

/-- Only what is in a list counts. -/
theorem Picks.congr (h : e.Picks ns n) (hmem : ∀ m, m ∈ ns ↔ m ∈ ms) : e.Picks ms n :=
  ⟨(hmem n).1 h.1, fun m hm => h.2 m ((hmem m).2 hm)⟩

/-- Beside values that are taken before it a sentinel does not show. -/
theorem Picks.of_cons {sentinel : Int} (h : e.Picks (sentinel :: ns) n)
    (hafter : ∀ m ∈ ns, e.before m sentinel = true) (hne : ns ≠ []) : e.Picks ns n := by
  have hbefore : ∀ m ∈ ns, e.before n m = true := fun m hm => h.2 m (List.mem_cons_of_mem _ hm)
  rcases List.mem_cons.1 h.1 with rfl | hmem
  · -- where the sentinel is picked, every value is the sentinel
    obtain ⟨m, hm⟩ := List.exists_mem_of_ne_nil ns hne
    obtain rfl := e.before_antisymm (hafter m hm) (hbefore m hm)
    exact ⟨hm, hbefore⟩
  · exact ⟨hmem, hbefore⟩

/-! ## Inside a block -/

/-- The kept element is a pick. -/
theorem picks_best {α : Type} {toInt : α → Int} {better : α → α → Bool}
    (hbetter : ∀ a b, better a b = e.before (toInt a) (toInt b)) (v : α) (vs : List α) :
    ∃ kept, Numeric.best better (v :: vs) = some kept ∧
      e.Picks ((v :: vs).map toInt) (toInt kept) := by
  refine ⟨_, rfl, ?_⟩
  induction vs generalizing v with
  | nil => exact ⟨List.mem_cons_self, by simpa using e.before_refl _⟩
  | cons w vs ih =>
    obtain ⟨hmem, hbefore⟩ := ih (if better v w then v else w)
    obtain ⟨hkept, hrest⟩ := List.forall_mem_cons.1 hbefore
    rw [List.foldl_cons]
    -- the kept one of the first two is before the other
    by_cases hvw : better v w = true
    · rw [if_pos hvw] at hmem hkept hrest ⊢
      rw [hbetter] at hvw
      refine ⟨((List.sublist_cons_self (toInt w) _).cons_cons (toInt v)).subset hmem, ?_⟩
      exact List.forall_mem_cons.2
        ⟨hkept, List.forall_mem_cons.2 ⟨e.before_trans hkept hvw, hrest⟩⟩
    · rw [if_neg hvw] at hmem hkept hrest ⊢
      rw [hbetter] at hvw
      have hwv := (e.before_total (toInt v) (toInt w)).resolve_left hvw
      refine ⟨List.mem_cons_of_mem _ hmem, ?_⟩
      exact List.forall_mem_cons.2
        ⟨e.before_trans hkept hwv, List.forall_mem_cons.2 ⟨hkept, hrest⟩⟩

/-- **The extremum of a block's values** is the pick of them and the
sentinel. -/
theorem picks_block {α : Type} {toInt : α → Int} {better : α → α → Bool} {toDouble : α → Double}
    {sentinel : Int} (hbetter : ∀ a b, better a b = e.before (toInt a) (toInt b))
    (hdouble : ∀ a, toDouble a = Double.ofInt (toInt a)) {vs : List α}
    (hafter : ∀ v ∈ vs, e.before (toInt v) sentinel = true) :
    ∃ n, e.Picks (sentinel :: vs.map toInt) n ∧
      ((Numeric.best better vs).map toDouble).getD (Double.ofInt sentinel) = Double.ofInt n := by
  cases vs with
  | nil => exact ⟨sentinel, ⟨List.mem_cons_self, by simpa using e.before_refl sentinel⟩, rfl⟩
  | cons v vs =>
    obtain ⟨kept, hkept, hpicks⟩ := picks_best hbetter v vs
    refine ⟨toInt kept, ⟨List.mem_cons_of_mem _ hpicks.1, List.forall_mem_cons.2 ⟨?_, hpicks.2⟩⟩, ?_⟩
    · exact e.before_trans (hpicks.2 _ List.mem_cons_self) (hafter v List.mem_cons_self)
    · rw [hkept, Option.map_some, Option.getD_some, hdouble]

end Extremum

end SegmentQuery
