import SegmentQuery.Aggregate.Fold
import SegmentQuery.Proofs.Number.Sums
import SegmentQuery.Proofs.Result.Combining
/-!
# Sums of whole decimals

Decimals that come from integers have no fraction, and adding two of them
needs none: the sum is exact as long as its magnitude is below `2 ^ 96`,
and there is no sum from there on.
-/


namespace SegmentQuery

namespace Decimal

/-- A decimal is an integer, written without a fraction. -/
def IsWhole (d : Decimal) (n : Int) : Prop := d.toScaled = .ofCoeff n 0

variable {x y : Decimal} {a b n : Int}

theorem isWhole_zero : zero.IsWhole 0 := rfl

theorem isWhole_ofInt32 (i : Int32) : (ofInt32 i).IsWhole i.toInt := rfl

theorem isWhole_ofInt64 (i : Int64) : (ofInt64 i).IsWhole i.toInt := rfl

theorem IsWhole.coeff_eq (h : x.IsWhole n) : x.coeff = n := by
  rw [h, Scaled.coeff_ofCoeff]

theorem IsWhole.scale_eq (h : x.IsWhole n) : x.scale = 0 := by
  rw [h]
  rfl

/-- There is one decimal for each integer that fits. -/
theorem ofParts?_eq_some_iff : ofParts? n 0 = some x ↔ x.IsWhole n := by
  constructor
  · intro h
    exact (of_ofParts? h).1
  · intro h
    have hfits : n.natAbs < coeffLimit ∧ 0 ≤ maxScale := by
      have hlt := x.magnitude_lt
      rw [h] at hlt
      exact ⟨hlt, Nat.zero_le _⟩
    rw [ofParts?, dif_pos hfits]
    exact congrArg some (ext_toScaled h.symm)

/-- Without a fraction there is no digit to drop. -/
theorem fit?_zero (n : Int) : fit? n 0 = ofParts? n 0 := by
  rw [fit?, List.range_succ, List.range_zero, List.nil_append, List.findSome?_cons, roundDiv_one]
  cases ofParts? n 0 <;> rfl

/-- **Adding integers** adds them, or finds no room for the sum. -/
theorem IsWhole.add?_eq (hx : x.IsWhole a) (hy : y.IsWhole b) :
    x.add? y = ofParts? (a + b) 0 := by
  have hzero {z : Decimal} {m : Int} (hz : z.IsWhole m) : z.isZero = true ↔ m = 0 := by
    rw [hz]
    simp [Scaled.isZero, Scaled.ofCoeff]
  unfold add?
  split
  · rename_i hleft
    rw [(hzero hx).1 hleft, Int.zero_add]
    exact (ofParts?_eq_some_iff.2 hy).symm
  · split
    · rename_i hright
      rw [(hzero hy).1 hright, Int.add_zero]
      exact (ofParts?_eq_some_iff.2 hx).symm
    · have hone : ((Number.tenPow (0 - 0) : Nat) : Int) = 1 := rfl
      rw [hx.scale_eq, hy.scale_eq, hx.coeff_eq, hy.coeff_eq, Nat.max_self]
      dsimp only
      rw [hone, Int.mul_one, Int.mul_one, fit?_zero]

theorem IsWhole.of_add? (hx : x.IsWhole a) (hy : y.IsWhole b) {z : Decimal}
    (h : x.add? y = some z) : z.IsWhole (a + b) :=
  ofParts?_eq_some_iff.1 (hx.add?_eq hy ▸ h)

theorem IsWhole.exists_add? (hx : x.IsWhole a) (hy : y.IsWhole b)
    (hfits : (a + b).natAbs < coeffLimit) : ∃ z, x.add? y = some z := by
  rw [hx.add?_eq hy, ofParts?, dif_pos ⟨hfits, Nat.zero_le _⟩]
  exact ⟨_, rfl⟩

end Decimal

/-! ## Running sums -/

namespace Holder

open Decimal

variable {h after : Holder} {sum : Decimal} {n : Int} {ds : List Decimal} {ns : List Int}

/-- **A block's integers are added exactly**, and one of them is enough to
note that a value arrived. -/
theorem of_addDecimals (hds : List.Forall₂ IsWhole ds ns) (hsum : sum.IsWhole n)
    (hok : (h.addDecimals sum ds).toExcept = .ok after) :
    after.value.toDecimal.IsWhole (n + ns.sum) ∧
      after.seenNonNull = (h.seenNonNull || !ns.isEmpty) := by
  induction hds generalizing h sum n with
  | nil =>
    obtain rfl := Except.ok.inj hok
    rw [List.sum_nil, Int.add_zero]
    exact ⟨hsum, (Bool.or_false _).symm⟩
  | @cons d m ds ns hd _ ih =>
    rw [addDecimals] at hok
    cases hadd : sum.add? d with
    | none =>
      rw [hadd] at hok
      exact nomatch hok
    | some next =>
      rw [hadd] at hok
      obtain ⟨htotal, hseen⟩ := ih (hsum.of_add? hd hadd) hok
      rw [List.sum_cons, ← Int.add_assoc]
      exact ⟨htotal, by simpa using hseen⟩

/-- The additions go through while every sum on the way fits. -/
theorem exists_addDecimals (hds : List.Forall₂ IsWhole ds ns) (hsum : sum.IsWhole n)
    (hfits : ∀ k, (n + (ns.take k).sum).natAbs < coeffLimit) :
    ∃ after, (h.addDecimals sum ds).toExcept = .ok after := by
  induction hds generalizing h sum n with
  | nil => exact ⟨_, rfl⟩
  | @cons d m ds ns hd _ ih =>
    obtain ⟨next, hadd⟩ := hsum.exists_add? hd (by simpa using hfits 1)
    obtain ⟨after, hafter⟩ := ih (h := { h with seenNonNull := true }) (hsum.of_add? hd hadd)
      fun k => by simpa [Int.add_assoc] using hfits (k + 1)
    refine ⟨after, ?_⟩
    rw [addDecimals, hadd]
    exact hafter

end Holder

/-- A sum is no greater than as many times the greatest of its terms. -/
theorem natAbs_sum_le {ns : List Int} {bound : Nat} (h : ∀ n ∈ ns, n.natAbs ≤ bound) :
    ns.sum.natAbs ≤ ns.length * bound := by
  induction ns with
  | nil => simp
  | cons n ns ih =>
    obtain ⟨hn, hns⟩ := List.forall_mem_cons.1 h
    rw [List.sum_cons, List.length_cons, Nat.add_mul, Nat.one_mul]
    have := ih hns
    omega

end SegmentQuery
