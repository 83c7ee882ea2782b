import SegmentQuery.Aggregate.Merge
import SegmentQuery.Proofs.Number.Sums
import SegmentQuery.Proofs.Progress
/-!
# What a failed block leaves behind

A block that cannot be folded into a scan's holder leaves the holder's
value as it was, for every function. What it may leave behind is the note
that a value arrived: a decimal sum notes it with the first decimal that it
adds and is written only after the last one, so an overflow further on
drops the sum and keeps the note. Under null handling the holder then shows
the sum from before the block where it showed a null.
-/


namespace SegmentQuery

variable {f : AggregateFunction} {length : Nat} {input : Option Column} {h : Holder} {e : QueryError}

/-- The sum takes in the first decimal of a list. -/
def Decimal.TakesFirst (sum : Decimal) : List Decimal → Prop
  | [] => False
  | d :: _ => (sum.add? d).isSome

/-- **An overflow keeps the sum**, and notes a value if the first one was
taken in. -/
theorem Holder.keeps_of_addDecimals {sum : Decimal} {ds : List Decimal}
    (herror : (h.addDecimals sum ds).error = some e) :
    (h.addDecimals sum ds).state.value = h.value ∧
      ((h.addDecimals sum ds).state.seenNonNull = true ↔
        h.seenNonNull = true ∨ sum.TakesFirst ds) := by
  induction ds generalizing h sum with
  | nil => cases herror
  | cons d ds ih =>
    rw [addDecimals] at herror ⊢
    rw [Decimal.TakesFirst]
    cases hadd : sum.add? d with
    | none => exact ⟨rfl, (or_iff_left Bool.false_ne_true).symm⟩
    | some total =>
      -- from here on the note stands, and the sum is not written
      rw [hadd] at herror
      obtain ⟨hvalue, hseen⟩ := ih herror
      exact ⟨hvalue, iff_of_true (hseen.2 (.inl rfl)) (.inr rfl)⟩

namespace AggregateFunction

/-- A decimal sum reads a block and takes in its first decimal. -/
def TakesFirst (length : Nat) (input : Option Column) (h : Holder) : AggregateFunction → Prop
  | .sumPrecision _ _ _ nullHandling => ∃ c ds, input = some c ∧
      c.decimals nullHandling length = .ok ds ∧ h.value.toDecimal.TakesFirst (ds.filterMap id)
  | _ => False

/-- What a failed block leaves of a holder. -/
structure LeftBehind (f : AggregateFunction) (length : Nat) (input : Option Column)
    (h left : Holder) : Prop where
  value_eq : left.value = h.value
  /-- Nothing but a first value of its own changes the holder. -/
  eq_iff : left = h ↔ (f.TakesFirst length input h → h.seenNonNull = true)
  /-- The change shows where the holder showed a null. -/
  extract_iff : f.extract left = f.extract h ↔
    (f.TakesFirst length input h → f.extract h ≠ .null)

theorem leftBehind_self (hnone : ¬ f.TakesFirst length input h) : f.LeftBehind length input h h where
  value_eq := rfl
  eq_iff := iff_of_true rfl fun hfirst => absurd hfirst hnone
  extract_iff := iff_of_true rfl fun hfirst => absurd hfirst hnone

/-- The note is all that a holder's value does not say. -/
theorem leftBehind_of_seen {left : Holder} (hvalue : left.value = h.value)
    (hseen : left.seenNonNull = true ↔ h.seenNonNull = true ∨ f.TakesFirst length input h) :
    f.LeftBehind length input h left := by
  by_cases hfirst : f.TakesFirst length input h
  · -- the note stands now
    have hleft : left = { h with seenNonNull := true } := by
      obtain ⟨value, seenNonNull⟩ := left
      obtain rfl : value = h.value := hvalue
      obtain rfl : seenNonNull = true := hseen.2 (.inr hfirst)
      rfl
    obtain ⟨column, precision, scale, nullHandling, rfl⟩ :
        ∃ column precision scale nullHandling, f = sumPrecision column precision scale nullHandling := by
      cases f with
      | sumPrecision column precision scale nullHandling => exact ⟨_, _, _, _, rfl⟩
      | min column | max column | sum column | count column => exact hfirst.elim
    refine ⟨hvalue, ?_, ?_⟩
    · rw [hleft]
      obtain ⟨value, seenNonNull⟩ := h
      cases seenNonNull <;> simp [hfirst]
    · rw [hleft]
      cases nullHandling <;> cases hbefore : h.seenNonNull <;> simp [extract, hfirst, hbefore]
  · have hleft : left = h := by
      obtain ⟨value, seenNonNull⟩ := left
      obtain rfl : value = h.value := hvalue
      have hnote : seenNonNull = h.seenNonNull := Bool.eq_iff_iff.2 (hseen.trans (or_iff_left hfirst))
      rw [hnote]
    rw [hleft]
    exact leftBehind_self hfirst

/-- **What a failed block leaves behind.** The value stays; the note that a
value arrived is new exactly when a decimal sum took in a first value, and
shows under null handling alone. -/
theorem leftBehind_aggregate (herror : (f.aggregate length input h).error = some e) :
    f.LeftBehind length input h (f.aggregate length input h).state := by
  cases f with
  | min column | max column | sum column =>
    rw [aggregate, (Progress.of_ofExcept herror).2]
    exact leftBehind_self id
  | count column => cases herror
  | sumPrecision column precision scale nullHandling =>
    cases input with
    | none => exact leftBehind_self fun ⟨_, _, hinput, _⟩ => nomatch hinput
    | some c =>
      cases hds : c.decimals nullHandling length with
      | error unread =>
        have hkeeps : (aggregate (.sumPrecision column precision scale nullHandling) length (some c)
            h).state = h := by
          simp only [aggregate, requireInput, hds]
          rfl
        rw [hkeeps]
        refine leftBehind_self fun ⟨c', ds, hc, hread, _⟩ => ?_
        obtain rfl := Option.some.inj hc
        cases hds.symm.trans hread
      | ok ds =>
        have hadds : aggregate (.sumPrecision column precision scale nullHandling) length (some c) h =
            h.addDecimals h.value.toDecimal (ds.filterMap id) := by
          simp only [aggregate, requireInput, hds]
        rw [hadds] at herror ⊢
        obtain ⟨hvalue, hseen⟩ := Holder.keeps_of_addDecimals herror
        refine leftBehind_of_seen hvalue (hseen.trans (or_congr_right ⟨fun hfirst => ?_, ?_⟩))
        · exact ⟨c, ds, rfl, hds, hfirst⟩
        · rintro ⟨c', ds', hc, hread, hfirst⟩
          obtain rfl := Option.some.inj hc
          obtain rfl := Except.ok.inj (hds.symm.trans hread)
          exact hfirst

/-- A column of the greatest decimal and a 1. -/
def overflowing : Column where
  values := .single .bigDecimal [Decimal.greatest, Decimal.ofInt32 1]
  nulls := none

/-- An overflow at the second value turns a null into a zero. -/
theorem leftBehind_aggregate_overflow :
    let f : AggregateFunction := .sumPrecision "v" 0 none true
    let folded := f.aggregate 2 (some overflowing) f.holder
    folded.error = some .decimalSumOverflow ∧ f.extract f.holder = .null ∧
      f.extract folded.state = .bigDecimal Decimal.zero ∧
      f.LeftBehind 2 (some overflowing) f.holder folded.state := by
  intro f folded
  have herror : folded.error = some .decimalSumOverflow := by rfl
  exact ⟨herror, rfl, rfl, leftBehind_aggregate herror⟩

end AggregateFunction

end SegmentQuery
