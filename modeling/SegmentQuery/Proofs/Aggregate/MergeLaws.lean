import Mathlib.Algebra.BigOperators.Group.List.Basic
import SegmentQuery.Aggregate.Merge
import SegmentQuery.Proofs.Aggregate.Bounds
import SegmentQuery.Proofs.Aggregate.Summaries
import SegmentQuery.Proofs.Number.Sums
import SegmentQuery.Proofs.Order.Keys
/-!
# The laws of merging

The values that segments send are merged in the order in which they come
and grouped as servers and brokers happen to group them. For a least and a
greatest value, for a count and for an exact decimal sum that makes no
difference: what merging comes to can be said of all values at once
(`ComesTo`), without their order. A null beside values is passed by, except
for a greatest value, which it makes null. A sum of doubles has no such
law.
-/


namespace SegmentQuery

/-! ## Cells of one value -/

namespace Cell

/-- Two cells have one value: the zeros are one number, and the scale of a
decimal does not count. -/
def SameValue (a b : Cell) : Prop := a.key.same b.key

variable {x y : Double} {d e : Decimal}

theorem sameValue_refl (a : Cell) : a.SameValue a := beq_iff_eq.2 Std.ReflCmp.compare_self

theorem sameValue_double (hx : x.isNan = false) (hy : y.isNan = false) (h : x.rank = y.rank) :
    (Cell.double x).SameValue (.double y) := by
  have hrank : x.keyRank = y.keyRank := by rw [Double.keyRank, Double.keyRank, hx, hy, h]
  exact beq_iff_eq.2 (compare_eq_iff_eq.2 hrank)

theorem sameValue_decimal (h : d.toRat = e.toRat) :
    (Cell.bigDecimal d).SameValue (.bigDecimal e) := by
  have hnormal : d.normalize = e.normalize :=
    Decimal.compare_eq_iff.1 (Decimal.compare_eq_iff_toRat.2 h)
  have hkey : (Cell.bigDecimal d).key = (Cell.bigDecimal e).key :=
    congrArg (fun n => Key.mk (.bigDecimal n)) hnormal
  rw [SameValue, hkey]
  exact sameValue_refl (.bigDecimal e)

end Cell

/-- Two extremes of one list have one rank. -/
theorem Bound.IsExtreme.rank_eq {b : Bound} {vs : List Double} {m n : Double}
    (hm : b.IsExtreme vs m) (hn : b.IsExtreme vs n) : m.rank = n.rank := by
  have hplace : b.place m = b.place n := Int.le_antisymm
    (holds_iff.1 (hm.holds_of_isExtreme hn)).2.2 (holds_iff.1 (hn.holds_of_isExtreme hm)).2.2
  cases b with
  | lower => exact hplace
  | upper => exact Int.neg_inj.1 hplace

/-- A count that is not negative is the count of a natural number. -/
theorem Counter.signed_toNat {n : Int64} (h : 0 ≤ n.toInt) : signed n.toInt.toNat = n := by
  have hmax := n.toInt_le
  rw [← Int64.toInt_inj, toInt_signed]
  omega

namespace AggregateFunction

variable {f : AggregateFunction} {cells more : List Cell} {a b c : Cell}

/-! ## What merging comes to -/

/-- The values that a function makes for others to merge: a null, a number
that is no NaN, a count, a decimal. -/
def Intermediate : AggregateFunction → Cell → Prop
  | _, .null => True
  | .min _, .double x | .max _, .double x => x.isNan = false
  | .count _, .long n => 0 ≤ n.toInt
  | .sumPrecision .., .bigDecimal _ => True
  | _, _ => False

/-- The cell that a function starts from: an infinity or a zero. -/
def sentinel (f : AggregateFunction) : Cell := f.extract { value := f.initial, seenNonNull := true }

/-- The number of documents that some counts count. -/
def countSum (cells : List Cell) : Nat :=
  ((cells.filterMap Cell.toLong?).map fun n => n.toInt.toNat).sum

/-- The sum of the decimals among some cells. -/
def decimalSum (cells : List Cell) : ℚ := ((cells.filterMap Cell.toDecimal?).map Decimal.toRat).sum

/-- If it is decimals that are merged, their sum is the value of one. -/
def SumHeld (cells : List Cell) : AggregateFunction → Prop
  | .sumPrecision .. => Decimal.IsValue (decimalSum cells)
  | _ => True

/-- Merging some cells comes to a null: for a greatest value any null among
them does that, for the others only a list of nulls. -/
def NullDecides (cells : List Cell) : AggregateFunction → Prop
  | .max _ => .null ∈ cells
  | _ => ∀ cell ∈ cells, cell = .null

/-- What the values among some cells amount to: the least or greatest
number, the sum of the counts up to the greatest one, the exact sum. -/
def Amounts (cells : List Cell) (c : Cell) : AggregateFunction → Prop
  | .min _ => ∃ m, c = .double m ∧ Bound.lower.IsExtreme (cells.filterMap Cell.toDouble?) m
  | .max _ => ∃ m, c = .double m ∧ Bound.upper.IsExtreme (cells.filterMap Cell.toDouble?) m
  | .count _ => c = .long (Counter.signed (countSum cells))
  | .sumPrecision .. => ∃ total, c = .bigDecimal total ∧ total.toRat = decimalSum cells
  | .sum _ => False

/-- What merging some cells comes to, in whatever order. -/
def ComesTo (f : AggregateFunction) (cells : List Cell) (c : Cell) : Prop :=
  (f.NullDecides cells ∧ c = .null) ∨ (¬ f.NullDecides cells ∧ f.Amounts cells c)

theorem countSum_append : countSum (cells ++ more) = countSum cells + countSum more := by
  simp [countSum]

@[simp]
theorem decimalSum_nil : decimalSum [] = 0 := rfl

@[simp]
theorem decimalSum_cons_null : decimalSum (.null :: cells) = decimalSum cells := rfl

@[simp]
theorem decimalSum_cons_decimal (d : Decimal) :
    decimalSum (.bigDecimal d :: cells) = d.toRat + decimalSum cells := List.sum_cons

theorem decimalSum_append : decimalSum (cells ++ more) = decimalSum cells + decimalSum more := by
  simp [decimalSum]

/-- The order of the cells does not count. -/
theorem Amounts.perm (h : f.Amounts cells c) (hperm : cells.Perm more) : f.Amounts more c := by
  have hdoubles (v : Double) : v ∈ cells.filterMap Cell.toDouble? ↔
      v ∈ more.filterMap Cell.toDouble? := (hperm.filterMap _).mem_iff
  cases f with
  | min column =>
    obtain ⟨m, rfl, hm⟩ := h
    exact ⟨m, rfl, hm.congr hdoubles⟩
  | max column =>
    obtain ⟨m, rfl, hm⟩ := h
    exact ⟨m, rfl, hm.congr hdoubles⟩
  | count column =>
    obtain rfl := h
    have hsum : countSum cells = countSum more := ((hperm.filterMap _).map _).sum_eq
    rw [hsum]
    rfl
  | sumPrecision column precision scale nullHandling =>
    obtain ⟨total, rfl, htotal⟩ := h
    exact ⟨total, rfl, htotal.trans ((hperm.filterMap _).map _).sum_eq⟩
  | sum column => exact h.elim

theorem NullDecides.perm (h : f.NullDecides cells) (hperm : cells.Perm more) :
    f.NullDecides more := by
  cases f with
  | max column => exact hperm.mem_iff.1 h
  | min column | sum column | count column | sumPrecision column precision scale nullHandling =>
    exact fun cell hcell => h cell (hperm.mem_iff.2 hcell)

theorem SumHeld.perm (h : f.SumHeld cells) (hperm : cells.Perm more) : f.SumHeld more := by
  cases f with
  | sumPrecision column precision scale nullHandling =>
    have hsum : decimalSum cells = decimalSum more := ((hperm.filterMap _).map _).sum_eq
    rw [SumHeld, ← hsum]
    exact h
  | min column | max column | sum column | count column => trivial

theorem Amounts.sameValue (ha : f.Amounts cells a) (hb : f.Amounts cells b) : a.SameValue b := by
  cases f with
  | min column =>
    obtain ⟨m, rfl, hm⟩ := ha
    obtain ⟨n, rfl, hn⟩ := hb
    exact Cell.sameValue_double hm.isNan hn.isNan (hm.rank_eq hn)
  | max column =>
    obtain ⟨m, rfl, hm⟩ := ha
    obtain ⟨n, rfl, hn⟩ := hb
    exact Cell.sameValue_double hm.isNan hn.isNan (hm.rank_eq hn)
  | count column =>
    obtain rfl := ha
    obtain rfl := hb
    exact Cell.sameValue_refl _
  | sumPrecision column precision scale nullHandling =>
    obtain ⟨d, rfl, hd⟩ := ha
    obtain ⟨e, rfl, he⟩ := hb
    exact Cell.sameValue_decimal (hd.trans he.symm)
  | sum column => exact ha.elim

/-- **Cells come to one value**, in whatever order they are merged. -/
theorem ComesTo.sameValue (ha : f.ComesTo cells a) (hb : f.ComesTo more b)
    (hperm : cells.Perm more) : a.SameValue b := by
  rcases ha with ⟨hnull, rfl⟩ | ⟨hvalue, ha⟩
  · rcases hb with ⟨-, rfl⟩ | ⟨hvalue, -⟩
    · exact Cell.sameValue_refl .null
    · exact absurd (hnull.perm hperm) hvalue
  · rcases hb with ⟨hnull, -⟩ | ⟨-, hb⟩
    · exact absurd (hnull.perm hperm.symm) hvalue
    · exact (ha.perm hperm).sameValue hb

/-! ## One merge -/

/-- Nulls do not change what the values amount to. -/
theorem Amounts.append_nulls (h : f.Amounts cells c) (hnulls : ∀ cell ∈ more, cell = .null) :
    f.Amounts (cells ++ more) c := by
  have hnone {α : Type} {view : Cell → Option α} (hview : view .null = none) :
      (cells ++ more).filterMap view = cells.filterMap view := by
    have hmore : more.filterMap view = [] := by
      rw [List.filterMap_eq_nil_iff]
      intro cell hcell
      rw [hnulls cell hcell, hview]
    rw [List.filterMap_append, hmore, List.append_nil]
  cases f with
  | min column | max column =>
    rw [Amounts, hnone rfl]
    exact h
  | count column =>
    rw [Amounts, countSum, hnone rfl]
    exact h
  | sumPrecision column precision scale nullHandling =>
    rw [Amounts, decimalSum, hnone rfl]
    exact h
  | sum column => exact h.elim

/-- Merging decimals is adding them. -/
theorem merge_decimals {column : String} {precision : Nat} {scale : Option Nat} {nullHandling : Bool}
    {d e total : Decimal} (hadd : d.add? e = some total) :
    (sumPrecision column precision scale nullHandling).merge (.bigDecimal d) (.bigDecimal e) =
      .ok (.bigDecimal total) := by
  simp only [AggregateFunction.merge, mergePresent, Cell.isNull, decimalOperand, hadd, bind,
    Except.bind]
  rfl

/-- **Merging two values** makes the value of both lists. -/
theorem Amounts.merge (ha : f.Amounts cells a) (hb : f.Amounts more b)
    (hsum : f.SumHeld (cells ++ more)) :
    ∃ c, f.merge a b = .ok c ∧ f.Amounts (cells ++ more) c := by
  cases f with
  | min column =>
    obtain ⟨m, rfl, hm⟩ := ha
    obtain ⟨n, rfl, hn⟩ := hb
    refine ⟨.double (m.min n), rfl, m.min n, rfl, ?_⟩
    rw [List.filterMap_append]
    exact hm.better hn
  | max column =>
    obtain ⟨m, rfl, hm⟩ := ha
    obtain ⟨n, rfl, hn⟩ := hb
    refine ⟨.double (m.max n), rfl, m.max n, rfl, ?_⟩
    rw [List.filterMap_append]
    exact hm.better hn
  | count column =>
    obtain rfl := ha
    obtain rfl := hb
    refine ⟨_, rfl, ?_⟩
    rw [Amounts, countSum_append, Counter.addSigned_signed]
  | sumPrecision column precision scale nullHandling =>
    obtain ⟨d, rfl, hd⟩ := ha
    obtain ⟨e, rfl, he⟩ := hb
    rw [SumHeld, decimalSum_append, ← hd, ← he] at hsum
    obtain ⟨total, hadd, htotal⟩ := Decimal.add?_of_isValue hsum
    refine ⟨.bigDecimal total, merge_decimals hadd, total, rfl, ?_⟩
    rw [htotal, hd, he, decimalSum_append]
  | sum column => exact ha.elim

/-- Of a null and a value, every function but the greatest value keeps the
value. -/
theorem merge_null_left (hf : f.kind ≠ .max) (a : Cell) : f.merge .null a = .ok a := by
  cases f with
  | max column => exact absurd rfl hf
  | min column | sum column | count column | sumPrecision column precision scale nullHandling => rfl

theorem merge_null_right (hf : f.kind ≠ .max) (a : Cell) : f.merge a .null = .ok a := by
  cases f with
  | max column => exact absurd rfl hf
  | min column | sum column | count column | sumPrecision column precision scale nullHandling =>
    cases a <;> rfl

/-- A null makes the greatest value null. -/
theorem merge_null_of_max (hf : f.kind = .max) (h : a = .null ∨ b = .null) :
    f.merge a b = .ok .null := by
  cases f with
  | max column =>
    rcases h with rfl | rfl
    · rfl
    · cases a <;> rfl
  | min column | sum column | count column | sumPrecision column precision scale nullHandling =>
    exact nomatch hf

/-- **One merge** comes to what both sides come to together. -/
theorem ComesTo.merge (ha : f.ComesTo cells a) (hb : f.ComesTo more b)
    (hsum : f.SumHeld (cells ++ more)) :
    ∃ c, f.merge a b = .ok c ∧ f.ComesTo (cells ++ more) c := by
  by_cases hmax : f.kind = .max
  · -- one null among all decides
    have hdecides : f.NullDecides (cells ++ more) ↔ f.NullDecides cells ∨ f.NullDecides more := by
      cases f with
      | max column => exact List.mem_append
      | min column | sum column | count column | sumPrecision _ _ _ _ => exact nomatch hmax
    rcases ha with ⟨hnull, rfl⟩ | ⟨hvalue, ha⟩
    · exact ⟨.null, merge_null_of_max hmax (.inl rfl), .inl ⟨hdecides.2 (.inl hnull), rfl⟩⟩
    · rcases hb with ⟨hnull, rfl⟩ | ⟨hvalue', hb⟩
      · exact ⟨.null, merge_null_of_max hmax (.inr rfl), .inl ⟨hdecides.2 (.inr hnull), rfl⟩⟩
      · obtain ⟨c, hc, hamounts⟩ := ha.merge hb hsum
        exact ⟨c, hc, .inr ⟨fun h => (hdecides.1 h).elim hvalue hvalue', hamounts⟩⟩
  · -- only nulls on both sides decide
    have hnulls {cells : List Cell} : f.NullDecides cells ↔ ∀ cell ∈ cells, cell = .null := by
      cases f with
      | max column => exact absurd rfl hmax
      | min column | sum column | count column | sumPrecision _ _ _ _ => exact Iff.rfl
    have hdecides : f.NullDecides (cells ++ more) ↔ f.NullDecides cells ∧ f.NullDecides more := by
      rw [hnulls, hnulls, hnulls, List.forall_mem_append]
    rcases ha with ⟨hnull, rfl⟩ | ⟨hvalue, ha⟩
    · refine ⟨b, merge_null_left hmax b, ?_⟩
      rcases hb with ⟨hnull', rfl⟩ | ⟨hvalue, hb⟩
      · exact .inl ⟨hdecides.2 ⟨hnull, hnull'⟩, rfl⟩
      · exact .inr ⟨fun h => hvalue (hdecides.1 h).2,
          (hb.append_nulls (hnulls.1 hnull)).perm List.perm_append_comm⟩
    · have hnone : ¬ f.NullDecides (cells ++ more) := fun h => hvalue (hdecides.1 h).1
      rcases hb with ⟨hnull, rfl⟩ | ⟨-, hb⟩
      · exact ⟨a, merge_null_right hmax a, .inr ⟨hnone, ha.append_nulls (hnulls.1 hnull)⟩⟩
      · obtain ⟨c, hc, hamounts⟩ := ha.merge hb hsum
        exact ⟨c, hc, .inr ⟨hnone, hamounts⟩⟩

/-- A value amounts to itself. -/
theorem amounts_singleton (h : f.Intermediate a) (hvalue : a ≠ .null) : f.Amounts [a] a := by
  match f, a, h with
  | .min _, .double x, h => exact ⟨x, rfl, Bound.isExtreme_singleton h⟩
  | .max _, .double x, h => exact ⟨x, rfl, Bound.isExtreme_singleton h⟩
  | .count _, .long n, h => exact congrArg Cell.long (Counter.signed_toNat h).symm
  | .sumPrecision .., .bigDecimal d, _ => exact ⟨d, rfl, List.sum_singleton.symm⟩

theorem comesTo_singleton (hf : f.kind ≠ .sum) (h : f.Intermediate a) : f.ComesTo [a] a := by
  by_cases hnull : a = .null
  · subst hnull
    refine .inl ⟨?_, rfl⟩
    cases f with
    | max column => exact List.mem_singleton.2 rfl
    | min column | sum column | count column | sumPrecision _ _ _ _ =>
      exact fun cell hcell => List.mem_singleton.1 hcell
  · refine .inr ⟨?_, amounts_singleton h hnull⟩
    cases f with
    | max column => exact fun hmem => hnull (List.mem_singleton.1 hmem).symm
    | min column | sum column | count column | sumPrecision _ _ _ _ =>
      exact fun hall => hnull (hall a (List.mem_singleton.2 rfl))

/-! ## Sentinels -/

theorem sentinel_sumPrecision {column : String} {precision : Nat} {scale : Option Nat}
    {nullHandling : Bool} : (sumPrecision column precision scale nullHandling).sentinel =
      .bigDecimal Decimal.zero := by
  cases nullHandling <;> rfl

theorem decimalSum_cons_zero : decimalSum (.bigDecimal Decimal.zero :: cells) = decimalSum cells := by
  have hzero : Decimal.zero.toRat = 0 := Decimal.isZero_iff_toRat.1 rfl
  rw [decimalSum_cons_decimal, hzero, zero_add]

/-- A function starts from a value. -/
theorem intermediate_sentinel (hf : f.kind ≠ .sum) : f.Intermediate f.sentinel ∧ f.sentinel ≠ .null := by
  cases f with
  | min column => exact ⟨Bound.isNan_nothing .lower, nofun⟩
  | max column => exact ⟨Bound.isNan_nothing .upper, nofun⟩
  | count column => exact ⟨le_rfl, nofun⟩
  | sumPrecision column precision scale nullHandling =>
    rw [sentinel_sumPrecision]
    exact ⟨trivial, nofun⟩
  | sum column => exact absurd rfl hf

/-- Among other cells the sentinel does not show. -/
theorem Amounts.of_sentinel (h : f.Amounts (f.sentinel :: cells) c) : f.Amounts cells c := by
  have hextreme {b : Bound} {vs : List Double} {m : Double} (hm : b.IsExtreme (b.nothing :: vs) m) :
      b.IsExtreme vs m :=
    ⟨hm.isNan, (hm.mem.imp_right List.mem_cons.1).elim .inl id,
      fun v hv => hm.holds v (List.mem_cons_of_mem _ hv)⟩
  cases f with
  | min column =>
    obtain ⟨m, rfl, hm⟩ := h
    exact ⟨m, rfl, hextreme (b := .lower) hm⟩
  | max column =>
    obtain ⟨m, rfl, hm⟩ := h
    exact ⟨m, rfl, hextreme (b := .upper) hm⟩
  | count column =>
    have hzero : countSum ((AggregateFunction.count column).sentinel :: cells) = countSum cells :=
      Nat.zero_add _
    rw [Amounts, hzero] at h
    exact h
  | sumPrecision column precision scale nullHandling =>
    rw [sentinel_sumPrecision, Amounts, decimalSum_cons_zero] at h
    exact h
  | sum column => exact h.elim

/-- The sentinel adds nothing to a decimal. -/
theorem sumHeld_sentinel (h : f.Intermediate a) : f.SumHeld [f.sentinel, a] := by
  match f, a, h with
  | .sumPrecision .., .bigDecimal d, _ =>
    rw [sentinel_sumPrecision, SumHeld, decimalSum_cons_zero]
    exact ⟨d, List.sum_singleton.symm⟩
  | .sumPrecision .., .null, _ =>
    rw [sentinel_sumPrecision, SumHeld, decimalSum_cons_zero]
    exact ⟨Decimal.zero, Decimal.isZero_iff_toRat.1 rfl⟩
  | .min _, _, _ | .max _, _, _ | .sum _, _, _ | .count _, _, _ => trivial

/-- **The sentinel is an identity** beside values. -/
theorem merge_sentinel (hf : f.kind ≠ .sum) (h : f.Intermediate a) (hvalue : a ≠ .null) :
    ∃ c d, f.merge f.sentinel a = .ok c ∧ f.merge a f.sentinel = .ok d ∧
      c.SameValue a ∧ d.SameValue a := by
  obtain ⟨hsentinel, hthere⟩ := intermediate_sentinel hf
  have hs : f.Amounts [f.sentinel] f.sentinel := amounts_singleton hsentinel hthere
  have ha : f.Amounts [a] a := amounts_singleton h hvalue
  have hsum : f.SumHeld [f.sentinel, a] := sumHeld_sentinel h
  have hswap : [a, f.sentinel].Perm [f.sentinel, a] := List.Perm.swap _ _ _
  obtain ⟨c, hc, hleft⟩ := hs.merge ha hsum
  obtain ⟨d, hd, hright⟩ := ha.merge hs (hsum.perm hswap.symm)
  exact ⟨c, d, hc, hd, hleft.of_sentinel.sameValue ha, (hright.perm hswap).of_sentinel.sameValue ha⟩

/-! ## Trees of merges -/

/-- If it is decimals that are merged, every sum on the way is the value of
one. -/
def HoldsSums (f : AggregateFunction) : MergeTree Cell → Prop
  | .leaf _ => True
  | .node left right =>
    f.HoldsSums left ∧ f.HoldsSums right ∧ f.SumHeld (left.leaves ++ right.leaves)

/-- **A tree of merges** comes to what its leaves come to. -/
theorem comesTo_merged (hf : f.kind ≠ .sum) {tree : MergeTree Cell}
    (hleaves : ∀ value ∈ tree.leaves, f.Intermediate value) (hsums : f.HoldsSums tree) :
    ∃ c, tree.merged f.merge = .ok c ∧ f.ComesTo tree.leaves c := by
  induction tree with
  | leaf value => exact ⟨value, rfl, comesTo_singleton hf (hleaves value (List.mem_singleton.2 rfl))⟩
  | node left right ihLeft ihRight =>
    obtain ⟨hleft, hright⟩ := List.forall_mem_append.1 hleaves
    obtain ⟨hsumsLeft, hsumsRight, hsum⟩ := hsums
    obtain ⟨l, hl, hcomesLeft⟩ := ihLeft hleft hsumsLeft
    obtain ⟨r, hr, hcomesRight⟩ := ihRight hright hsumsRight
    obtain ⟨c, hc, hcomes⟩ := hcomesLeft.merge hcomesRight hsum
    exact ⟨c, (MergeTree.merged_node hl hr).trans hc, hcomes⟩

/-! ## The laws -/

/-- The laws of merging a function's intermediate values. Where they are
decimals, what is asked of the sums on the way is that they are values of
decimals. -/
structure MergesFreely (f : AggregateFunction) : Prop where
  comm : ∀ a b, f.Intermediate a → f.Intermediate b → f.SumHeld [a, b] →
    ∃ c d, f.merge a b = .ok c ∧ f.merge b a = .ok d ∧ c.SameValue d
  assoc : ∀ a b c, f.Intermediate a → f.Intermediate b → f.Intermediate c →
    f.SumHeld [a, b] → f.SumHeld [b, c] → f.SumHeld [a, b, c] →
    ∃ ab bc left right, f.merge a b = .ok ab ∧ f.merge ab c = .ok left ∧
      f.merge b c = .ok bc ∧ f.merge a bc = .ok right ∧ left.SameValue right
  /-- A null absorbs a greatest value. -/
  null_absorbs : f.kind = .max → ∀ a, f.merge .null a = .ok .null ∧ f.merge a .null = .ok .null
  /-- Beside any other value a null is passed by. -/
  null_neutral : f.kind ≠ .max → ∀ a, f.merge .null a = .ok a ∧ f.merge a .null = .ok a
  sentinel_neutral : ∀ a, f.Intermediate a → a ≠ .null →
    ∃ c d, f.merge f.sentinel a = .ok c ∧ f.merge a f.sentinel = .ok d ∧ c.SameValue a ∧ d.SameValue a
  /-- Values may be merged in any order and grouped in any way. -/
  trees : ∀ s t : MergeTree Cell, s.leaves.Perm t.leaves →
    (∀ value ∈ s.leaves, f.Intermediate value) → f.HoldsSums s → f.HoldsSums t →
    ∃ c d, s.merged f.merge = .ok c ∧ t.merged f.merge = .ok d ∧ c.SameValue d

/-- Two trees of the same values make one value. -/
theorem sameValue_of_perm (hf : f.kind ≠ .sum) {s t : MergeTree Cell}
    (hperm : s.leaves.Perm t.leaves) (hleaves : ∀ value ∈ s.leaves, f.Intermediate value)
    (hs : f.HoldsSums s) (ht : f.HoldsSums t) :
    ∃ c d, s.merged f.merge = .ok c ∧ t.merged f.merge = .ok d ∧ c.SameValue d := by
  obtain ⟨c, hc, hcomes⟩ := comesTo_merged hf hleaves hs
  obtain ⟨d, hd, hcomes'⟩ := comesTo_merged hf (fun v hv => hleaves v (hperm.mem_iff.2 hv)) ht
  exact ⟨c, d, hc, hd, hcomes.sameValue hcomes' hperm⟩

/-- **Merging is commutative and associative**, with a null and a sentinel
in their roles, for every function but the sum of doubles. -/
theorem mergesFreely (hf : f.kind ≠ .sum) : f.MergesFreely where
  comm a b ha hb hsum :=
    sameValue_of_perm hf (s := .node (.leaf a) (.leaf b)) (t := .node (.leaf b) (.leaf a))
      (List.Perm.swap _ _ _) (by simp [MergeTree.leaves, ha, hb]) ⟨trivial, trivial, hsum⟩
      ⟨trivial, trivial, hsum.perm (List.Perm.swap _ _ _)⟩
  assoc a b c ha hb hc hab hbc habc := by
    obtain ⟨ab, hmergeAb, hcomesAb⟩ :=
      (comesTo_singleton hf ha).merge (comesTo_singleton hf hb) hab
    obtain ⟨bc, hmergeBc, hcomesBc⟩ :=
      (comesTo_singleton hf hb).merge (comesTo_singleton hf hc) hbc
    obtain ⟨left, hleft, hcomesLeft⟩ := hcomesAb.merge (comesTo_singleton hf hc) habc
    obtain ⟨right, hright, hcomesRight⟩ := (comesTo_singleton hf ha).merge hcomesBc habc
    exact ⟨ab, bc, left, right, hmergeAb, hleft, hmergeBc, hright,
      hcomesLeft.sameValue hcomesRight (.refl _)⟩
  null_absorbs hmax a := ⟨merge_null_of_max hmax (.inl rfl), merge_null_of_max hmax (.inr rfl)⟩
  null_neutral hmax a := ⟨merge_null_left hmax a, merge_null_right hmax a⟩
  sentinel_neutral a ha hvalue := merge_sentinel hf ha hvalue
  trees s t hperm hleaves hs ht := sameValue_of_perm hf hperm hleaves hs ht

/-- Three decimals, of which the first two cancel. -/
def credit : Decimal := ⟨.ofCoeff 150 2, by decide, by decide⟩

def debit : Decimal := ⟨.ofCoeff (-150) 2, by decide, by decide⟩

def deposit : Decimal := ⟨.ofCoeff 2 0, by decide, by decide⟩

theorem toRat_credit : credit.toRat = 3 / 2 := by norm_num [credit, Decimal.toRat_mk]

theorem toRat_debit : debit.toRat = -3 / 2 := by norm_num [debit, Decimal.toRat_mk]

theorem toRat_deposit : deposit.toRat = 2 := by norm_num [deposit, Decimal.toRat_mk]

/-- A sum that passes through zero loses its scale on the way, and no more
than that. -/
theorem mergesFreely_through_zero :
    let f : AggregateFunction := .sumPrecision "v" 0 none false
    let s : MergeTree Cell := .node (.node (.leaf (.bigDecimal credit)) (.leaf .null))
      (.node (.leaf (.bigDecimal debit)) (.leaf (.bigDecimal deposit)))
    let t : MergeTree Cell := .node (.node (.leaf (.bigDecimal credit)) (.leaf (.bigDecimal debit)))
      (.node (.leaf .null) (.leaf (.bigDecimal deposit)))
    f.kind ≠ .sum ∧ s.leaves.Perm t.leaves ∧ f.HoldsSums s ∧ f.HoldsSums t ∧
      ∃ c d, s.merged f.merge = .ok c ∧ t.merged f.merge = .ok d ∧ c.SameValue d ∧ c ≠ d := by
  intro f s t
  have hf : f.kind ≠ .sum := by decide
  have hperm : s.leaves.Perm t.leaves := List.Perm.cons _ (List.Perm.swap _ _ _)
  have hs : f.HoldsSums s := by
    refine ⟨⟨trivial, trivial, credit, ?_⟩,
      ⟨trivial, trivial, ⟨.ofCoeff 50 2, by decide, by decide⟩, ?_⟩, deposit, ?_⟩
    all_goals norm_num [MergeTree.leaves, toRat_credit, toRat_debit, toRat_deposit, Decimal.toRat_mk]
  have ht : f.HoldsSums t := by
    refine ⟨⟨trivial, trivial, Decimal.zero, ?_⟩, ⟨trivial, trivial, deposit, ?_⟩, deposit, ?_⟩
    all_goals norm_num [MergeTree.leaves, toRat_credit, toRat_debit, toRat_deposit, Decimal.zero,
      Decimal.toRat_mk]
  have hleaves : ∀ value ∈ s.leaves, f.Intermediate value := by
    simp [s, f, MergeTree.leaves, Intermediate]
  obtain ⟨c, d, hc, hd, hsame⟩ := (mergesFreely hf).trees s t hperm hleaves hs ht
  refine ⟨hf, hperm, hs, ht, c, d, hc, hd, hsame, ?_⟩
  rintro rfl
  exact absurd (hc.trans hd.symm) (by decide)

end AggregateFunction

end SegmentQuery
