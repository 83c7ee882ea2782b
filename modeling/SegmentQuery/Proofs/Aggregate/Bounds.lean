import Mathlib.Data.List.DropRight
import SegmentQuery.Proofs.Aggregate.Reaching
import SegmentQuery.Proofs.Number.Widening
/-!
# Bounds of floating-point values

A least or a greatest value is kept by comparisons that are false on a NaN,
so a NaN replaces the value that was kept and is itself replaced by the
next one: of a block, what counts are the values after its last NaN. In
between blocks a NaN is passed by. A group's least value is kept by the
opposite comparison, which passes a NaN by, and bounds all of its values;
a group's greatest value starts again after every NaN.
-/


namespace SegmentQuery

open Number

/-- The bound that an aggregate looks for. -/
inductive Bound
  | lower
  | upper
  deriving DecidableEq, Repr

namespace Bound

variable {b : Bound} {m n v w : Double} {vs ws : List Double}

/-- The aggregate that looks for the bound of a column. -/
def function : Bound → String → AggregateFunction
  | lower => .min
  | upper => .max

/-- A number bounds another one; a NaN bounds nothing and is not
bounded. -/
def holds : Bound → Double → Double → Bool
  | lower, m, v => m.le v
  | upper, m, v => v.le m

/-- The bound of no values. -/
def nothing : Bound → Double
  | lower => Double.infinity
  | upper => Double.negInfinity

/-- The bound of two bounds. -/
def merge : Bound → Double → Double → Double
  | lower => Double.min
  | upper => Double.max

/-! ## One number -/

/-- The place of a number, the better bound in the lower place. -/
def place (b : Bound) (x : Double) : Int :=
  match b with
  | lower => x.rank
  | upper => -x.rank

theorem holds_iff : b.holds m v ↔ m.isNan = false ∧ v.isNan = false ∧ b.place m ≤ b.place v := by
  cases b with
  | lower => simp [holds, place, Double.le, and_assoc]
  | upper => simp [holds, place, Double.le, and_assoc, and_left_comm]

theorem holds_refl (hm : m.isNan = false) : b.holds m m := holds_iff.2 ⟨hm, hm, Int.le_refl _⟩

theorem holds_trans (h : b.holds m v) (h' : b.holds v w) : b.holds m w := by
  rw [holds_iff] at h h' ⊢
  exact ⟨h.1, h'.2.1, h.2.2.trans h'.2.2⟩

/-- Of two numbers one bounds the other. -/
theorem holds_of_not_holds (h : ¬ b.holds m v) (hm : m.isNan = false) (hv : v.isNan = false) :
    b.holds v m := by
  rw [holds_iff] at h ⊢
  exact ⟨hv, hm, (Int.le_of_lt (Int.not_le.1 fun hle => h ⟨hm, hv, hle⟩))⟩

/-- The better of two bounds; a NaN is ignored. -/
theorem merge_eq (b : Bound) (m n : Double) : b.merge m n =
    if m.isNan then n else if n.isNan then m else if b.place n < b.place m then n else m := by
  cases b with
  | lower =>
    show Double.min m n = _
    unfold Double.min Double.lt place
    cases m.isNan <;> cases n.isNan <;> simp
  | upper =>
    show Double.max m n = _
    unfold Double.max Double.lt place
    cases m.isNan <;> cases n.isNan <;> simp

@[simp] theorem isNan_nothing (b : Bound) : b.nothing.isNan = false := by cases b <;> decide

/-- Every number bounds nothing. -/
theorem holds_nothing (b : Bound) (hm : m.isNan = false) : b.holds m b.nothing := by
  refine holds_iff.2 ⟨hm, b.isNan_nothing, ?_⟩
  have hbits : m.bits.toNat < 2 * Layout.double.signBit := m.bits.toNat_lt
  obtain ⟨negative, g, hg, hm'⟩ := Layout.exists_signPart_add Layout.double hbits
  rw [Double.isNan, hm', Layout.signPart_add_mod _ _ hg, decide_eq_false_iff_not] at hm
  have hrank : m.rank = if negative then -(g : Int) else g := by
    rw [Double.rank, hm', Layout.signedMagnitude_signPart_add _ _ hg]
  cases b with
  | lower =>
    show m.rank ≤ (Layout.double.infinity : Int)
    rw [hrank]
    split <;> omega
  | upper =>
    show -m.rank ≤ -(-(Layout.double.infinity : Int))
    rw [hrank]
    split <;> omega

/-- Only nothing is bounded by nothing. -/
theorem eq_nothing (h : b.holds b.nothing v) : v = b.nothing := by
  have hv := (holds_iff.1 h).2.1
  have hplace : b.place v = b.place b.nothing :=
    Int.le_antisymm (holds_iff.1 (b.holds_nothing hv)).2.2 (holds_iff.1 h).2.2
  cases b with
  | lower => exact (Double.eq_of_rank_eq hplace.symm (by decide)).symm
  | upper => exact (Double.eq_of_rank_eq (Int.neg_inj.1 hplace.symm) (by decide)).symm

/-! ## Some numbers -/

/-- A number bounds all numbers of a list; its NaNs do not count. -/
def Bounds (b : Bound) (m : Double) (vs : List Double) : Prop :=
  ∀ v ∈ vs, v.isNan = false → b.holds m v

/-- The number that bounds a list: one of it, or the bound of nothing. -/
structure IsExtreme (b : Bound) (vs : List Double) (m : Double) : Prop where
  isNan : m.isNan = false
  mem : m = b.nothing ∨ m ∈ vs
  holds : ∀ v ∈ vs, b.holds m v

/-- Some of the values bound all of them. -/
def Covers (b : Bound) (survivors vs : List Double) : Prop :=
  ∀ v ∈ vs, v.isNan = false → v = b.nothing ∨ ∃ w ∈ survivors, b.holds w v

/-- **The bound of some values is one of all** exactly when these few bound
all others. -/
theorem IsExtreme.bounds_iff (h : b.IsExtreme ws m) : b.Bounds m vs ↔ b.Covers ws vs := by
  constructor
  · intro hbounds v hv hnan
    rcases h.mem with rfl | hmem
    · exact .inl (eq_nothing (hbounds v hv hnan))
    · exact .inr ⟨m, hmem, hbounds v hv hnan⟩
  · intro hcovers v hv hnan
    rcases hcovers v hv hnan with rfl | ⟨w, hw, hwv⟩
    · exact b.holds_nothing h.isNan
    · exact holds_trans (h.holds w hw) hwv

theorem isExtreme_nil (b : Bound) : b.IsExtreme [] b.nothing :=
  ⟨b.isNan_nothing, .inl rfl, nofun⟩

theorem isExtreme_singleton (hv : v.isNan = false) : b.IsExtreme [v] v :=
  ⟨hv, .inr List.mem_cons_self, by simpa using holds_refl hv⟩

/-- The bound of two lists is the better one of their bounds. -/
theorem IsExtreme.append (hm : b.IsExtreme vs m) (hn : b.IsExtreme ws n) :
    b.IsExtreme (vs ++ ws) (if b.holds m n then m else n) := by
  split
  · rename_i hmn
    exact ⟨hm.isNan, hm.mem.imp_right (List.mem_append_left ws), fun v hv =>
      (List.mem_append.1 hv).elim (hm.holds v) fun hv => holds_trans hmn (hn.holds v hv)⟩
  · rename_i hmn
    have hnm := holds_of_not_holds hmn hm.isNan hn.isNan
    exact ⟨hn.isNan, hn.mem.imp_right (List.mem_append_right vs), fun v hv =>
      (List.mem_append.1 hv).elim (fun hv => holds_trans hnm (hm.holds v hv)) (hn.holds v)⟩

/-- **Merging two bounds** makes the bound of both lists. -/
theorem IsExtreme.better (hm : b.IsExtreme vs m) (hn : b.IsExtreme ws n) :
    b.IsExtreme (vs ++ ws) (b.merge m n) := by
  have hboth := hm.append hn
  rw [merge_eq, hm.isNan, if_neg Bool.false_ne_true, hn.isNan, if_neg Bool.false_ne_true]
  split
  · rename_i hlt
    have hmn : ¬ b.holds m n := fun h => Int.not_lt.2 (holds_iff.1 h).2.2 hlt
    rwa [if_neg hmn] at hboth
  · rename_i hge
    have hmn : b.holds m n := holds_iff.2 ⟨hm.isNan, hn.isNan, Int.not_lt.1 hge⟩
    rwa [if_pos hmn] at hboth

/-- Only what is in a list counts. -/
theorem IsExtreme.congr (h : b.IsExtreme vs m) (hmem : ∀ v, v ∈ vs ↔ v ∈ ws) : b.IsExtreme ws m :=
  ⟨h.isNan, h.mem.imp_right (hmem m).1, fun v hv => h.holds v ((hmem v).2 hv)⟩

/-- The bound of a list bounds any other one of its bounds. -/
theorem IsExtreme.holds_of_isExtreme (hm : b.IsExtreme vs m) (hn : b.IsExtreme vs n) :
    b.holds m n := by
  rcases hn.mem with rfl | hmem
  · exact b.holds_nothing hm.isNan
  · exact hm.holds n hmem

/-! ## One value after the other -/

/-- The values after the last NaN. -/
def afterLastNan (vs : List Double) : List Double := vs.rtakeWhile fun v => !v.isNan

/-- The last value is a NaN. -/
def EndsInNan (vs : List Double) : Prop := ∃ v ∈ vs.getLast?, v.isNan = true

/-- What is kept of some values by replacing what does not bound the next
one: a NaN if that is the last value, and otherwise the bound of the values
after the last NaN. -/
structure Keeps (b : Bound) (vs : List Double) (m : Double) : Prop where
  isNan_iff : m.isNan = true ↔ EndsInNan vs
  extreme : m.isNan = false → b.IsExtreme (afterLastNan vs) m

theorem keeps_nil (b : Bound) : b.Keeps [] b.nothing where
  isNan_iff := by simp [EndsInNan]
  extreme _ := b.isExtreme_nil

theorem afterLastNan_append_singleton (vs : List Double) (v : Double) :
    afterLastNan (vs ++ [v]) = if v.isNan then [] else afterLastNan vs ++ [v] := by
  rw [afterLastNan, List.rtakeWhile_concat]
  cases v.isNan <;> rfl

theorem endsInNan_append_singleton (vs : List Double) (v : Double) :
    EndsInNan (vs ++ [v]) ↔ v.isNan = true := by
  simp [EndsInNan]

/-- Nothing is left of values that end in a NaN. -/
theorem afterLastNan_of_endsInNan (h : EndsInNan vs) : afterLastNan vs = [] := by
  obtain ⟨v, hv, hnan⟩ := h
  obtain ⟨front, rfl⟩ := List.getLast?_eq_some_iff.1 hv
  rw [afterLastNan_append_singleton, if_pos hnan]

/-- **One more value** replaces what does not bound it. -/
theorem Keeps.append_singleton (h : b.Keeps vs m) (v : Double) :
    b.Keeps (vs ++ [v]) (if b.holds m v then m else v) := by
  have hnext : (if b.holds m v then m else v).isNan = true ↔ v.isNan = true := by
    split
    · rename_i hmv
      obtain ⟨hm, hv, -⟩ := holds_iff.1 hmv
      rw [hm, hv]
    · exact Iff.rfl
  refine ⟨hnext.trans (endsInNan_append_singleton vs v).symm, fun hnan => ?_⟩
  have hv : v.isNan = false := by
    rw [← Bool.not_eq_true] at hnan ⊢
    exact mt hnext.2 hnan
  rw [afterLastNan_append_singleton, hv, if_neg Bool.false_ne_true]
  cases hm : m.isNan with
  | false => exact (h.extreme hm).append (isExtreme_singleton hv)
  | true =>
    -- a NaN bounds nothing, and there is nothing after it
    have hmv : ¬ b.holds m v := fun hmv => by simp [(holds_iff.1 hmv).1] at hm
    rw [if_neg hmv, afterLastNan_of_endsInNan (h.isNan_iff.1 hm), List.nil_append]
    exact isExtreme_singleton hv

theorem keeps_foldl (h : b.Keeps vs m) (ws : List Double) :
    b.Keeps (vs ++ ws) (ws.foldl (fun m v => if b.holds m v then m else v) m) := by
  induction ws generalizing vs m with
  | nil => simpa using h
  | cons w ws ih =>
    rw [List.append_cons, List.foldl_cons]
    exact ih (h.append_singleton w)

/-- What a block keeps of its values. -/
def kept (b : Bound) (vs : List Double) : Double := (Numeric.best b.holds vs).getD b.nothing

theorem keeps_kept (b : Bound) (vs : List Double) : b.Keeps vs (b.kept vs) := by
  cases vs with
  | nil => exact b.keeps_nil
  | cons v vs =>
    have hfirst : b.Keeps [v] v := by
      refine ⟨(endsInNan_append_singleton [] v).symm, fun hv => ?_⟩
      have hone := afterLastNan_append_singleton [] v
      rw [hv, if_neg Bool.false_ne_true, List.nil_append] at hone
      rw [hone]
      exact isExtreme_singleton hv
    exact keeps_foldl hfirst vs

/-- **What a block keeps is merged** into the bound of the blocks before
it, which passes a NaN by. -/
theorem IsExtreme.merge (hn : b.IsExtreme ws n) (hm : b.Keeps vs m) :
    b.IsExtreme (ws ++ afterLastNan vs) (b.merge m n) := by
  cases hnan : m.isNan with
  | true =>
    rw [merge_eq, hnan, if_pos rfl, afterLastNan_of_endsInNan (hm.isNan_iff.1 hnan), List.append_nil]
    exact hn
  | false =>
    refine ((hm.extreme hnan).better hn).congr fun v => ?_
    rw [List.mem_append, List.mem_append, or_comm]

end Bound

/-! ## Blocks -/

/-- A block of a scan: a column of floating-point numbers, of which the
first positions are folded. -/
structure FloatBlock where
  length : Nat
  column : Column
  floating : (∃ vs, column.values = .single .float vs) ∨ ∃ vs, column.values = .single .double vs

namespace FloatBlock

/-- The numbers of a block that are not null. -/
def values (block : FloatBlock) : List Double :=
  Column.present block.column.nulls block.length (block.column.doubles.toOption.getD [])

end FloatBlock

namespace Bound

variable {b : Bound} {m : Double}

/-- The numbers of a block that are not null. -/
theorem present_toDouble {α : Type} (toDouble : α → Double) (nulls : Option DocSet) (length : Nat)
    (vs : List α) : Column.present nulls length (vs.map toDouble) =
      (Column.present nulls length vs).map toDouble := by
  rw [Column.present, Column.present, ← List.map_take, List.zipIdx_map, List.filter_map,
    List.map_map, List.map_map]
  rfl

/-- What is kept of elements is what is kept of their doubles. -/
theorem best_map {α : Type} {better : α → α → Bool} {toDouble : α → Double}
    (h : ∀ v w, b.holds (toDouble v) (toDouble w) = better v w) (vs : List α) :
    ((Numeric.best better vs).map toDouble).getD b.nothing = b.kept (vs.map toDouble) := by
  cases vs with
  | nil => rfl
  | cons v vs =>
    show toDouble (vs.foldl _ v) = (vs.map toDouble).foldl _ (toDouble v)
    induction vs generalizing v with
    | nil => rfl
    | cons w vs ih =>
      rw [List.map_cons, List.foldl_cons, List.foldl_cons, h]
      cases better v w
      · exact ih w
      · exact ih v

/-- **A block that is folded** merges what it keeps of its numbers into the
holder. -/
theorem aggregate_function (b : Bound) (name : String) (block : FloatBlock) (h : Holder) :
    ((b.function name).aggregate block.length (some block.column) h).toExcept =
      .ok { h with value := .double (b.merge (b.kept block.values) h.value.toDouble) } := by
  obtain ⟨length, ⟨values, nulls⟩, hfloating⟩ := block
  have hcases := hfloating
  rcases hcases with ⟨vs, rfl⟩ | ⟨vs, rfl⟩
  · have hvalues : (FloatBlock.mk length ⟨.single .float vs, nulls⟩ hfloating).values =
        (Column.present nulls length vs).map Single.widen := present_toDouble _ nulls length vs
    rw [hvalues]
    cases b with
    | lower =>
      rw [← @best_map .lower Single Single.le Single.widen Single.widen_le_widen]
      rfl
    | upper =>
      rw [← @best_map .upper Single (fun v w => Single.le w v) Single.widen
        fun v w => Single.widen_le_widen w v]
      rfl
  · have hvalues : (FloatBlock.mk length ⟨.single .double vs, nulls⟩ hfloating).values =
        (Column.present nulls length vs).map id := (List.map_id _).symm
    rw [hvalues]
    cases b with
    | lower =>
      rw [← @best_map .lower Double Double.le id fun _ _ => rfl]
      rfl
    | upper =>
      rw [← @best_map .upper Double (fun v w => Double.le w v) id fun _ _ => rfl]
      rfl

/-- What a scan of some blocks extracts. -/
def scan (f : AggregateFunction) (blocks : List FloatBlock) : Except QueryError Cell :=
  (blocks.foldlM (fun h block => (f.aggregate block.length (some block.column) h).toExcept)
    f.holder).map f.extract

/-- **The bound of a scan** is that of the values after the last NaN of each
block. -/
theorem exists_scan (b : Bound) (name : String) (blocks : List FloatBlock) :
    ∃ m, scan (b.function name) blocks = .ok (.double m) ∧
      b.IsExtreme (blocks.flatMap fun block => afterLastNan block.values) m := by
  have key {h : Holder} {seen : List Double} {n : Double} (hvalue : h.value = .double n)
      (hn : b.IsExtreme seen n) : ∃ m h', blocks.foldlM (fun h block =>
        ((b.function name).aggregate block.length (some block.column) h).toExcept) h = .ok h' ∧
      h'.value = .double m ∧
      b.IsExtreme (seen ++ blocks.flatMap fun block => afterLastNan block.values) m := by
    induction blocks generalizing h seen n with
    | nil => exact ⟨n, h, rfl, hvalue, by simpa using hn⟩
    | cons block blocks ih =>
      rw [List.foldlM_cons, aggregate_function, List.flatMap_cons, ← List.append_assoc]
      refine ih rfl ?_
      rw [hvalue]
      exact hn.merge (b.keeps_kept _)
  have hstart : (b.function name).holder.value = .double b.nothing := by cases b <;> rfl
  obtain ⟨m, h, hfold, hvalue, hextreme⟩ := key hstart b.isExtreme_nil
  refine ⟨m, ?_, hextreme⟩
  rw [scan, hfold]
  have hextract : (b.function name).extract h = .double h.value.toDouble := by cases b <;> rfl
  exact congrArg Except.ok (hextract.trans (by rw [hvalue]; rfl))

/-! ## Groups -/

/-- Items that are not null. -/
def notNull (items : List (Double × Bool)) : List Double :=
  (items.filter fun item => !item.2).map Prod.fst

theorem notNull_append (items more : List (Double × Bool)) :
    notNull (items ++ more) = notNull items ++ notNull more := by
  rw [notNull, List.filter_append, List.map_append]
  rfl

/-- The numbers among some values. -/
def numbers (vs : List Double) : List Double := vs.filter fun v => !v.isNan

/-- Where only NaNs are left out, the bound of the rest bounds all. -/
theorem covers_numbers (b : Bound) (vs : List Double) : b.Covers (numbers vs) vs := fun v hv hnan =>
  .inr ⟨v, List.mem_filter.2 ⟨hv, by simp [hnan]⟩, holds_refl hnan⟩

/-- Fold an item into a group's slot. -/
def foldSlot (b : Bound) (s : GroupSlot) (item : Double × Bool) : GroupSlot :=
  match b with
  | lower => s.foldMin item
  | upper => s.foldMax item

/-- The slot of a group that some items have reached. -/
def slotOf (b : Bound) (items : List (Double × Bool)) : GroupSlot :=
  items.foldl b.foldSlot (.fresh (.double b.nothing))

theorem slotOf_append_singleton (b : Bound) (items : List (Double × Bool)) (item : Double × Bool) :
    b.slotOf (items ++ [item]) = b.foldSlot (b.slotOf items) item := List.foldl_concat ..

/-- **A group's least value** bounds all numbers that have reached it. -/
theorem value_slotOf_lower (items : List (Double × Bool)) :
    ∃ m, (lower.slotOf items).value = .double m ∧ lower.IsExtreme (numbers (notNull items)) m := by
  induction items using List.reverseRecOn with
  | nil => exact ⟨_, rfl, lower.isExtreme_nil⟩
  | append_singleton items item ih =>
    obtain ⟨m, hvalue, hextreme⟩ := ih
    obtain ⟨v, isNull⟩ := item
    rw [slotOf_append_singleton, notNull_append, numbers, List.filter_append]
    cases isNull with
    | true => exact ⟨m, hvalue, by simpa [notNull, numbers] using hextreme⟩
    | false =>
      have hone : notNull [(v, false)] = [v] := rfl
      simp only [hone, foldSlot, GroupSlot.foldMin, Bool.false_eq_true, if_false, hvalue,
        Accumulator.toDouble]
      cases hnan : v.isNan with
      | true =>
        -- a NaN is below nothing
        have hlt : v.lt m = false := by simp [Double.lt, hnan]
        refine ⟨m, ?_, ?_⟩
        · rw [hlt, if_neg Bool.false_ne_true, value_observe, hvalue]
        · simpa [hnan, numbers] using hextreme
      | false =>
        have hlast : [v].filter (fun v => !v.isNan) = [v] := by simp [hnan]
        have hless : v.lt m = !lower.holds m v := Double.lt_eq_not_le hnan hextreme.isNan
        rw [hlast, hless]
        refine ⟨_, ?_, hextreme.append (isExtreme_singleton hnan)⟩
        cases lower.holds m v
        · rw [Bool.not_false, if_pos rfl, value_observe, if_neg Bool.false_ne_true]
        · rw [Bool.not_true, if_neg Bool.false_ne_true, value_observe, if_pos rfl, hvalue]

/-- **A group's greatest value** is what is kept of the values that have
reached it, as long as no null has settled the group. -/
theorem value_slotOf_upper (items : List (Double × Bool))
    (hs : (upper.slotOf items).isNull = false) :
    ∃ m, (upper.slotOf items).value = .double m ∧ upper.Keeps (notNull items) m := by
  induction items using List.reverseRecOn with
  | nil => exact ⟨_, rfl, upper.keeps_nil⟩
  | append_singleton items item ih =>
    obtain ⟨v, isNull⟩ := item
    rw [slotOf_append_singleton, foldSlot] at hs ⊢
    simp only [GroupSlot.foldMax] at hs ⊢
    cases hbefore : (upper.slotOf items).isNull with
    | true =>
      -- a settled group stays settled
      rw [hbefore, Bool.true_or, if_pos rfl, hbefore] at hs
      cases hs
    | false =>
      obtain ⟨m, hvalue, hkeeps⟩ := ih hbefore
      simp only [hbefore, Bool.false_or, hvalue, Accumulator.toDouble] at hs ⊢
      rw [notNull_append]
      cases isNull with
      | true =>
        have hnone : notNull [(v, true)] = [] := rfl
        rw [hnone, List.append_nil]
        cases hle : v.le m with
        | true => exact ⟨m, by rw [if_pos rfl, hvalue], hkeeps⟩
        | false =>
          rw [hle, if_neg Bool.false_ne_true, if_pos rfl] at hs
          cases hs
      | false =>
        have hone : notNull [(v, false)] = [v] := rfl
        have hnext := hkeeps.append_singleton v
        have hholds : upper.holds m v = v.le m := rfl
        rw [hone]
        rw [hholds] at hnext
        refine ⟨_, ?_, hnext⟩
        cases v.le m
        · rw [if_neg Bool.false_ne_true, if_neg Bool.false_ne_true, value_observe,
            if_neg Bool.false_ne_true]
        · rw [if_pos rfl, if_pos rfl, hvalue]

end Bound

/-- A block of a grouping: room is made for some groups, and the first
positions are folded into the groups that each of them belongs to. -/
structure GroupedBlock extends FloatBlock where
  wanted : Nat
  groups : List (List Nat)

namespace GroupedBlock

/-- The items of a block that reach a group. -/
def items (block : GroupedBlock) (group : Nat) : List (Double × Bool) :=
  (GroupHolder.reaching Prod.fst group ((block.groups.zip
    (block.column.markedDoubles.toOption.getD [])).take block.length)).map Prod.snd

end GroupedBlock

namespace Bound

variable {b : Bound} {name : String} {h h' : GroupHolder}

/-- The holder that a grouping of some blocks ends with. -/
def groupScan (f : AggregateFunction) (capacity maxCapacity : Nat) (blocks : List GroupedBlock) :
    Except QueryError GroupHolder :=
  blocks.foldlM (fun h block => h.ensure block.wanted >>= fun h =>
    (f.aggregateGroups block.length block.groups (some block.column) h).toExcept)
    (f.groupHolder capacity maxCapacity)

/-- A block of numbers is folded position by position. -/
theorem aggregateGroups_of_ok {c : Column} {items : List (Double × Bool)}
    (hitems : c.markedDoubles = .ok items) (length : Nat) (groups : List (List Nat))
    (h : GroupHolder) : (b.function name).aggregateGroups length groups (some c) h =
      h.foldPositions (fun item s => .ok (b.foldSlot s item)) ((groups.zip items).take length) := by
  cases b <;>
    simp only [function, AggregateFunction.aggregateGroups, AggregateFunction.requireInput, bind,
      Except.bind, hitems, foldSlot]

/-- A block without numbers is not folded at all. -/
theorem aggregateGroups_of_error (input : Option Column) {e : QueryError}
    (hinput : ((b.function name).requireInput input).bind Column.markedDoubles = .error e)
    (length : Nat) (groups : List (List Nat)) (h : GroupHolder) :
    (b.function name).aggregateGroups length groups input h = .stopped h e := by
  cases b <;>
    (simp only [function] at hinput
     simp only [function, AggregateFunction.aggregateGroups, bind, hinput])

/-- A block that goes through is folded item by item. -/
theorem of_aggregateGroups {block : GroupedBlock}
    (hok : ((b.function name).aggregateGroups block.length block.groups (some block.column)
      h).toExcept = .ok h') :
    (h.foldPositions (fun item s => .ok (b.foldSlot s item)) ((block.groups.zip
      (block.column.markedDoubles.toOption.getD [])).take block.length)).toExcept = .ok h' := by
  cases hitems : block.column.markedDoubles with
  | error e =>
    rw [aggregateGroups_of_error (some block.column) hitems] at hok
    cases hok
  | ok items =>
    rw [aggregateGroups_of_ok hitems] at hok
    exact hok

/-- More blocks go on from the items that a holder shows. -/
theorem shows_foldlM {maxCapacity : Nat} {blocks : List GroupedBlock} {start : GroupHolder}
    (seen : Nat → List (Double × Bool))
    (hshows : start.Shows (b.function name) maxCapacity 0 fun g => b.slotOf (seen g))
    (hok : blocks.foldlM (fun h block => h.ensure block.wanted >>= fun h =>
      ((b.function name).aggregateGroups block.length block.groups (some block.column)
        h).toExcept) start = .ok h) :
    h.Shows (b.function name) maxCapacity 0 fun g =>
      b.slotOf (seen g ++ blocks.flatMap (·.items g)) := by
  induction blocks generalizing start seen with
  | nil =>
    obtain rfl := Except.ok.inj hok
    simpa using hshows
  | cons block blocks ih =>
    obtain ⟨next, hnext, hrest⟩ := Except.bind_eq_ok.1 hok
    obtain ⟨grown, hgrown, hfold⟩ := Except.bind_eq_ok.1 hnext
    obtain ⟨view, hview, hnextShows⟩ :=
      (hshows.of_ensure hgrown).of_foldPositions (of_aggregateGroups hfold)
    have hslots : view = fun g => b.slotOf (seen g ++ block.items g) := by
      funext g
      have hfolds := (Except.foldlM_ok (g := fun s (p : List Nat × Double × Bool) =>
        b.foldSlot s p.2) fun _ _ _ => rfl).symm.trans (hview g)
      rw [← Except.ok.inj hfolds, slotOf, slotOf, List.foldl_append, GroupedBlock.items,
        List.foldl_map]
    have hall := ih (fun g => seen g ++ block.items g) (hslots ▸ hnextShows) hrest
    simpa only [List.flatMap_cons, List.append_assoc] using hall

/-- **A grouping that goes through** shows for each group the slot that its
items make. -/
theorem shows_groupScan {capacity maxCapacity : Nat} {blocks : List GroupedBlock}
    (hok : groupScan (b.function name) capacity maxCapacity blocks = .ok h) :
    h.Shows (b.function name) maxCapacity 0 fun g => b.slotOf (blocks.flatMap (·.items g)) := by
  have hstart := GroupHolder.shows_new (b.function name) capacity maxCapacity
  have hfresh : GroupSlot.fresh (b.function name).initial = b.slotOf [] := by cases b <;> rfl
  exact shows_foldlM (fun _ => []) (hfresh ▸ hstart) hok

/-- **What MIN and MAX bound.** A scan of floating-point blocks yields the
bound of the values that stand after the last NaN of their block, so it is
a bound of all numbers that are not null exactly when these few bound the
others. A group's MIN is a bound of all numbers that have reached the group
and were not null. A group's MAX is a NaN if the last of these values is
one, and otherwise the bound of those after the last NaN: again a bound of
all exactly when these few bound the others. -/
theorem bounds_of_scans (b : Bound) (name : String) :
    (∀ blocks : List FloatBlock,
      let values := blocks.flatMap FloatBlock.values
      let survivors := blocks.flatMap fun block => afterLastNan block.values
      ∃ m, scan (b.function name) blocks = .ok (.double m) ∧ b.IsExtreme survivors m ∧
        (b.Bounds m values ↔ b.Covers survivors values)) ∧
    ∀ (capacity maxCapacity : Nat) (blocks : List GroupedBlock) (h : GroupHolder),
      groupScan (b.function name) capacity maxCapacity blocks = .ok h →
      ∀ (g : Nat) (cell : Cell), (b.function name).extractGroup h g = .ok cell → cell ≠ .null →
        let values := notNull (blocks.flatMap (·.items g))
        ∃ m, cell = .double m ∧
          (b = lower → lower.IsExtreme (numbers values) m ∧ lower.Bounds m values) ∧
          (b = upper → upper.Keeps values m ∧ (m.isNan = true ∨ upper.Bounds m values ↔
            EndsInNan values ∨ upper.Covers (afterLastNan values) values)) := by
  refine ⟨fun blocks => ?_, fun capacity maxCapacity blocks h hrun g cell hcell hnull => ?_⟩
  · obtain ⟨m, hscan, hextreme⟩ := exists_scan b name blocks
    exact ⟨m, hscan, hextreme, hextreme.bounds_iff⟩
  · intro values
    -- the group has the slot that its items make
    have hslot : cell = (b.function name).extractSlot (b.slotOf (blocks.flatMap (·.items g))) := by
      obtain ⟨slot, hslot, rfl⟩ := Except.map_eq_ok.1 hcell
      have hview := (shows_groupScan hrun).slot_eq g
      unfold GroupHolder.slot at hslot
      split at hslot
      · rename_i found hfound
        obtain rfl := Except.ok.inj hslot
        rw [hfound, Option.getD_some] at hview
        rw [hview]
      · cases hslot
    cases b with
    | lower =>
      obtain ⟨m, hvalue, hextreme⟩ := value_slotOf_lower (blocks.flatMap (·.items g))
      simp only [function, AggregateFunction.extractSlot, hvalue] at hslot
      split at hslot
      · exact absurd hslot hnull
      · exact ⟨m, hslot, fun _ => ⟨hextreme, hextreme.bounds_iff.2 (covers_numbers _ _)⟩,
          (fun hother => by cases hother)⟩
    | upper =>
      simp only [function, AggregateFunction.extractSlot] at hslot
      split at hslot
      · exact absurd hslot hnull
      · rename_i hvalued
        obtain ⟨m, hvalue, hkeeps⟩ := value_slotOf_upper _ (Bool.eq_false_iff.2 hvalued)
        rw [hvalue] at hslot
        refine ⟨m, hslot, (fun hother => by cases hother), fun _ => ⟨hkeeps, ?_⟩⟩
        rw [← hkeeps.isNan_iff]
        cases hnan : m.isNan with
        | true => simp
        | false => simpa using (hkeeps.extreme hnan).bounds_iff

/-- After a NaN the least and the greatest value start again: of 1, NaN and 5
the least is 5, and of 5, NaN and 1 a group's greatest is 1. -/
theorem bounds_of_scans_nan :
    let one := Double.ofInt 1
    let five := Double.ofInt 5
    let rising : FloatBlock := ⟨3, ⟨.single .double [one, .nan, five], none⟩, .inr ⟨_, rfl⟩⟩
    let falling : GroupedBlock :=
      { length := 3, column := ⟨.single .double [five, .nan, one], none⟩, floating := .inr ⟨_, rfl⟩,
        wanted := 1, groups := [[0], [0], [0]] }
    (scan (.min "v") [rising] = .ok (.double five) ∧ ¬ lower.Bounds five rising.values) ∧
    ∃ h, groupScan (.max "v") 4 4 [falling] = .ok h ∧
      (AggregateFunction.max "v").extractGroup h 0 = .ok (.double one) ∧
      (upper.Keeps [five, .nan, one] one ∧ ¬ upper.Bounds one [five, .nan, one]) := by
  intro one five rising falling
  have hleast : ¬ lower.Bounds five rising.values := fun h =>
    absurd (h one (by decide +kernel) (by decide +kernel)) (by decide +kernel)
  have hgreatest : ¬ upper.Bounds one [five, .nan, one] := fun h =>
    absurd (h five (by decide +kernel) (by decide +kernel)) (by decide +kernel)
  obtain ⟨h, hrun, hcell⟩ : ∃ h, groupScan (.max "v") 4 4 [falling] = .ok h ∧
      (AggregateFunction.max "v").extractGroup h 0 = .ok (.double one) := ⟨_, rfl, by decide +kernel⟩
  obtain ⟨m, hm, -, hupper⟩ := (bounds_of_scans upper "v").2 4 4 [falling] h hrun 0 _ hcell nofun
  obtain rfl := Cell.double.inj hm
  have hvalues : notNull ([falling].flatMap (·.items 0)) = [five, .nan, one] := by decide +kernel
  refine ⟨⟨by decide +kernel, hleast⟩, h, hrun, hcell, ?_, hgreatest⟩
  rw [← hvalues]
  exact (hupper rfl).1

end Bound

end SegmentQuery
