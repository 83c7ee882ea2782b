import Mathlib.Data.List.Induction
import SegmentQuery.Proofs.Aggregate.Summaries
import SegmentQuery.Proofs.Result.Combining
/-!
# Slots that gather documents

The slot of a group gathers the documents of the group one by one: at any
time it summarizes those that have reached it. A holder has such a slot
for each number, and folding a batch of documents into it hands each
document to the slot of its number and leaves the other slots alone.
-/


namespace SegmentQuery

open Document

/-! ## Slots -/

/-- A slot has gathered some documents. -/
def Gathers (nullHandling : Bool) (documents : List Document) : AggregateFunction → GroupSlot → Prop
  | .count none, s => s.value = .long (Counter.signed documents.length)
  | .count (some column), s =>
    s.value = .long (Counter.signed (documents.countP fun d => !d.isNull nullHandling column))
  | .min column, s => s.isNull = false ∧
    ((documents = [] ∧ s.value = .double Double.infinity) ∨
      ∃ least, IsLeast (integers nullHandling column documents) least ∧
        s.value = .double (Double.ofInt least))
  | .max column, s => s.isNull = false ∧
    ((documents = [] ∧ s.value = .double Double.negInfinity) ∨
      ∃ greatest, IsGreatest (integers nullHandling column documents) greatest ∧
        s.value = .double (Double.ofInt greatest))
  | _, _ => False

variable {nullHandling : Bool} {documents : List Document} {d : Document} {f : AggregateFunction}
variable {slot : GroupSlot} {column : String} {n : Int}

/-- Functions whose slots gather documents in any order. -/
def AggregateFunction.Gathering : AggregateFunction → Prop
  | .count _ | .min _ | .max _ => True
  | _ => False

/-- A fresh slot has gathered nothing. -/
theorem gathers_fresh (hf : f.Gathering) : Gathers nullHandling [] f (.fresh f.initial) := by
  match f, hf with
  | .count none, _ => rfl
  | .count (some _), _ => rfl
  | .min _, _ => exact ⟨rfl, .inl ⟨rfl, rfl⟩⟩
  | .max _, _ => exact ⟨rfl, .inl ⟨rfl, rfl⟩⟩

/-- **What is extracted from a slot** summarizes the documents that it has
gathered. -/
theorem Gathers.extractSlot (h : Gathers nullHandling documents f slot) (hne : documents ≠ []) :
    Summarizes nullHandling documents f (f.extractSlot slot) := by
  match f, h with
  | .count none, h =>
    show Cell.long slot.value.toLong = _
    rw [h]
    rfl
  | .count (some column), h =>
    show Cell.long slot.value.toLong = _
    rw [h]
    rfl
  | .min column, ⟨hnull, h⟩ =>
    rcases h with ⟨hnil, -⟩ | ⟨least, hleast, hvalue⟩
    · exact absurd hnil hne
    · refine ⟨least, hleast, ?_⟩
      simp only [AggregateFunction.extractSlot, hnull, hvalue, Bool.false_eq_true, if_false]
      rfl
  | .max column, ⟨hnull, h⟩ =>
    rcases h with ⟨hnil, -⟩ | ⟨greatest, hgreatest, hvalue⟩
    · exact absurd hnil hne
    · refine ⟨greatest, hgreatest, ?_⟩
      simp only [AggregateFunction.extractSlot, hnull, hvalue, Bool.false_eq_true, if_false]
      rfl

/-! ## One more document -/

theorem value_observe (s : GroupSlot) : s.observe.value = s.value := by
  unfold GroupSlot.observe
  split <;> rfl

theorem isNull_observe (s : GroupSlot) : s.observe.isNull = s.isNull := by
  unfold GroupSlot.observe
  split
  · rename_i h
    simp [GroupSlot.isNull, h]
  · rfl

theorem integers_snoc (h : d.integer? nullHandling column = some n) :
    integers nullHandling column (documents ++ [d]) =
      integers nullHandling column documents ∪ {n} := by
  rw [integers_append]
  congr 1
  ext m
  simp [integers, h, eq_comm]

/-- A count takes in one more. -/
theorem value_foldCount {count : Nat} (h : slot.value = .long (Counter.signed count)) :
    slot.foldCount.value = .long (Counter.signed (count + 1)) := by
  have hone : (1 : Int64) = Counter.signed 1 := by decide
  rw [GroupSlot.foldCount, value_observe, h, hone]
  exact congrArg Accumulator.long (Counter.addSigned_signed count 1)

/-- The least takes in one more. -/
theorem Gathers.foldMin (h : Gathers nullHandling documents (.min column) slot)
    (hd : d.integer? nullHandling column = some n) :
    Gathers nullHandling (documents ++ [d]) (.min column)
      (slot.foldMin (Double.ofInt n, false)) := by
  obtain ⟨hnull, h⟩ := h
  have hleast : ∃ least, IsLeast (integers nullHandling column (documents ++ [d])) least ∧
      (slot.foldMin (Double.ofInt n, false)).value = .double (Double.ofInt least) := by
    rw [integers_snoc hd]
    simp only [GroupSlot.foldMin, Bool.false_eq_true, if_false]
    rcases h with ⟨rfl, hvalue⟩ | ⟨least, hleast, hvalue⟩
    · -- nothing so far: the first integer is the least
      refine ⟨n, ?_, ?_⟩
      · simp [integers]
      · split
        · rw [value_observe]
        · rename_i hlt
          rw [value_observe, hvalue]
          rw [hvalue] at hlt
          rw [Double.ofInt_eq_infinity (Bool.eq_false_iff.2 hlt)]
    · refine ⟨min least n, hleast.union isLeast_singleton, ?_⟩
      rw [hvalue]
      show (if (Double.ofInt n).lt (Double.ofInt least) = true then _ else _ : GroupSlot).value = _
      rcases Int.le_total least n with hle | hle
      · rw [Double.not_ofInt_lt hle, if_neg Bool.false_ne_true, value_observe, hvalue,
          Int.min_eq_left hle]
      · rw [Int.min_eq_right hle]
        split
        · rw [value_observe]
        · rename_i hlt
          rw [value_observe, hvalue, Double.ofInt_eq_of_not_lt hle (Bool.eq_false_iff.2 hlt)]
  refine ⟨?_, .inr hleast⟩
  simp only [GroupSlot.foldMin, Bool.false_eq_true, if_false]
  split <;> rw [isNull_observe] <;> exact hnull

/-- The greatest takes in one more. -/
theorem Gathers.foldMax (h : Gathers nullHandling documents (.max column) slot)
    (hd : d.integer? nullHandling column = some n) :
    Gathers nullHandling (documents ++ [d]) (.max column)
      (slot.foldMax (Double.ofInt n, false)) := by
  obtain ⟨hnull, h⟩ := h
  have hgreatest : ∃ greatest,
      IsGreatest (integers nullHandling column (documents ++ [d])) greatest ∧
      (slot.foldMax (Double.ofInt n, false)).value = .double (Double.ofInt greatest) := by
    rw [integers_snoc hd]
    simp only [GroupSlot.foldMax, hnull, Bool.false_or, Bool.false_eq_true, if_false]
    rcases h with ⟨rfl, hvalue⟩ | ⟨greatest, hgreatest, hvalue⟩
    · -- nothing so far: the first integer is the greatest
      refine ⟨n, ?_, ?_⟩
      · simp [integers]
      · split
        · rename_i hle
          rw [hvalue] at hle ⊢
          rw [Double.ofInt_eq_negInfinity hle]
        · rw [value_observe]
    · refine ⟨max greatest n, hgreatest.union isGreatest_singleton, ?_⟩
      rw [hvalue]
      show (if (Double.ofInt n).le (Double.ofInt greatest) = true then _ else _ : GroupSlot).value = _
      rcases Int.le_total n greatest with hle | hle
      · rw [Double.ofInt_le hle, if_pos rfl, hvalue, Int.max_eq_left hle]
      · rw [Int.max_eq_right hle]
        split
        · rename_i hle'
          rw [hvalue, Double.ofInt_eq_of_le hle hle']
        · rw [value_observe]
  refine ⟨?_, .inr hgreatest⟩
  simp only [GroupSlot.foldMax, hnull, Bool.false_or, Bool.false_eq_true, if_false]
  split
  · exact hnull
  · rw [isNull_observe]
    exact hnull

/-! ## Holders -/

namespace GroupHolder

/-- A holder with room for the wanted groups that was another one: it has the
slots of that one, and fresh ones behind them. -/
structure GrownFrom (wanted : Nat) (h grown : GroupHolder) : Prop where
  initial_eq : grown.initial = h.initial
  maxCapacity_eq : grown.maxCapacity = h.maxCapacity
  room_le : wanted ≤ grown.capacity
  capacity_le : h.capacity ≤ h.maxCapacity → grown.capacity ≤ h.maxCapacity
  slots_eq : ∃ added, grown.slots = h.slots ++ List.replicate added (.fresh h.initial)

/-- **What asking for room does**: there is room, it is past the maximum, it
cannot be allocated, or the holder grows. -/
theorem ensure_cases (h : GroupHolder) (wanted : Nat) :
    (wanted ≤ h.capacity ∧ h.ensure wanted = .ok h) ∨
    (h.capacity < wanted ∧ h.maxCapacity < wanted ∧
      h.ensure wanted = .error (.groupCapacity wanted h.maxCapacity)) ∨
    (h.capacity < wanted ∧ wanted ≤ h.maxCapacity ∧ Number.maxAllocation < h.grownBytes wanted ∧
      h.ensure wanted = .error (.allocation .aggregate (h.grownBytes wanted))) ∨
    (h.capacity < wanted ∧ wanted ≤ h.maxCapacity ∧ h.grownBytes wanted ≤ Number.maxAllocation ∧
      h.ensure wanted = .ok (h.grow wanted)) := by
  unfold GroupHolder.ensure
  by_cases hfits : wanted ≤ h.capacity
  · exact .inl ⟨hfits, if_pos hfits⟩
  · rw [if_neg hfits]
    have hless := Nat.lt_of_not_le hfits
    by_cases hbeyond : h.maxCapacity < wanted
    · exact .inr (.inl ⟨hless, hbeyond, if_pos hbeyond⟩)
    · rw [if_neg hbeyond]
      have hwithin := Nat.le_of_not_lt hbeyond
      by_cases hfull : Number.maxAllocation < h.grownBytes wanted
      · exact .inr (.inr (.inl ⟨hless, hwithin, hfull, if_pos hfull⟩))
      · exact .inr (.inr (.inr ⟨hless, hwithin, Nat.le_of_not_lt hfull, if_neg hfull⟩))

/-- A holder that grows keeps its slots. -/
theorem grownFrom_grow {h : GroupHolder} {wanted : Nat} (hless : h.capacity < wanted)
    (hwithin : wanted ≤ h.maxCapacity) : GrownFrom wanted h (h.grow wanted) where
  initial_eq := rfl
  maxCapacity_eq := rfl
  room_le := by
    simp only [grow, capacity, List.length_append, List.length_replicate] at *
    omega
  capacity_le hle := by
    simp only [grow, capacity, List.length_append, List.length_replicate] at *
    omega
  slots_eq := ⟨_, rfl⟩

/-- **A holder with room** for what was wanted has kept its slots. -/
theorem grownFrom_of_ensure {h grown : GroupHolder} {wanted : Nat}
    (hok : h.ensure wanted = .ok grown) : GrownFrom wanted h grown := by
  obtain ⟨hfits, hensure⟩ | ⟨-, -, hensure⟩ | ⟨-, -, -, hensure⟩ | ⟨hless, hwithin, -, hensure⟩ :=
    h.ensure_cases wanted <;> rw [hensure] at hok
  · obtain rfl := Except.ok.inj hok
    exact ⟨rfl, rfl, hfits, id, 0, (List.append_nil _).symm⟩
  · cases hok
  · cases hok
  · obtain rfl := Except.ok.inj hok
    exact grownFrom_grow hless hwithin

/-- Room that can be allocated is made within the maximum. -/
theorem exists_ensure {h : GroupHolder} {wanted : Nat} (hwithin : wanted ≤ h.maxCapacity)
    (hbytes : h.capacity < wanted → h.grownBytes wanted ≤ Number.maxAllocation) :
    ∃ grown, h.ensure wanted = .ok grown := by
  obtain ⟨-, hensure⟩ | ⟨-, hbeyond, -⟩ | ⟨hless, -, hfull, -⟩ | ⟨-, -, -, hensure⟩ :=
    h.ensure_cases wanted
  · exact ⟨_, hensure⟩
  · exact absurd hwithin (Nat.not_le.2 hbeyond)
  · exact absurd (hbytes hless) (Nat.not_le.2 hfull)
  · exact ⟨_, hensure⟩

/-- There is room for as many groups as 32 bits number. -/
theorem grownBytes_le {h : GroupHolder} {wanted : Nat} (hbits : wanted ≤ Number.bound32)
    (hless : h.capacity < wanted) : h.grownBytes wanted ≤ Number.maxAllocation := by
  simp only [grownBytes, slotBytes, Number.maxAllocation, Number.bound32] at *
  omega

/-- A holder of a function has room for some numbers, and each of its
slots has gathered the documents of its number. -/
structure Keeps (nullHandling : Bool) (f : AggregateFunction) (limit room : Nat)
    (documents : Nat → List Document) (h : GroupHolder) : Prop where
  initial_eq : h.initial = f.initial
  maxCapacity_eq : h.maxCapacity = limit
  room_le : room ≤ h.capacity
  gathers : ∀ number slot, h.slots[number]? = some slot →
    Gathers nullHandling (documents number) f slot

variable {limit room : Nat} {documents : Nat → List Document} {h : GroupHolder}

/-- A new holder has gathered nothing. -/
theorem keeps_new (hf : f.Gathering) (capacity : Nat) :
    (f.groupHolder capacity limit).Keeps nullHandling f limit 0 fun _ => [] where
  initial_eq := rfl
  maxCapacity_eq := rfl
  room_le := Nat.zero_le _
  gathers number slot hslot := by
    have hmem := List.mem_of_getElem? hslot
    rw [List.eq_of_mem_replicate hmem]
    exact gathers_fresh hf

/-- **A holder makes room** for as many numbers as the limit allows. -/
theorem Keeps.ensure (hf : f.Gathering) (hkeeps : h.Keeps nullHandling f limit room documents)
    (hnone : ∀ number, room ≤ number → documents number = []) {wanted : Nat}
    (hwanted : wanted ≤ limit) (hbits : wanted ≤ Number.bound32) :
    ∃ grown, h.ensure wanted = .ok grown ∧ grown.Keeps nullHandling f limit wanted documents := by
  obtain ⟨hinitial, rfl, hroom, hgathers⟩ := hkeeps
  obtain ⟨grown, hgrown⟩ := exists_ensure hwanted (grownBytes_le hbits)
  obtain ⟨hinitial', hmax, hroom', -, added, hslots⟩ := grownFrom_of_ensure hgrown
  refine ⟨grown, hgrown, hinitial'.trans hinitial, hmax, hroom', fun number slot hslot => ?_⟩
  rw [hslots] at hslot
  -- an old slot is as it was, a new one is fresh and its number has no documents
  rcases Nat.lt_or_ge number h.capacity with hold | hnew
  · rw [List.getElem?_append_left hold] at hslot
    exact hgathers number slot hslot
  · rw [List.getElem?_append_right hnew] at hslot
    rw [hnone number (hroom.trans hnew), List.eq_of_mem_replicate (List.mem_of_getElem? hslot),
      hinitial]
    exact gathers_fresh hf

/-- A change of a slot that is there goes through. -/
theorem update_of_some (g : GroupSlot → GroupSlot) {number : Nat} {slot : GroupSlot}
    (hslot : h.slots[number]? = some slot) : h.update (fun s => .ok (g s)) number =
      .done { h with slots := h.slots.set number (g slot) } := by
  rw [GroupHolder.update, GroupHolder.slot, hslot]
  rfl

/-- A change of a slot that is not there stops. -/
theorem update_of_none (g : GroupSlot → Except QueryError GroupSlot) {number : Nat}
    (hslot : h.slots[number]? = none) :
    h.update g number = .stopped h (.groupKeyOutside number h.capacity) := by
  rw [GroupHolder.update, GroupHolder.slot, hslot]
  rfl

/-- One slot changes, the others stay. -/
theorem update_ok {g : GroupSlot → GroupSlot} {number : Nat}
    (hlt : number < h.slots.length) :
    (h.update (fun s => .ok (g s)) number).toExcept =
      .ok { h with slots := h.slots.set number (g h.slots[number]) } := by
  rw [update_of_some g (List.getElem?_eq_getElem hlt)]
  rfl

/-- One slot gathers one more document. -/
theorem Keeps.set (hkeeps : h.Keeps nullHandling f limit room documents) {number : Nat}
    {next : GroupSlot} (hnext : Gathers nullHandling (documents number ++ [d]) f next) :
    ({ h with slots := h.slots.set number next } : GroupHolder).Keeps nullHandling f limit room
      fun i => documents i ++ if number = i then [d] else [] where
  initial_eq := hkeeps.initial_eq
  maxCapacity_eq := hkeeps.maxCapacity_eq
  room_le := by
    rw [capacity, List.length_set]
    exact hkeeps.room_le
  gathers i slot hslot := by
    rw [List.getElem?_set] at hslot
    by_cases hi : number = i
    · subst hi
      rw [if_pos rfl, Option.ite_none_right_eq_some] at hslot
      obtain rfl := Option.some.inj hslot.2
      rwa [if_pos rfl]
    · rw [if_neg hi] at hslot
      rw [if_neg hi, List.append_nil]
      exact hkeeps.gathers i slot hslot

/-- **A batch of documents reaches the slots of their numbers.** A
document is folded in where there is an item for it, and passed by where
there is none. -/
theorem Keeps.foldPositions {α : Type} (g : α → GroupSlot → GroupSlot) (item : Document → Option α)
    {number : Document → Nat} {batch : List Document}
    (hstep : ∀ seen, ∀ d ∈ batch, ∀ slot, Gathers nullHandling seen f slot →
      Gathers nullHandling (seen ++ [d]) f ((item d).elim slot fun a => g a slot))
    (hnumbers : ∀ d ∈ batch, number d < room)
    (hkeeps : h.Keeps nullHandling f limit room documents) :
    ∃ folded, (h.foldPositions (fun a s => .ok (g a s))
        (batch.filterMap fun d => (item d).map fun a => ([number d], a))).toExcept = .ok folded ∧
      folded.Keeps nullHandling f limit room
        fun i => documents i ++ batch.filter (number · == i) := by
  induction batch generalizing h documents with
  | nil => exact ⟨h, rfl, by simpa using hkeeps⟩
  | cons d rest ih =>
    obtain ⟨hnumber, hnumbers⟩ := List.forall_mem_cons.1 hnumbers
    obtain ⟨hfirst, hrest⟩ := List.forall_mem_cons.1 fun d hd seen => hstep seen d hd
    have hlt : number d < h.slots.length := Nat.lt_of_lt_of_le hnumber hkeeps.room_le
    -- the document joins the documents of its number
    have hjoin (i : Nat) : documents i ++ (d :: rest).filter (number · == i) =
        (documents i ++ if number d = i then [d] else []) ++ rest.filter (number · == i) := by
      rw [List.filter_cons, List.append_assoc]
      by_cases hi : number d = i <;> simp [hi]
    simp only [hjoin]
    have hgathers := hkeeps.gathers (number d) h.slots[number d] (List.getElem?_eq_getElem hlt)
    have hkeeps' := hkeeps.set (hfirst _ _ hgathers)
    obtain ⟨folded, hfolded, hdone⟩ := ih (fun seen d hd => hrest d hd seen) hnumbers hkeeps'
    refine ⟨folded, ?_, hdone⟩
    rw [← hfolded, List.filterMap_cons]
    cases hitem : item d with
    | none =>
      rw [Option.elim_none, List.set_getElem_self hlt]
      rfl
    | some a =>
      rw [Option.map_some, GroupHolder.foldPositions, GroupHolder.foldPositions,
        Progress.toExcept_foldl, Progress.toExcept_foldl, List.foldlM_cons]
      dsimp only
      rw [Progress.toExcept_foldl, List.foldlM_cons, update_ok hlt]
      rfl

end GroupHolder

/-! ## Batches -/

/-- A column of a block delivers what documents have in a named column. -/
structure Column.Delivers (nullHandling : Bool) (name : String) (batch : List Document)
    (c : Column) : Prop where
  length_eq : c.length = batch.length
  isNull_eq : ∀ (i : Nat) (hi : i < batch.length), c.isNull i = batch[i].isNull nullHandling name
  doubles_eq : batch ≠ [] → (∀ d ∈ batch, (d.integer? nullHandling name).isSome) → c.doubles =
    .ok (batch.map fun d => Double.ofInt ((d.integer? nullHandling name).getD 0))

/-- A cell that is an integer is a value of a column of integers, and the
document is not null there. -/
theorem Column.of_integer?_cellOf {c : Column} {number : Nat}
    (h : (c.cellOf nullHandling number).integer? = some n) :
    (nullHandling && c.isNull number) = false ∧
      ((∃ vs v, c.values = .single .int vs ∧ vs[number]? = some v ∧ v.toInt = n) ∨
        ∃ vs v, c.values = .single .long vs ∧ vs[number]? = some v ∧ v.toInt = n) := by
  obtain ⟨values, nulls⟩ := c
  unfold Column.cellOf at h
  cases values with
  | multi t vs =>
    -- no array is an integer
    cases t <;> cases hv : vs[number]? <;> simp [StoredType.arrayCell?, hv, Cell.integer?] at h
  | single t vs =>
    dsimp only at h
    split at h
    · exact nomatch h
    · rename_i hnull
      refine ⟨Bool.eq_false_iff.2 hnull, ?_⟩
      cases hv : vs[number]? with
      | none => simp [hv, Cell.integer?] at h
      | some v =>
        cases t <;> simp only [hv, StoredType.cell, Option.map_some, Option.getD_some,
          Cell.integer?, Option.some.injEq, reduceCtorEq] at h
        · exact .inl ⟨vs, v, rfl, hv, h⟩
        · exact .inr ⟨vs, v, rfl, hv, h⟩

/-- A document with an integer in a column is not null there. -/
theorem Document.isNull_of_integer? (h : (d.integer? nullHandling column).isSome) :
    d.isNull nullHandling column = false := by
  obtain ⟨n, hn⟩ := Option.isSome_iff_exists.1 h
  unfold Document.integer? MemorySegment.cell at hn
  unfold Document.isNull
  cases hfind : d.segment.find column with
  | error e => rfl
  | ok c =>
    rw [hfind] at hn
    exact (Column.of_integer?_cellOf hn).1

variable {batch : List Document} {number : Document → Nat} {c : Column}

/-- The items at positions that are not recorded as null. -/
theorem Column.present_map {α β : Type} {nulls : Option DocSet} {items : List α}
    {bad : α → Bool} {g : α → β}
    (h : ∀ (i : Nat) (hi : i < items.length), recordsNull nulls i = bad items[i]) :
    Column.present nulls items.length (items.map g) = (items.filter fun d => !bad d).map g := by
  rw [Column.present, List.take_of_length_le (by simp)]
  -- from the end, where a position does not move the others
  induction items using List.reverseRecOn with
  | nil => rfl
  | append_singleton items d ih =>
    have hlast := h items.length (by simp)
    rw [List.getElem_concat_length rfl] at hlast
    have hfront := ih fun i hi => by
      rw [h i (by simp; omega), List.getElem_append_left hi]
    rw [List.map_append, List.map_singleton, List.zipIdx_append, List.filter_append,
      List.map_append, hfront, List.filter_append, List.map_append]
    congr 1
    simp only [List.length_map, Nat.zero_add, List.zipIdx_singleton, List.filter_singleton, hlast]
    cases bad d <;> rfl

namespace AggregateFunction

/-- What a function reads of documents is there: integers for a least or a
greatest. -/
def Reads (nullHandling : Bool) (documents : List Document) : AggregateFunction → Prop
  | .count _ => True
  | .min column | .max column => ∀ d ∈ documents, (d.integer? nullHandling column).isSome
  | _ => False

theorem Reads.gathering (h : f.Reads nullHandling batch) : f.Gathering := by
  match f, h with
  | .count _, _ => trivial
  | .min _, _ => trivial
  | .max _, _ => trivial

theorem Reads.of_subset {documents : List Document} (h : f.Reads nullHandling documents)
    (hsubset : batch ⊆ documents) : f.Reads nullHandling batch := by
  match f, h with
  | .count _, _ => trivial
  | .min _, h => exact fun d hd => h d (hsubset hd)
  | .max _, h => exact fun d hd => h d (hsubset hd)

variable {limit room : Nat} {documents : Nat → List Document} {h : GroupHolder}
variable {input : Option Column}

/-- The doubles of a column, each with the group of its document. -/
theorem zip_markedDoubles (number : Document → Nat) (hc : c.Delivers nullHandling column batch)
    (hne : batch ≠ []) (hread : ∀ d ∈ batch, (d.integer? nullHandling column).isSome) :
    ∃ items, c.markedDoubles = .ok items ∧
      ((batch.map fun d => [number d]).zip items).take batch.length =
        batch.map fun d => ([number d],
          (Double.ofInt ((d.integer? nullHandling column).getD 0), false)) := by
  refine ⟨_, Except.map_eq_ok.2 ⟨_, hc.doubles_eq hne hread, rfl⟩, ?_⟩
  refine List.ext_getElem (by simp) fun i hi hi' => ?_
  have hlt : i < batch.length := by simpa using hi'
  have hnull := hc.isNull_eq i hlt
  rw [Document.isNull_of_integer? (hread _ (List.getElem_mem hlt))] at hnull
  simp [hnull]

/-- A fold of integers reaches the slots of a batch. -/
theorem foldDoubles_ok {fold : Double × Bool → GroupSlot → GroupSlot}
    (hc : c.Delivers nullHandling column batch) (hne : batch ≠ [])
    (hread : ∀ d ∈ batch, (d.integer? nullHandling column).isSome)
    (hstep : ∀ seen d n slot, d.integer? nullHandling column = some n →
      Gathers nullHandling seen f slot →
      Gathers nullHandling (seen ++ [d]) f (fold (Double.ofInt n, false) slot))
    (hnumbers : ∀ d ∈ batch, number d < room)
    (hkeeps : h.Keeps nullHandling f limit room documents) :
    ∃ folded, (match (do (← f.requireInput (some c)).markedDoubles) with
        | .error e => Progress.stopped h e
        | .ok items => h.foldPositions (fun item s => .ok (fold item s))
          (((batch.map fun d => [number d]).zip items).take batch.length)).toExcept = .ok folded ∧
      folded.Keeps nullHandling f limit room
        fun i => documents i ++ batch.filter (number · == i) := by
  obtain ⟨items, hitems, hzip⟩ := zip_markedDoubles number hc hne hread
  have hitems : (do (← f.requireInput (some c)).markedDoubles) = .ok items := hitems
  have hall : ∀ seen, ∀ d ∈ batch, ∀ slot, Gathers nullHandling seen f slot →
      Gathers nullHandling (seen ++ [d]) f
        (fold (Double.ofInt ((d.integer? nullHandling column).getD 0), false) slot) := by
    intro seen d hd slot hslot
    obtain ⟨n, hn⟩ := Option.isSome_iff_exists.1 (hread d hd)
    rw [hn, Option.getD_some]
    exact hstep seen d n slot hn hslot
  have hfold := hkeeps.foldPositions fold
    (fun d => some (Double.ofInt ((d.integer? nullHandling column).getD 0), false)) hall hnumbers
  rw [hitems]
  dsimp only
  rw [hzip, ← List.filterMap_eq_map]
  exact hfold

/-- **A batch is folded into a holder**, whatever the function: each
document reaches the slot of its number. -/
theorem aggregateGroups_ok (hne : batch ≠ []) (hread : f.Reads nullHandling batch)
    (hinput : match f.column? with
      | none => input = none
      | some name => ∃ c, input = some c ∧ c.Delivers nullHandling name batch)
    (hnumbers : ∀ d ∈ batch, number d < room)
    (hkeeps : h.Keeps nullHandling f limit room documents) :
    ∃ folded, (f.aggregateGroups batch.length (batch.map fun d => [number d]) input h).toExcept =
        .ok folded ∧
      folded.Keeps nullHandling f limit room
        fun i => documents i ++ batch.filter (number · == i) := by
  match f, hread, hinput with
  | .count none, _, hinput =>
    obtain rfl : input = none := hinput
    -- every document counts
    have hstep : ∀ seen, ∀ d ∈ batch, ∀ slot, Gathers nullHandling seen (.count none) slot →
        Gathers nullHandling (seen ++ [d]) (.count none) slot.foldCount := by
      intro seen d _ slot hslot
      rw [Gathers, List.length_append, List.length_singleton]
      exact value_foldCount hslot
    have hfold := hkeeps.foldPositions (fun _ s => s.foldCount) (fun _ => some ()) hstep hnumbers
    simpa [aggregateGroups, List.take_of_length_le, Function.comp_def] using hfold
  | .count (some column), _, ⟨c, hinput, hc⟩ =>
    subst hinput
    -- a document that is null is passed by
    have hstep : ∀ seen, ∀ d ∈ batch, ∀ slot, Gathers nullHandling seen (.count (some column)) slot →
        Gathers nullHandling (seen ++ [d]) (.count (some column))
          ((if d.isNull nullHandling column then none else some ()).elim slot
            fun _ => slot.foldCount) := by
      intro seen d _ slot hslot
      cases hnull : d.isNull nullHandling column with
      | true => simpa [Gathers, List.countP_append, hnull] using hslot
      | false =>
        have hcount : (seen ++ [d]).countP (fun d => !d.isNull nullHandling column) =
            seen.countP (fun d => !d.isNull nullHandling column) + 1 := by
          simp [List.countP_append, hnull]
        rw [Gathers, hcount]
        exact value_foldCount hslot
    have hfold := hkeeps.foldPositions (fun _ s => s.foldCount)
      (fun d => if d.isNull nullHandling column then none else some ()) hstep hnumbers
    have hpresent := Column.present_map (g := fun d => [number d]) hc.isNull_eq
    have hreach : c.reach batch.length = batch.length := by
      rw [Column.reach, hc.length_eq, Nat.min_self]
    have hpositions : (Column.present c.nulls (c.reach batch.length)
          (batch.map fun d => [number d])).map (fun gs => (gs, ())) =
        batch.filterMap fun d =>
          (if d.isNull nullHandling column then none else some ()).map fun a => ([number d], a) := by
      rw [hreach, hpresent, List.map_map, ← List.filterMap_eq_map, List.filterMap_filter]
      refine List.filterMap_congr fun d _ => ?_
      cases d.isNull nullHandling column <;> rfl
    rw [← hpositions] at hfold
    exact hfold
  | .min column, hread, ⟨c, hinput, hc⟩ =>
    subst hinput
    exact foldDoubles_ok hc hne hread (fun _ _ _ _ hn hslot => hslot.foldMin hn) hnumbers hkeeps
  | .max column, hread, ⟨c, hinput, hc⟩ =>
    subst hinput
    exact foldDoubles_ok hc hne hread (fun _ _ _ _ hn hslot => hslot.foldMax hn) hnumbers hkeeps

end AggregateFunction

end SegmentQuery
