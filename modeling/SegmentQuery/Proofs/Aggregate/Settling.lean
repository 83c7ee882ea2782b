import SegmentQuery.Proofs.Aggregate.Bounds
/-!
# Groups that a null settles

The two bounds treat a null of a group differently. Any null settles a
group's least value. Its greatest value is settled only by a null whose
stored value exceeds all values before it that were not null: any other one
is passed by. A settled group stays settled. What reaches a group is said
step by step, for any holder and also for blocks that fail: a block that
meets a group without a slot stops there, and what it did before stays.
-/


namespace SegmentQuery

namespace GroupHolder

variable {α : Type} {f : AggregateFunction} {limit room : Nat} {h : GroupHolder}
variable {view : Nat → GroupSlot}

/-- Items, each with the one group that it is folded into. -/
def spread (positions : List (List Nat × α)) : List (Nat × α) :=
  positions.flatMap fun p => p.1.map fun g => (g, p.2)

/-- The items of a group among those before the first group past the
room. -/
def itemsWithin (room : Nat) (pairs : List (Nat × α)) (group : Nat) : List α :=
  ((pairs.takeWhile (·.1 < room)).filter (·.1 == group)).map Prod.snd

theorem itemsWithin_cons (room : Nat) (p : Nat × α) (pairs : List (Nat × α)) (group : Nat) :
    itemsWithin room (p :: pairs) group =
      if p.1 < room then
        if p.1 = group then p.2 :: itemsWithin room pairs group else itemsWithin room pairs group
      else [] := by
  unfold itemsWithin
  rw [List.takeWhile_cons]
  by_cases hroom : p.1 < room
  · rw [if_pos hroom, if_pos (decide_eq_true hroom), List.filter_cons]
    by_cases hgroup : p.1 = group
    · rw [if_pos hgroup, if_pos (beq_iff_eq.2 hgroup), List.map_cons]
    · rw [if_neg hgroup, if_neg (mt beq_iff_eq.1 hgroup)]
  · rw [if_neg hroom, if_neg (by simpa using hroom)]
    rfl

/-- Positions are folded item by item. -/
theorem foldPositions_eq (fold : α → GroupSlot → Except QueryError GroupSlot) (h : GroupHolder)
    (positions : List (List Nat × α)) : h.foldPositions fold positions =
      Progress.foldl (fun h p => h.update (fold p.2) p.1) h (spread positions) := by
  rw [foldPositions, spread, Progress.foldl_flatMap]
  simp only [Progress.foldl_map]

theorem slot_eq_ok {group : Nat} {slot : GroupSlot} :
    h.slot group = .ok slot ↔ h.slots[group]? = some slot := by
  unfold GroupHolder.slot
  cases h.slots[group]? with
  | none => simp
  | some found => simp

/-- A group that has a slot keeps it when room is made. -/
theorem getElem?_ensure {wanted group : Nat} {grown : GroupHolder} {slot : GroupSlot}
    (hok : h.ensure wanted = .ok grown) (hslot : h.slots[group]? = some slot) :
    grown.slots[group]? = some slot := by
  obtain ⟨added, hslots⟩ := (grownFrom_of_ensure hok).slots_eq
  rw [hslots, List.getElem?_append_left (List.getElem?_eq_some_iff.1 hslot).1, hslot]

/-- **Items that are folded in** change their groups' slots, up to the first
group without one. -/
theorem Shows.foldl_update (fold : α → GroupSlot → GroupSlot) (pairs : List (Nat × α))
    (hroom : h.capacity = room) (hshows : h.Shows f limit 0 view) :
    (Progress.foldl (fun h p => h.update (fun s => .ok (fold p.2 s)) p.1) h pairs).state.Shows
      f limit 0 fun g => (itemsWithin room pairs g).foldl (fun s a => fold a s) (view g) := by
  induction pairs generalizing h view with
  | nil => exact hshows
  | cons p pairs ih =>
    obtain ⟨own, a⟩ := p
    simp only [itemsWithin_cons]
    cases hslot : h.slots[own]? with
    | none =>
      have hout : ¬ own < room := hroom ▸ Nat.not_lt.2 (List.getElem?_eq_none_iff.1 hslot)
      simp only [Progress.foldl, update_of_none _ hslot, Progress.stopped, if_neg hout,
        List.foldl_nil]
      exact hshows
    | some slot =>
      have hown : own < room := hroom ▸ (List.getElem?_eq_some_iff.1 hslot).1
      have hupdate := update_of_some (fold a) hslot
      have hok : (h.update (fun s => .ok (fold a s)) own).toExcept =
          .ok { h with slots := h.slots.set own (fold a slot) } := by
        rw [hupdate]
        rfl
      have hfull : h.Shows f limit room view := { hshows with room_le := hroom.ge }
      obtain ⟨view', hview', hnext⟩ := (hfull.update hown fun s => .ok (fold a s)).of_ok hok
      obtain rfl := Except.ok.inj hview'
      simp only [Progress.foldl, hupdate, Progress.done, if_pos hown]
      have hcapacity : { h with slots := h.slots.set own (fold a slot) }.capacity = room :=
        List.length_set.trans hroom
      have hrest := ih hcapacity { hnext with room_le := Nat.zero_le _ }
      refine { hrest with slot_eq := fun g => (hrest.slot_eq g).trans ?_ }
      by_cases hg : own = g
      · rw [if_pos hg, ← hg, Function.update_self, List.foldl_cons]
      · rw [if_neg hg, Function.update_of_ne (Ne.symm hg)]

/-- What every item keeps of a slot, a walk keeps. -/
theorem foldl_update_preserves {P : GroupSlot → Prop} {fold : α → GroupSlot → GroupSlot}
    (hfold : ∀ a s, P s → P (fold a s)) (pairs : List (Nat × α)) {group : Nat}
    (h : GroupHolder) (hslot : ∃ slot, h.slots[group]? = some slot ∧ P slot) :
    ∃ slot, (Progress.foldl (fun h p => h.update (fun s => .ok (fold p.2 s)) p.1) h
      pairs).state.slots[group]? = some slot ∧ P slot := by
  refine Progress.foldl_preserves
    (P := fun h : GroupHolder => ∃ slot, h.slots[group]? = some slot ∧ P slot)
    (fun h hslot p _ => ?_) hslot
  obtain ⟨slot, hslot, hkeeps⟩ := hslot
  cases hown : h.slots[p.1]? with
  | none =>
    rw [update_of_none _ hown]
    exact ⟨slot, hslot, hkeeps⟩
  | some own =>
    rw [update_of_some _ hown]
    by_cases hgroup : p.1 = group
    · obtain rfl := Option.some.inj ((hgroup ▸ hown).symm.trans hslot)
      refine ⟨fold p.2 own, ?_, hfold p.2 own hkeeps⟩
      rw [← hgroup]
      exact List.getElem?_set_self (List.getElem?_eq_some_iff.1 hown).1
    · exact ⟨slot, (List.getElem?_set_ne hgroup).trans hslot, hkeeps⟩

end GroupHolder

/-! ## Runs -/

/-- A step of a grouping: room is made for some groups, or the first
positions of a block are folded into the groups that each of them belongs
to. -/
inductive GroupStep
  | room (wanted : Nat)
  | block (length : Nat) (groups : List (List Nat)) (input : Option Column)

namespace GroupStep

/-- The holder after a step. What a step does before it fails stays. -/
def after (f : AggregateFunction) (h : GroupHolder) : GroupStep → GroupHolder
  | room wanted => (Progress.ofExcept h (h.ensure wanted)).state
  | block length groups input => (f.aggregateGroups length groups input h).state

/-- The values of a step in the order in which they are folded: each with
the group that it is folded into, as a double, and with whether its position
is null. Where there are no numbers nothing is folded. -/
def items : GroupStep → List (Nat × Double × Bool)
  | room _ => []
  | block length groups input => GroupHolder.spread
    ((groups.zip ((input.bind fun c => c.markedDoubles.toOption).getD [])).take length)

/-- The holder after some steps. -/
def run (f : AggregateFunction) (h : GroupHolder) (steps : List GroupStep) : GroupHolder :=
  steps.foldl (after f) h

/-- The values that reach a group in some steps. -/
def reaching (f : AggregateFunction) (group : Nat) :
    GroupHolder → List GroupStep → List (Double × Bool)
  | _, [] => []
  | h, step :: steps =>
    GroupHolder.itemsWithin h.capacity step.items group ++ reaching f group (step.after f h) steps

end GroupStep

namespace Bound

open GroupStep

variable {b : Bound} {name : String} {capacity maxCapacity : Nat} {h : GroupHolder}
variable {items : List (Double × Bool)} {v m : Double} {ws : List Double}

/-! ## Steps -/

/-- **A block** is folded item by item, or not at all. -/
theorem state_aggregateGroups (b : Bound) (name : String) (length : Nat) (groups : List (List Nat))
    (input : Option Column) (h : GroupHolder) :
    ((b.function name).aggregateGroups length groups input h).state =
      (Progress.foldl (fun h p => h.update (fun s => .ok (b.foldSlot s p.2)) p.1) h
        (GroupStep.block length groups input).items).state := by
  rw [items, ← GroupHolder.foldPositions_eq (fun item s => .ok (b.foldSlot s item))]
  cases input with
  | none =>
    rw [aggregateGroups_of_error none rfl]
    simp only [Option.bind_none, Option.getD_none, List.zip_nil_right, List.take_nil]
    rfl
  | some c =>
    cases hitems : c.markedDoubles with
    | error e =>
      rw [aggregateGroups_of_error (some c) hitems]
      simp only [Option.bind_some, hitems, Except.toOption, Option.getD_none, List.zip_nil_right,
        List.take_nil]
      rfl
    | ok items =>
      rw [aggregateGroups_of_ok hitems]
      simp only [Option.bind_some, hitems, Except.toOption, Option.getD_some]

/-- One step goes on from the slots that a holder shows. -/
theorem shows_after {view : Nat → GroupSlot} (step : GroupStep)
    (hshows : h.Shows (b.function name) maxCapacity 0 view) :
    (step.after (b.function name) h).Shows (b.function name) maxCapacity 0 fun g =>
      (GroupHolder.itemsWithin h.capacity step.items g).foldl b.foldSlot (view g) := by
  cases step with
  | room wanted =>
    show (Progress.ofExcept h (h.ensure wanted)).state.Shows _ _ _ view
    cases hok : h.ensure wanted with
    | ok grown => exact hshows.of_ensure hok
    | error e => exact hshows
  | block length groups input =>
    rw [after, state_aggregateGroups]
    exact hshows.foldl_update (fun item s => b.foldSlot s item) _ rfl

/-- **Steps go on** from the items that a holder shows. -/
theorem shows_run {seen : Nat → List (Double × Bool)} (steps : List GroupStep)
    (hshows : h.Shows (b.function name) maxCapacity 0 fun g => b.slotOf (seen g)) :
    (run (b.function name) h steps).Shows (b.function name) maxCapacity 0 fun g =>
      b.slotOf (seen g ++ reaching (b.function name) g h steps) := by
  induction steps generalizing h seen with
  | nil => simpa [run, reaching] using hshows
  | cons step steps ih =>
    have hnext := shows_after step hshows
    have hslots : (fun g => (GroupHolder.itemsWithin h.capacity step.items g).foldl b.foldSlot
        (b.slotOf (seen g))) =
        fun g => b.slotOf (seen g ++ GroupHolder.itemsWithin h.capacity step.items g) := by
      funext g
      rw [slotOf, slotOf, List.foldl_append]
    have hall := ih (hslots ▸ hnext)
    simpa only [run, reaching, List.foldl_cons, List.append_assoc] using hall

theorem shows_run_groupHolder (b : Bound) (name : String) (capacity maxCapacity : Nat)
    (steps : List GroupStep) :
    (run (b.function name) ((b.function name).groupHolder capacity maxCapacity) steps).Shows
      (b.function name) maxCapacity 0 fun g =>
        b.slotOf (reaching (b.function name) g
          ((b.function name).groupHolder capacity maxCapacity) steps) := by
  have hstart := GroupHolder.shows_new (b.function name) capacity maxCapacity
  have hfresh : GroupSlot.fresh (b.function name).initial = b.slotOf [] := by cases b <;> rfl
  rw [hfresh] at hstart
  exact shows_run steps hstart

/-! ## Values that are no NaN -/

theorem isNan_of_mem_notNull (hnan : ∀ item ∈ items, item.1.isNan = false) :
    ∀ v ∈ notNull items, v.isNan = false := by
  intro v hv
  obtain ⟨item, hitem, rfl⟩ := List.mem_map.1 hv
  exact hnan item (List.mem_filter.1 hitem).1

/-- **A group's bound** is that of the values that were not null, until a
null settles the group. -/
theorem value_slotOf (b : Bound) (hnan : ∀ item ∈ items, item.1.isNan = false)
    (hopen : (b.slotOf items).isNull = false) :
    ∃ m, (b.slotOf items).value = .double m ∧ b.IsExtreme (notNull items) m := by
  have hnumbers := isNan_of_mem_notNull hnan
  cases b with
  | lower =>
    obtain ⟨m, hvalue, hextreme⟩ := value_slotOf_lower items
    rw [numbers, List.filter_eq_self.2 fun v hv => by simp [hnumbers v hv]] at hextreme
    exact ⟨m, hvalue, hextreme⟩
  | upper =>
    obtain ⟨m, hvalue, hkeeps⟩ := value_slotOf_upper items hopen
    have hm : m.isNan = false := by
      rw [← Bool.not_eq_true, hkeeps.isNan_iff]
      rintro ⟨v, hv, hvnan⟩
      rw [hnumbers v (List.mem_of_getLast? hv)] at hvnan
      cases hvnan
    have hextreme := hkeeps.extreme hm
    rw [afterLastNan, List.rtakeWhile_eq_self_iff.2 fun v hv => by simp [hnumbers v hv]] at hextreme
    exact ⟨m, hvalue, hextreme⟩

/-! ## Nulls that settle -/

/-- Whether a null settles a group that some values have reached: any null
settles the least value, and the greatest one is settled by a null whose
stored value exceeds all values that were not null. -/
def SettledBy (b : Bound) (before : List (Double × Bool)) (v : Double) : Prop :=
  match b with
  | lower => True
  | upper => Double.negInfinity.lt v ∧ ∀ w ∈ notNull before, w.lt v

/-- Some null among the values settles the group. -/
def Settled (b : Bound) (items : List (Double × Bool)) : Prop :=
  ∃ before v after, items = before ++ (v, true) :: after ∧ b.SettledBy before v

theorem not_settled_nil (b : Bound) : ¬ b.Settled [] := by
  rintro ⟨before, v, after, hsplit, -⟩
  simp at hsplit

/-- One more value settles a group if it is a null that does. -/
theorem settled_append_singleton (b : Bound) (items : List (Double × Bool)) (item : Double × Bool) :
    b.Settled (items ++ [item]) ↔ b.Settled items ∨ item.2 = true ∧ b.SettledBy items item.1 := by
  constructor
  · rintro ⟨before, v, after, hsplit, hsettled⟩
    rcases List.eq_nil_or_concat after with rfl | ⟨front, last, rfl⟩
    · obtain ⟨rfl, hitem⟩ := List.append_inj' hsplit rfl
      obtain rfl := (List.cons.inj hitem).1
      exact .inr ⟨rfl, hsettled⟩
    · rw [List.concat_eq_append, ← List.cons_append, ← List.append_assoc] at hsplit
      exact .inl ⟨before, v, front, (List.append_inj' hsplit rfl).1, hsettled⟩
  · rintro (⟨before, v, after, rfl, hsettled⟩ | ⟨hnull, hsettled⟩)
    · exact ⟨before, v, after ++ [item], by simp, hsettled⟩
    · obtain ⟨v, isNull⟩ := item
      obtain rfl : isNull = true := hnull
      exact ⟨items, v, [], rfl, hsettled⟩

/-- What the greatest of some values does not bound exceeds them all. -/
theorem IsExtreme.not_le_iff (h : upper.IsExtreme ws m) (hv : v.isNan = false) :
    v.le m = false ↔ Double.negInfinity.lt v ∧ ∀ w ∈ ws, w.lt v := by
  have hlt {w : Double} (hw : w.isNan = false) : w.lt v ↔ v.le w = false := by
    rw [Double.lt_eq_not_le hw hv, Bool.not_eq_true_eq_eq_false]
  constructor
  · intro hm
    have hexceeds {w : Double} (hw : upper.holds m w) : w.lt v := by
      rw [hlt (holds_iff.1 hw).2.1, ← Bool.not_eq_true]
      intro hle
      exact Bool.false_ne_true (hm.symm.trans (holds_trans hw hle))
    exact ⟨hexceeds (upper.holds_nothing h.isNan), fun w hw => hexceeds (h.holds w hw)⟩
  · rintro ⟨hnothing, hws⟩
    rcases h.mem with rfl | hmem
    · exact (hlt upper.isNan_nothing).1 hnothing
    · exact (hlt h.isNan).1 (hws m hmem)

/-- A null settles the slot of a group or leaves it as it is; no other value
settles it. -/
theorem isNull_foldSlot (b : Bound) (s : GroupSlot) (item : Double × Bool) :
    (b.foldSlot s item).isNull ↔ s.isNull ∨ item.2 = true ∧
      (b = upper → item.1.le s.value.toDouble = false) := by
  obtain ⟨v, isNull⟩ := item
  cases b with
  | lower =>
    cases isNull with
    | true => simp [foldSlot, GroupSlot.foldMin, GroupSlot.markNull, GroupSlot.isNull]
    | false =>
      simp only [foldSlot, GroupSlot.foldMin, Bool.false_eq_true, if_false, false_and, or_false]
      split
      · rw [isNull_observe]
        rfl
      · rw [isNull_observe]
  | upper =>
    simp only [foldSlot, GroupSlot.foldMax, true_implies]
    cases hs : s.isNull with
    | true => simp [hs]
    | false =>
      cases hle : v.le s.value.toDouble with
      | true => simp [hs]
      | false =>
        cases isNull with
        | true => simp [GroupSlot.markNull, GroupSlot.isNull]
        | false =>
          have hkept : ({ s with value := .double v } : GroupSlot).isNull = false := hs
          simp [isNull_observe, hkept]

/-- **A group is null** exactly when a null among its values settles it. -/
theorem isNull_slotOf (b : Bound) (hnan : ∀ item ∈ items, item.1.isNan = false) :
    (b.slotOf items).isNull ↔ b.Settled items := by
  induction items using List.reverseRecOn with
  | nil =>
    have hfresh : (b.slotOf []).isNull = false := rfl
    simp [hfresh, not_settled_nil]
  | append_singleton items item ih =>
    have hbefore : ∀ item ∈ items, item.1.isNan = false := fun item hitem =>
      hnan item (List.mem_append_left _ hitem)
    have hv : item.1.isNan = false := hnan item (List.mem_append_right _ List.mem_cons_self)
    rw [slotOf_append_singleton, isNull_foldSlot, settled_append_singleton, ← ih hbefore]
    refine or_congr_right' fun hopen => and_congr_right fun _ => ?_
    obtain ⟨m, hvalue, hextreme⟩ := value_slotOf b hbefore (Bool.eq_false_iff.2 hopen)
    cases b with
    | lower => simp [SettledBy]
    | upper =>
      rw [hvalue, Accumulator.toDouble, hextreme.not_le_iff hv]
      simp [SettledBy]

/-! ## Groups -/

/-- **A settled group stays settled**, whatever its holder has been
through. -/
theorem isNull_run (b : Bound) (name : String) (steps : List GroupStep) {group : Nat}
    (h : GroupHolder) (hslot : ∃ slot, h.slots[group]? = some slot ∧ slot.isNull) :
    ∃ slot, (run (b.function name) h steps).slots[group]? = some slot ∧ slot.isNull := by
  induction steps generalizing h with
  | nil => exact hslot
  | cons step steps ih =>
    refine ih _ ?_
    cases step with
    | room wanted =>
      show ∃ slot, (Progress.ofExcept h (h.ensure wanted)).state.slots[group]? = some slot ∧ _
      cases hok : h.ensure wanted with
      | ok grown =>
        obtain ⟨slot, hslot, hnull⟩ := hslot
        exact ⟨slot, GroupHolder.getElem?_ensure hok hslot, hnull⟩
      | error e => exact hslot
    | block length groups input =>
      rw [after, state_aggregateGroups]
      have hkeeps (item : Double × Bool) (s : GroupSlot) (hs : s.isNull) :
          (b.foldSlot s item).isNull := (isNull_foldSlot b s item).2 (.inl hs)
      exact GroupHolder.foldl_update_preserves hkeeps _ h hslot

/-- **Which groups are null, and what the others hold.** Whatever steps a
group's MIN or MAX has been through, failing ones included: as long as no
NaN has reached the group, it is null exactly when a null among the values
that have reached it settles it, and otherwise holds the bound of those that
were not null. A slot that is null stays null in all further steps, in any
holder. -/
theorem extractGroup_of_run (b : Bound) (name : String) :
    (∀ (capacity maxCapacity : Nat) (steps : List GroupStep) (group : Nat),
      let f := b.function name
      let start := f.groupHolder capacity maxCapacity
      let values := reaching f group start steps
      group < (run f start steps).capacity → (∀ item ∈ values, item.1.isNan = false) →
        (f.extractGroup (run f start steps) group = .ok .null ↔ b.Settled values) ∧
        (¬ b.Settled values → ∃ m, f.extractGroup (run f start steps) group = .ok (.double m) ∧
          b.IsExtreme (notNull values) m)) ∧
    ∀ (h : GroupHolder) (group : Nat) (slot : GroupSlot), h.slot group = .ok slot →
      slot.state = .null → ∀ steps : List GroupStep, ∃ slot',
        (run (b.function name) h steps).slot group = .ok slot' ∧ slot'.state = .null := by
  constructor
  · intro capacity maxCapacity steps group f start values hgroup hnan
    have hshows := shows_run_groupHolder b name capacity maxCapacity steps
    obtain ⟨slot, hslot⟩ : ∃ slot, (run f start steps).slots[group]? = some slot :=
      ⟨_, List.getElem?_eq_getElem hgroup⟩
    have hview : slot = b.slotOf values := by
      have hget := hshows.slot_eq group
      rwa [hslot, Option.getD_some] at hget
    have hextract : f.extractGroup (run f start steps) group =
        .ok (if slot.isNull then .null else .double slot.value.toDouble) := by
      rw [AggregateFunction.extractGroup, GroupHolder.slot_eq_ok.2 hslot]
      cases b <;> rfl
    have hnull := isNull_slotOf b hnan
    rw [← hview] at hnull
    rw [hextract, ← hnull]
    refine ⟨by cases slot.isNull <;> simp, fun hopen => ?_⟩
    rw [hview] at hopen
    obtain ⟨m, hvalue, hextreme⟩ := value_slotOf b hnan (Bool.eq_false_iff.2 hopen)
    refine ⟨m, ?_, hextreme⟩
    rw [if_neg (hview ▸ hopen), hview, hvalue]
    rfl
  · intro h group slot hslot hstate steps
    obtain ⟨slot', hslot', hnull'⟩ := isNull_run b name steps h
      ⟨slot, GroupHolder.slot_eq_ok.1 hslot, by rw [GroupSlot.isNull, hstate]; rfl⟩
    exact ⟨slot', GroupHolder.slot_eq_ok.2 hslot', beq_iff_eq.1 hnull'⟩

/-- Group 0 passes by a null over 2 after a 5 and ends with 9, since the
value after the group without a slot does not reach it. Group 1 is settled
by a null over 8 after a 1, and stays null when 9 reaches it. -/
theorem extractGroup_of_run_two :
    let f := AggregateFunction.max "v"
    let start := f.groupHolder 1 4
    let first : List GroupStep := [.room 2, .block 4 [[0], [0], [1], [1]] (some ⟨.single .double
      [.ofInt 5, .ofInt 2, .ofInt 1, .ofInt 8], some (.ofList [1, 3])⟩)]
    let second : List GroupStep :=
      [.block 3 [[0, 1], [7], [0]] (some ⟨.single .int [9, 10, 11], none⟩)]
    (f.extractGroup (run f start (first ++ second)) 0 = .ok (.double (.ofInt 9)) ∧
      upper.IsExtreme [.ofInt 5, .ofInt 9] (.ofInt 9)) ∧
    f.extractGroup (run f start (first ++ second)) 1 = .ok .null ∧
    ∃ slot, (run f (run f start first) second).slot 1 = .ok slot ∧ slot.state = .null := by
  intro f start first second
  obtain ⟨hgroups, hsettled⟩ := extractGroup_of_run upper "v"
  have hzero : reaching f 0 start (first ++ second) =
      [(.ofInt 5, false), (.ofInt 2, true), (.ofInt 9, false)] := by decide +kernel
  have hone : reaching f 1 start (first ++ second) =
      [(.ofInt 1, false), (.ofInt 8, true), (.ofInt 9, false)] := by decide +kernel
  have hzeroNan : ∀ item ∈ reaching f 0 start (first ++ second), item.1.isNan = false :=
    hzero ▸ by decide +kernel
  have hzeroOpen : ¬ upper.Settled (reaching f 0 start (first ++ second)) := fun h =>
    absurd ((isNull_slotOf upper hzeroNan).2 h) (hzero ▸ by decide +kernel)
  obtain ⟨m, hm, hextreme⟩ :=
    (hgroups 1 4 (first ++ second) 0 (by decide +kernel) hzeroNan).2 hzeroOpen
  have hnine : f.extractGroup (run f start (first ++ second)) 0 = .ok (.double (.ofInt 9)) := by
    decide +kernel
  obtain rfl := Cell.double.inj (Except.ok.inj (hm.symm.trans hnine))
  obtain ⟨honeNull, -⟩ := hgroups 1 4 (first ++ second) 1 (by decide +kernel)
    (hone ▸ by decide +kernel)
  refine ⟨⟨hnine, ?_⟩, honeNull.2 ?_, ?_⟩
  · change upper.IsExtreme (notNull (reaching f 0 start (first ++ second))) (.ofInt 9) at hextreme
    rw [hzero] at hextreme
    exact hextreme
  · exact hone ▸ ⟨[(.ofInt 1, false)], .ofInt 8, [(.ofInt 9, false)], rfl, by decide +kernel,
      by decide +kernel⟩
  · exact hsettled (run f start first) 1 ⟨.null, .double (.ofInt 1)⟩ (by decide +kernel) rfl second

end Bound

end SegmentQuery
