import SegmentQuery.Proofs.Aggregate.Slots
/-!
# Calls on a group holder

A holder is asked for room, and its slots are changed one at a time. Growth
keeps every slot and adds fresh ones, up to the maximum and never beyond, as
far as they can be allocated. Whatever calls are made, a slot that is there
once is from then on what the changes of its group make of it.
-/


namespace SegmentQuery

namespace GroupHolder

variable {h : GroupHolder} {maximum wanted group : Nat} {initial : Accumulator} {slot : GroupSlot}

/-! ## Calls -/

/-- A call on a holder: for room, or for a group's slot, to change it. -/
inductive Call
  | ensure (wanted : Nat)
  | change (group : Nat) (f : GroupSlot → GroupSlot)

/-- What a call leaves behind. -/
def Call.run (h : GroupHolder) : Call → Progress QueryError GroupHolder
  | .ensure wanted => .ofExcept h (h.ensure wanted)
  | .change group f => h.update (fun s => .ok (f s)) group

/-- What a call makes of the slot of a group that has one. -/
def Call.onSlot (group : Nat) (slot : GroupSlot) : Call → GroupSlot
  | .ensure _ => slot
  | .change changed f => if changed = group then f slot else slot

/-- The holder after some calls, be they errors or not. -/
def after (h : GroupHolder) (calls : List Call) : GroupHolder :=
  calls.foldl (fun h call => (call.run h).state) h

theorem after_append (h : GroupHolder) (front back : List Call) :
    h.after (front ++ back) = (h.after front).after back := List.foldl_append

/-! ## Room -/

/-- A holder of slots that start in one way, within a maximum. -/
structure Sized (maximum : Nat) (initial : Accumulator) (h : GroupHolder) : Prop where
  maxCapacity_eq : h.maxCapacity = maximum
  initial_eq : h.initial = initial
  capacity_le : h.capacity ≤ maximum

theorem sized_new (capacity maximum : Nat) (initial : Accumulator) :
    Sized maximum initial (new capacity maximum initial) where
  maxCapacity_eq := rfl
  initial_eq := rfl
  capacity_le := by
    rw [GroupHolder.capacity, new, List.length_replicate]
    exact Nat.min_le_right ..

/-- A holder with more room has the same start and the same maximum. -/
theorem Sized.grown (h₀ : Sized maximum initial h) {grown : GroupHolder}
    (hgrown : GrownFrom wanted h grown) : Sized maximum initial grown := by
  obtain ⟨rfl, rfl, hle⟩ := h₀
  exact ⟨hgrown.maxCapacity_eq, hgrown.initial_eq, hgrown.capacity_le hle⟩

/-- **Room within the maximum is made** where it can be allocated: every slot
stays, and the new ones are fresh. -/
theorem Sized.ensure (h₀ : Sized maximum initial h) (hwanted : wanted ≤ maximum)
    (hbytes : h.capacity < wanted → h.grownBytes wanted ≤ Number.maxAllocation) :
    ∃ grown added, h.ensure wanted = .ok grown ∧ wanted ≤ grown.capacity ∧
      grown.slots = h.slots ++ List.replicate added (GroupSlot.fresh initial) := by
  obtain ⟨rfl, rfl, -⟩ := h₀
  obtain ⟨grown, hok⟩ := exists_ensure hwanted hbytes
  obtain ⟨-, -, hroom, -, added, hslots⟩ := grownFrom_of_ensure hok
  exact ⟨grown, added, hok, hroom, hslots⟩

/-- Room beyond the maximum is refused. -/
theorem Sized.ensure_beyond (h₀ : Sized maximum initial h) (hwanted : maximum < wanted) :
    h.ensure wanted = .error (.groupCapacity wanted maximum) := by
  obtain ⟨rfl, -, hle⟩ := h₀
  rw [GroupHolder.ensure, if_neg (Nat.not_le.2 (hle.trans_lt hwanted)), if_pos hwanted]

/-- **One call** leaves a holder within its maximum. -/
theorem Sized.run (h₀ : Sized maximum initial h) (call : Call) :
    Sized maximum initial (call.run h).state := by
  cases call with
  | ensure wanted =>
    rw [Call.run]
    cases hensure : h.ensure wanted with
    | error e => exact h₀
    | ok grown => exact h₀.grown (grownFrom_of_ensure hensure)
  | change group f =>
    rw [Call.run]
    cases hslot : h.slots[group]? with
    | none =>
      rw [update_of_none _ hslot]
      exact h₀
    | some slot =>
      rw [update_of_some f hslot]
      refine ⟨h₀.maxCapacity_eq, h₀.initial_eq, ?_⟩
      show (h.slots.set group (f slot)).length ≤ maximum
      rw [List.length_set]
      exact h₀.capacity_le

theorem Sized.after (h₀ : Sized maximum initial h) (calls : List Call) :
    Sized maximum initial (h.after calls) := by
  induction calls generalizing h with
  | nil => exact h₀
  | cons call calls ih => exact ih (h₀.run call)

/-! ## Slots -/

/-- Asking for room keeps the slots, and adds fresh ones if any. -/
theorem Sized.slots_ensure (h₀ : Sized maximum initial h) (wanted : Nat) :
    ∃ added, ((Call.ensure wanted).run h).state.slots =
      h.slots ++ List.replicate added (GroupSlot.fresh initial) := by
  obtain ⟨rfl, rfl, -⟩ := h₀
  rw [Call.run]
  cases hensure : h.ensure wanted with
  | error e => exact ⟨0, (List.append_nil _).symm⟩
  | ok grown => exact (grownFrom_of_ensure hensure).slots_eq

/-- A change of one group's slot, where there is one. -/
theorem slots_change (h : GroupHolder) (group : Nat) (f : GroupSlot → GroupSlot) :
    ((Call.change group f).run h).state.slots = h.slots.modify group f := by
  rw [Call.run]
  cases hslot : h.slots[group]? with
  | none =>
    rw [update_of_none _ hslot, List.modify_eq_self (List.getElem?_eq_none_iff.1 hslot)]
    rfl
  | some slot =>
    rw [update_of_some f hslot, List.modify_eq_set_getElem?, hslot]
    rfl

/-- **One call** does to a slot that is there what it asks for. -/
theorem Sized.getElem?_run (h₀ : Sized maximum initial h) (call : Call)
    (hslot : h.slots[group]? = some slot) :
    (call.run h).state.slots[group]? = some (call.onSlot group slot) := by
  cases call with
  | ensure wanted =>
    obtain ⟨added, hslots⟩ := h₀.slots_ensure wanted
    rw [hslots, List.getElem?_append_left (List.getElem?_eq_some_iff.1 hslot).1, hslot]
    rfl
  | change changed f =>
    rw [slots_change, List.getElem?_modify, hslot, Call.onSlot]
    split <;> rfl

/-- A slot that a call adds is fresh. -/
theorem Sized.eq_fresh_of_run (h₀ : Sized maximum initial h) {call : Call}
    (hnone : h.slots[group]? = none) (hslot : (call.run h).state.slots[group]? = some slot) :
    slot = .fresh initial := by
  cases call with
  | ensure wanted =>
    obtain ⟨added, hslots⟩ := h₀.slots_ensure wanted
    rw [hslots, List.getElem?_append_right (List.getElem?_eq_none_iff.1 hnone)] at hslot
    exact List.eq_of_mem_replicate (List.mem_of_getElem? hslot)
  | change changed f =>
    rw [slots_change, List.getElem?_modify, hnone] at hslot
    exact nomatch hslot

theorem Sized.getElem?_after (h₀ : Sized maximum initial h) (calls : List Call)
    (hslot : h.slots[group]? = some slot) :
    (h.after calls).slots[group]? = some (calls.foldl (Call.onSlot group) slot) := by
  induction calls generalizing h slot with
  | nil => exact hslot
  | cons call calls ih => exact ih (h₀.run call) (h₀.getElem?_run call hslot)

/-- A holder that keeps its slots and its maximum, whatever calls are made on
it. -/
structure Steady (maximum : Nat) (initial : Accumulator) (start : GroupHolder) : Prop where
  sized : ∀ calls, Sized maximum initial (start.after calls)
  /-- A slot that is there is from then on what the changes of its group make of it. -/
  kept : ∀ front back (group : Nat) (slot : GroupSlot),
    (start.after front).slots[group]? = some slot →
    (start.after (front ++ back)).slots[group]? = some (back.foldl (Call.onSlot group) slot)
  /-- A slot that a call adds is fresh. -/
  added : ∀ front call (group : Nat) (slot : GroupSlot),
    (start.after front).slots[group]? = none →
    (start.after (front ++ [call])).slots[group]? = some slot → slot = .fresh initial
  /-- Room that can be allocated is made within the maximum, by fresh slots
  behind those that are there. -/
  ensure_ok : ∀ calls, ∀ wanted ≤ maximum,
    ((start.after calls).capacity < wanted →
      (start.after calls).grownBytes wanted ≤ Number.maxAllocation) → ∃ grown added,
    (start.after calls).ensure wanted = .ok grown ∧ wanted ≤ grown.capacity ∧
      grown.slots = (start.after calls).slots ++ List.replicate added (GroupSlot.fresh initial)
  ensure_error : ∀ calls wanted, maximum < wanted →
    (start.after calls).ensure wanted = .error (.groupCapacity wanted maximum)

/-- **A new holder is steady.** -/
theorem steady_new (capacity maximum : Nat) (initial : Accumulator) :
    Steady maximum initial (new capacity maximum initial) := by
  have hsized := fun calls => (sized_new capacity maximum initial).after calls
  exact {
    sized := hsized
    kept := fun front back group slot hslot => by
      rw [after_append]
      exact (hsized front).getElem?_after back hslot
    added := fun front call group slot hnone hslot => by
      rw [after_append] at hslot
      exact (hsized front).eq_fresh_of_run hnone hslot
    ensure_ok := fun calls wanted hwanted hbytes => (hsized calls).ensure hwanted hbytes
    ensure_error := fun calls wanted hwanted => (hsized calls).ensure_beyond hwanted }

end GroupHolder

end SegmentQuery
