import SegmentQuery.Proofs.Aggregate.Effects
import SegmentQuery.Proofs.Lockstep
/-!
# Holders that show the same

How much room a holder has beyond the groups in use makes no difference to
anybody: two holders that show the same slots take in blocks in lockstep,
and what is extracted from them is the same. While the numbers of the
groups are within the room of a holder, no group is outside of it.
-/


namespace SegmentQuery

open SegmentQuery.Except (FailsOnly failsOnly_ok failsOnly_error Lockstep)

/-- Whether an error says that a group holder lacks room. -/
def QueryError.isGroupRoom : QueryError → Bool
  | .groupCapacity .. | .groupKeyOutside .. => true
  | _ => false

/-! ## Errors of other kinds -/

section

variable {P : QueryError → Prop} (hother : ∀ e : QueryError, e.isGroupRoom = false → P e)

include hother

theorem Decimal.failsOnly_ofText (text : String) : FailsOnly P (Decimal.ofText text) :=
  FailsOnly.mapError (fun _ => hother _ rfl) _

theorem Decimal.failsOnly_ofDouble (v : Double) : FailsOnly P (Decimal.ofDouble v) := by
  unfold Decimal.ofDouble
  split
  · exact failsOnly_ofText hother _
  · exact failsOnly_error (hother _ rfl)

theorem Decimal.failsOnly_ofBytes (bytes : List UInt8) : FailsOnly P (Decimal.ofBytes bytes) := by
  unfold Decimal.ofBytes
  split
  · split
    · exact failsOnly_error (hother _ rfl)
    · dsimp only
      split
      · exact failsOnly_error (hother _ rfl)
      · exact FailsOnly.mapError (fun _ => hother _ rfl) _
  · exact failsOnly_error (hother _ rfl)

namespace Column

theorem failsOnly_decimalAt (c : Column) (nullHandling : Bool) (position : Nat) :
    FailsOnly P (c.decimalAt nullHandling position) := by
  obtain ⟨values, nulls⟩ := c
  cases values with
  | multi t vs => exact failsOnly_error (hother _ rfl)
  | single t vs =>
    cases t with
    | int | long | bigDecimal => exact failsOnly_ok _
    | float | double =>
      simp only [decimalAt]
      split
      · exact failsOnly_ok _
      · split
        · exact failsOnly_ok _
        · exact (Decimal.failsOnly_ofDouble hother _).map _
    | string =>
      simp only [decimalAt]
      split
      · exact failsOnly_ok _
      · exact (Decimal.failsOnly_ofText hother _).map _
    | bytes =>
      simp only [decimalAt]
      split
      · exact failsOnly_ok _
      · exact (Decimal.failsOnly_ofBytes hother _).map _

theorem failsOnly_decimals (c : Column) (nullHandling : Bool) (length : Nat) :
    FailsOnly P (c.decimals nullHandling length) := by
  refine FailsOnly.mapM fun position _ => ?_
  split
  · exact failsOnly_ok _
  · exact failsOnly_decimalAt hother c nullHandling position

theorem failsOnly_markedDoubles (c : Column) : FailsOnly P c.markedDoubles := by
  have hnumeric : FailsOnly P c.numeric := by
    unfold numeric
    split
    all_goals first
      | exact failsOnly_ok _
      | exact failsOnly_error (hother _ rfl)
  exact (hnumeric.map _).map _

end Column

theorem AggregateFunction.failsOnly_requireInput (f : AggregateFunction) (input : Option Column) :
    FailsOnly P (f.requireInput input) := by
  cases input with
  | none => exact failsOnly_error (hother _ rfl)
  | some c => exact failsOnly_ok c

theorem GroupSlot.failsOnly_foldDecimal (item : Decimal) (s : GroupSlot) :
    FailsOnly P (s.foldDecimal item) := by
  unfold GroupSlot.foldDecimal
  split
  · exact failsOnly_ok _
  · exact failsOnly_error (hother _ rfl)

end

/-- What is present in a column is some of what is there. -/
theorem Column.mem_of_mem_present {α : Type} {nulls : Option DocSet} {length : Nat} {vs : List α}
    {v : α} (h : v ∈ present nulls length vs) : v ∈ vs := by
  obtain ⟨p, hp, rfl⟩ := List.mem_map.1 h
  exact List.mem_of_mem_take (List.fst_mem_of_mem_zipIdx (List.mem_of_mem_filter hp))

/-! ## Two holders -/

namespace GroupHolder

/-- Two holders with room for some groups, and the same limit, that show the
same slots. -/
def Alike (limit room : Nat) (h h' : GroupHolder) : Prop :=
  ∃ f view, h.Shows f limit room view ∧ h'.Shows f limit room view

variable {P : QueryError → Prop} {limit room : Nat} {h h' : GroupHolder}

/-- New holders are alike, whatever room they begin with. -/
theorem alike_new (f : AggregateFunction) (capacity capacity' limit : Nat) :
    Alike limit 0 (f.groupHolder capacity limit) (f.groupHolder capacity' limit) :=
  ⟨f, _, shows_new f capacity limit, shows_new f capacity' limit⟩

/-- **Both make room** within the limit and for what 32 bits number. -/
theorem Alike.ensure (halike : Alike limit room h h') {wanted : Nat} (hwanted : wanted ≤ limit)
    (hbits : wanted ≤ Number.bound32) :
    ∃ grown grown', h.ensure wanted = .ok grown ∧ h'.ensure wanted = .ok grown' ∧
      Alike limit wanted grown grown' := by
  obtain ⟨f, view, hshows, hshows'⟩ := halike
  obtain ⟨grown, hgrown, hgrows⟩ := hshows.ensure hwanted hbits
  obtain ⟨grown', hgrown', hgrows'⟩ := hshows'.ensure hwanted hbits
  exact ⟨grown, grown', hgrown, hgrown', f, view, hgrows, hgrows'⟩

/-- Both have the slot of a group within their room. -/
theorem Alike.slot (halike : Alike limit room h h') {number : Nat} (hnumber : number < room) :
    ∃ slot, h.slot number = .ok slot ∧ h'.slot number = .ok slot := by
  obtain ⟨f, view, hshows, hshows'⟩ := halike
  exact ⟨view number, hshows.slot hnumber, hshows'.slot hnumber⟩

/-- **One group's update** goes through on both or fails on both. -/
theorem Alike.update (halike : Alike limit room h h') {number : Nat} (hnumber : number < room)
    {fold : GroupSlot → Except QueryError GroupSlot} (hfold : ∀ s, FailsOnly P (fold s)) :
    Lockstep P (Alike limit room) (h.update fold number).toExcept
      (h'.update fold number).toExcept := by
  obtain ⟨f, view, hshows, hshows'⟩ := halike
  cases hnext : fold (view number) with
  | error e =>
    have hfails {h : GroupHolder} (hshows : h.Shows f limit room view) :
        (h.update fold number).toExcept = .error e := by
      rw [GroupHolder.update, Progress.toExcept_ofExcept, hshows.slot hnumber]
      simp only [bind, Except.bind, hnext]
    rw [hfails hshows, hfails hshows']
    exact .error (hfold _ e hnext)
  | ok next =>
    have hchange : change fold view number = .ok (Function.update view number next) := by
      rw [change, hnext]
      rfl
    obtain ⟨changed, hchanged, hshown⟩ := (hshows.update hnumber fold).exists_ok hchange
    obtain ⟨changed', hchanged', hshown'⟩ := (hshows'.update hnumber fold).exists_ok hchange
    rw [hchanged, hchanged']
    exact .ok ⟨f, _, hshown, hshown'⟩

/-- **Positions are folded in lockstep** while their groups are within the
room. -/
theorem Alike.foldPositions {α : Type} {fold : α → GroupSlot → Except QueryError GroupSlot}
    (hfold : ∀ a s, FailsOnly P (fold a s)) {positions : List (List Nat × α)}
    (hgroups : ∀ p ∈ positions, ∀ g ∈ p.1, g < room) (halike : Alike limit room h h') :
    Lockstep P (Alike limit room) (h.foldPositions fold positions).toExcept
      (h'.foldPositions fold positions).toExcept := by
  rw [GroupHolder.foldPositions, GroupHolder.foldPositions, Progress.toExcept_foldl,
    Progress.toExcept_foldl]
  refine Except.lockstep_foldlM halike fun h h' halike p hp => ?_
  rw [Progress.toExcept_foldl, Progress.toExcept_foldl]
  exact Except.lockstep_foldlM halike fun h h' halike g hg =>
    halike.update (hgroups p hp g hg) (hfold p.2)

/-- **An update that reads something and then folds it** goes in
lockstep. -/
theorem Alike.foldRead {α β : Type} {run : GroupHolder → Progress QueryError GroupHolder}
    {read : Except QueryError β} (hread : FailsOnly P read)
    (herror : ∀ e, read = .error e → ∀ h, run h = .stopped h e)
    {fold : α → GroupSlot → Except QueryError GroupSlot} (hfold : ∀ a s, FailsOnly P (fold a s))
    (positions : β → List (List Nat × α))
    (hok : ∀ items, read = .ok items → ∀ h, run h = h.foldPositions fold (positions items))
    (hgroups : ∀ items, ∀ p ∈ positions items, ∀ g ∈ p.1, g < room)
    (halike : Alike limit room h h') :
    Lockstep P (Alike limit room) (run h).toExcept (run h').toExcept := by
  cases hitems : read with
  | error e =>
    rw [herror e hitems, herror e hitems]
    exact .error (hread e hitems)
  | ok items =>
    rw [hok items hitems, hok items hitems]
    exact halike.foldPositions hfold (hgroups items)

end GroupHolder

/-! ## Functions on two holders -/

namespace AggregateFunction

open GroupHolder

variable {P : QueryError → Prop} {limit room : Nat} {h h' : GroupHolder}

/-- **A function folds a block into both** in lockstep while the numbers of
the groups are within the room. -/
theorem lockstep_aggregateGroups (hother : ∀ e : QueryError, e.isGroupRoom = false → P e)
    (f : AggregateFunction) (length : Nat) {groups : List (List Nat)}
    (hgroups : ∀ gs ∈ groups, ∀ g ∈ gs, g < room) (input : Option Column)
    (halike : Alike limit room h h') :
    Lockstep P (Alike limit room) (f.aggregateGroups length groups input h).toExcept
      (f.aggregateGroups length groups input h').toExcept := by
  have hinput := failsOnly_requireInput hother f input
  have hdoubles : FailsOnly P (do (← f.requireInput input).markedDoubles) :=
    hinput.bind (Column.failsOnly_markedDoubles hother)
  have htaken (items : List (Double × Bool)) : ∀ p ∈ (groups.zip items).take length, ∀ g ∈ p.1,
      g < room := fun p hp => hgroups _ (List.of_mem_zip (List.mem_of_mem_take hp)).1
  cases f with
  | min column =>
    exact halike.foldRead hdoubles (fun e he h => by simp only [aggregateGroups, he])
      (fun item s => failsOnly_ok (GroupSlot.foldMin item s)) _
      (fun items hitems h => by simp only [aggregateGroups, hitems]) htaken
  | max column =>
    exact halike.foldRead hdoubles (fun e he h => by simp only [aggregateGroups, he])
      (fun item s => failsOnly_ok (GroupSlot.foldMax item s)) _
      (fun items hitems h => by simp only [aggregateGroups, hitems]) htaken
  | sum column =>
    exact halike.foldRead hdoubles (fun e he h => by simp only [aggregateGroups, he])
      (fun item s => failsOnly_ok (GroupSlot.foldSum item s)) _
      (fun items hitems h => by simp only [aggregateGroups, hitems]) htaken
  | sumPrecision column precision scale nullHandling =>
    refine halike.foldRead
      (hinput.bind fun c => Column.failsOnly_decimals hother c nullHandling length)
      (fun e he h => by simp only [aggregateGroups, he]) (GroupSlot.failsOnly_foldDecimal hother) _
      (fun items hitems h => by simp only [aggregateGroups, hitems]; rfl) ?_
    intro items p hp
    obtain ⟨q, hq, hp⟩ := List.mem_filterMap.1 hp
    obtain ⟨d, -, rfl⟩ := Option.map_eq_some_iff.1 hp
    exact hgroups _ (List.of_mem_zip hq).1
  | count column =>
    refine halike.foldPositions (fun _ _ => failsOnly_ok _) fun p hp => ?_
    obtain ⟨gs, hgs, rfl⟩ := List.mem_map.1 hp
    refine hgroups gs ?_
    cases input with
    | none => exact List.mem_of_mem_take hgs
    | some c => exact Column.mem_of_mem_present hgs

/-- What is extracted from both is the same. -/
theorem exists_extractGroup (f : AggregateFunction) (halike : Alike limit room h h') {group : Nat}
    (hgroup : group < room) :
    ∃ cell, f.extractGroup h group = .ok cell ∧ f.extractGroup h' group = .ok cell := by
  obtain ⟨slot, hslot, hslot'⟩ := halike.slot hgroup
  exact ⟨f.extractSlot slot, congrArg (·.map f.extractSlot) hslot,
    congrArg (·.map f.extractSlot) hslot'⟩

end AggregateFunction

end SegmentQuery
