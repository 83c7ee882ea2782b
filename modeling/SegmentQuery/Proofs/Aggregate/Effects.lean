import SegmentQuery.Proofs.Aggregate.Slots
/-!
# What a document does to its groups

A function folds a block into its holder document by document. Each
document changes the slots of the groups that it belongs to, and how
depends on nothing but the function's column. After a block a holder
therefore shows what the documents make one after the other, and the
block fails exactly when one of its documents cannot be taken in.
-/


namespace SegmentQuery

/-! ## What a holder shows -/

namespace GroupHolder

/-- A function's holder shows a slot under every number: the one that it
stores, or a fresh one past its room. -/
structure Shows (f : AggregateFunction) (limit room : Nat) (h : GroupHolder)
    (view : Nat → GroupSlot) : Prop where
  initial_eq : h.initial = f.initial
  maxCapacity_eq : h.maxCapacity = limit
  room_le : room ≤ h.capacity
  slot_eq : ∀ number, h.slots[number]?.getD (.fresh f.initial) = view number

variable {f : AggregateFunction} {limit room : Nat} {h : GroupHolder} {view : Nat → GroupSlot}

/-- A new holder shows fresh slots. -/
theorem shows_new (f : AggregateFunction) (capacity limit : Nat) :
    (f.groupHolder capacity limit).Shows f limit 0 fun _ => .fresh f.initial where
  initial_eq := rfl
  maxCapacity_eq := rfl
  room_le := Nat.zero_le _
  slot_eq number := by
    cases hslot : (f.groupHolder capacity limit).slots[number]? with
    | none => rfl
    | some slot => exact List.eq_of_mem_replicate (List.mem_of_getElem? hslot)

/-- **Growing changes nothing that is shown.** -/
theorem Shows.grown {grown : GroupHolder} {wanted : Nat} (hshows : h.Shows f limit room view)
    (hgrown : GrownFrom wanted h grown) : grown.Shows f limit wanted view := by
  obtain ⟨hinitial, hmax, -, hslot⟩ := hshows
  obtain ⟨hinitial', hmax', hroom, -, added, hslots⟩ := hgrown
  refine ⟨hinitial'.trans hinitial, hmax'.trans hmax, hroom, fun number => ?_⟩
  rw [hslots, ← hslot number, List.getElem?_append]
  split
  · rfl
  · -- a number past the old room showed a fresh slot, and has one now
    rename_i hold
    rw [List.getElem?_eq_none (Nat.le_of_not_lt hold), List.getElem?_replicate, hinitial]
    split <;> rfl

/-- Room is made for as many groups as the limit allows and 32 bits
number. -/
theorem Shows.ensure (hshows : h.Shows f limit room view) {wanted : Nat} (hwanted : wanted ≤ limit)
    (hbits : wanted ≤ Number.bound32) :
    ∃ grown, h.ensure wanted = .ok grown ∧ grown.Shows f limit wanted view := by
  obtain ⟨grown, hgrown⟩ := exists_ensure (hwanted.trans hshows.maxCapacity_eq.ge)
    (grownBytes_le hbits)
  exact ⟨grown, hgrown, hshows.grown (grownFrom_of_ensure hgrown)⟩

/-- A number within the room has the slot that is shown. -/
theorem Shows.slot (hshows : h.Shows f limit room view) {number : Nat} (hnumber : number < room) :
    h.slot number = .ok (view number) := by
  have hlt : number < h.slots.length := Nat.lt_of_lt_of_le hnumber hshows.room_le
  have hget := hshows.slot_eq number
  rw [List.getElem?_eq_getElem hlt, Option.getD_some] at hget
  rw [GroupHolder.slot, List.getElem?_eq_getElem hlt, hget]

/-- Change what is shown under one number. -/
def change (fold : GroupSlot → Except QueryError GroupSlot) (view : Nat → GroupSlot)
    (number : Nat) : Except QueryError (Nat → GroupSlot) :=
  (fold (view number)).map (Function.update view number)

/-- **One group's update** changes what is shown under its number. -/
theorem Shows.update (hshows : h.Shows f limit room view) {number : Nat} (hnumber : number < room)
    (fold : GroupSlot → Except QueryError GroupSlot) :
    Except.Agree (GroupHolder.Shows f limit room) (h.update fold number).toExcept
      (change fold view number) := by
  have hlt : number < h.slots.length := Nat.lt_of_lt_of_le hnumber hshows.room_le
  rw [GroupHolder.update, Progress.toExcept_ofExcept, hshows.slot hnumber, change]
  cases hfold : fold (view number) with
  | error e =>
    simp only [bind, Except.bind, hfold]
    exact .error
  | ok next =>
    simp only [bind, Except.bind, hfold]
    refine .ok ⟨hshows.initial_eq, hshows.maxCapacity_eq, ?_, fun i => ?_⟩
    · rw [capacity, List.length_set]
      exact hshows.room_le
    · rw [List.getElem?_set, Function.update_apply]
      by_cases hi : number = i
      · subst hi
        rw [if_pos rfl, if_pos hlt, if_pos rfl, Option.getD_some]
      · rw [if_neg hi, if_neg (Ne.symm hi)]
        exact hshows.slot_eq i

/-- What does not change a slot changes nothing that is shown. -/
theorem foldlM_change_ok (groups : List Nat) (view : Nat → GroupSlot) :
    groups.foldlM (change .ok) view = .ok view := by
  induction groups with
  | nil => rfl
  | cons g groups ih =>
    rw [List.foldlM_cons, change, Except.map, Function.update_eq_self]
    exact ih

/-- **Positions that are folded** change what is shown for their groups,
one after the other. Where there is no item for a position it is passed
by. -/
theorem Shows.foldPositions {α β : Type} (fold : α → GroupSlot → Except QueryError GroupSlot)
    (groups : β → List Nat) (item : β → Option α) {positions : List β}
    (hshows : h.Shows f limit room view) (hgroups : ∀ p ∈ positions, ∀ g ∈ groups p, g < room) :
    Except.Agree (GroupHolder.Shows f limit room)
      (h.foldPositions fold (positions.filterMap fun p =>
        (item p).map fun a => (groups p, a))).toExcept
      (positions.foldlM (fun view p => (groups p).foldlM (change ((item p).elim .ok fold)) view)
        view) := by
  induction positions generalizing h view with
  | nil => exact .ok hshows
  | cons p positions ih =>
    obtain ⟨hp, hgroups⟩ := List.forall_mem_cons.1 hgroups
    rw [List.filterMap_cons, List.foldlM_cons]
    cases item p with
    | none =>
      rw [Option.elim_none, foldlM_change_ok]
      exact ih hshows hgroups
    | some a =>
      rw [Option.map_some, Option.elim_some, GroupHolder.foldPositions, Progress.toExcept_foldl,
        List.foldlM_cons]
      refine Except.Agree.bind (R := GroupHolder.Shows f limit room) ?_ fun h view hshows => ?_
      · rw [Progress.toExcept_foldl]
        exact Except.agree_foldlM hshows fun h view hshows g hg => hshows.update (hp g hg) _
      · have hrest := ih hshows hgroups
        rwa [GroupHolder.foldPositions, Progress.toExcept_foldl] at hrest

end GroupHolder

/-! ## Columns of a block -/

namespace Column

variable {c : Column} {documents : List Nat}

/-- A document's double, and whether the document is null. -/
def markedAt (c : Column) (d : Nat) : Double × Bool :=
  ((c.doubles.toOption.bind (·[d]?)).getD Double.zero, c.isNull d)

/-- What a document adds to a decimal sum, if anything. -/
def addend (c : Column) (nullHandling : Bool) (d : Nat) : Except QueryError (Option Decimal) :=
  if nullHandling && c.isNull d then .ok none else c.decimalAt nullHandling d

/-- A copy holds numbers exactly where the column does. -/
theorem doubles_select (c : Column) (documents : List Nat) :
    Except.Agree (fun copied vs => copied = documents.filterMap (vs[·]?) ∧ c.length = vs.length)
      (c.select documents).doubles c.doubles := by
  have hmap {α : Type} (toDouble : α → Double) (vs : List α) :
      (documents.filterMap (vs[·]?)).map toDouble =
        documents.filterMap ((vs.map toDouble)[·]?) := by
    rw [List.map_filterMap]
    exact List.filterMap_congr fun d _ => (List.getElem?_map ..).symm
  obtain ⟨values, nulls⟩ := c
  cases values with
  | multi t vs => exact .error
  | single t vs =>
    cases t with
    | string | bytes => exact .error
    | double => exact .ok ⟨rfl, rfl⟩
    | int | long | float | bigDecimal => exact .ok ⟨hmap _ vs, (List.length_map _).symm⟩

/-- A copy's documents, within the column and no more than a null set has
numbers for. -/
structure Copies (c : Column) (documents : List Nat) : Prop where
  lt_length : ∀ d ∈ documents, d < c.length
  few : documents.length ≤ Number.bound32

variable (hcopies : c.Copies documents)

include hcopies

theorem Copies.length_select : (c.select documents).length = documents.length :=
  ColumnValues.length_select hcopies.lt_length

theorem Copies.isNull_select {i d : Nat} (hget : documents[i]? = some d) :
    (c.select documents).isNull i = c.isNull d := by
  obtain ⟨hi, rfl⟩ := List.getElem?_eq_some_iff.1 hget
  exact Column.isNull_select hcopies.few hi

/-- **The doubles of a copy** are those of its documents. -/
theorem Copies.markedDoubles {vs : List Double} (h : c.doubles = .ok vs) :
    (c.select documents).markedDoubles = .ok (documents.map c.markedAt) := by
  obtain ⟨copied, hcopied, rfl, hlength⟩ := (c.doubles_select documents).exists_ok h
  have hlt : ∀ d ∈ documents, d < vs.length := hlength ▸ hcopies.lt_length
  rw [Column.markedDoubles, hcopied]
  refine congrArg Except.ok (List.ext_getElem? fun i => ?_)
  rw [List.getElem?_map, List.getElem?_zipIdx, List.getElem?_map]
  cases hget : documents[i]? with
  | none =>
    have hnone : (documents.filterMap (vs[·]?))[i]? = none := by
      rw [List.getElem?_eq_none_iff] at hget ⊢
      exact Nat.le_trans (List.length_filterMap_le ..) hget
    rw [hnone]
    rfl
  | some d =>
    have hnull := hcopies.isNull_select hget
    obtain ⟨hi, rfl⟩ := List.getElem?_eq_some_iff.1 hget
    have hd := hlt _ (List.getElem_mem hi)
    rw [Column.getElem?_filterMap_getElem? hlt hi, List.getElem?_eq_getElem hd]
    simp [markedAt, h, Except.toOption, List.getElem?_eq_getElem hd, hnull]

/-- A copy's decimal is that of the document. -/
theorem Copies.decimalAt {i d : Nat} (hget : documents[i]? = some d) (nullHandling : Bool) :
    (c.select documents).decimalAt nullHandling i = c.decimalAt nullHandling d := by
  obtain ⟨hi, rfl⟩ := List.getElem?_eq_some_iff.1 hget
  have hlt := hcopies.lt_length
  obtain ⟨values, nulls⟩ := c
  cases values with
  | multi t vs => rfl
  | single t vs =>
    have hvalue : (documents.filterMap (vs[·]?))[i]? = vs[documents[i]]? :=
      Column.getElem?_filterMap_getElem? hlt hi
    cases t <;> simp only [Column.decimalAt, select, ColumnValues.select, hvalue]

/-- **The decimals of a copy** are what its documents add. -/
theorem Copies.decimals (nullHandling : Bool) :
    (c.select documents).decimals nullHandling documents.length =
      documents.mapM (c.addend nullHandling) := by
  have hreach : (c.select documents).reach documents.length = documents.length := by
    rw [reach, hcopies.length_select, Nat.min_self]
  rw [Column.decimals, hreach]
  refine Except.mapM_range fun i d hget => ?_
  rw [hcopies.isNull_select hget, hcopies.decimalAt hget, addend]

omit hcopies in
/-- **The positions of a copy that are not null** are those of documents
that are not. -/
theorem Copies.present {α β : Type} {items : List α} {document : α → Nat}
    (hcopies : c.Copies (items.map document)) (g : α → β) :
    Column.present (c.select (items.map document)).nulls
        ((c.select (items.map document)).reach items.length) (items.map g) =
      (items.filter fun x => !c.isNull (document x)).map g := by
  have hreach : (c.select (items.map document)).reach items.length = items.length := by
    rw [reach, hcopies.length_select, List.length_map, Nat.min_self]
  rw [hreach]
  refine Column.present_map fun i hi => hcopies.isNull_select ?_
  rw [List.getElem?_map, List.getElem?_eq_getElem hi, Option.map_some]

end Column

/-! ## Effects -/

namespace AggregateFunction

open GroupHolder

/-- What a document of a column does to the slot of a group that it
belongs to. -/
def effect (f : AggregateFunction) (input : Option Column) (d : Nat) :
    Except QueryError (GroupSlot → Except QueryError GroupSlot) :=
  match f with
  | .min _ => do
    let c ← f.requireInput input
    return fun s => .ok (s.foldMin (c.markedAt d))
  | .max _ => do
    let c ← f.requireInput input
    return fun s => .ok (s.foldMax (c.markedAt d))
  | .sum _ => do
    let c ← f.requireInput input
    return fun s => .ok (s.foldSum (c.markedAt d))
  | .sumPrecision _ _ _ nullHandling => do
    let c ← f.requireInput input
    return (← c.addend nullHandling d).elim .ok GroupSlot.foldDecimal
  | .count _ =>
    if input.any (·.isNull d) then .ok .ok else .ok fun s => .ok s.foldCount

/-- Take one document in: it changes what is shown for its groups. -/
def absorb (f : AggregateFunction) (input : Option Column) (view : Nat → GroupSlot)
    (p : Nat × List Nat) : Except QueryError (Nat → GroupSlot) :=
  f.effect input p.1 >>= fun fold => p.2.foldlM (change fold) view

/-- A function can read a column at all: it has one if it needs one, and
numbers where it folds doubles. -/
def Accepts (input : Option Column) : AggregateFunction → Prop
  | .min _ | .max _ | .sum _ => ∃ c vs, input = some c ∧ c.doubles = .ok vs
  | .sumPrecision .. => input.isSome
  | .count _ => True

variable {f : AggregateFunction} {input : Option Column} {limit room : Nat} {h : GroupHolder}
variable {view : Nat → GroupSlot} {pairs : List (Nat × List Nat)}

/-- **Doubles that are folded** are taken in document by document. -/
theorem agree_foldDoubles {fold : Double × Bool → GroupSlot → GroupSlot} {c : Column}
    {vs : List Double} (hvs : c.doubles = .ok vs) (hcopies : c.Copies (pairs.map Prod.fst))
    (hgroups : ∀ p ∈ pairs, ∀ g ∈ p.2, g < room) (hshows : h.Shows f limit room view) :
    Except.Agree (GroupHolder.Shows f limit room)
      (match (c.select (pairs.map Prod.fst)).markedDoubles with
        | .error e => Progress.stopped h e
        | .ok items => h.foldPositions (fun item s => .ok (fold item s))
          (((pairs.map Prod.snd).zip items).take pairs.length)).toExcept
      (pairs.foldlM (fun view p => p.2.foldlM (change fun s => .ok (fold (c.markedAt p.1) s)) view)
        view) := by
  have hpositions : ((pairs.map Prod.snd).zip ((pairs.map Prod.fst).map c.markedAt)).take
      pairs.length = pairs.filterMap fun p => (some (c.markedAt p.1)).map fun a => (p.2, a) := by
    rw [List.map_map, List.zip_map', List.take_of_length_le (by simp), ← List.filterMap_eq_map]
    rfl
  rw [hcopies.markedDoubles hvs]
  dsimp only
  rw [hpositions]
  exact hshows.foldPositions (fun item s => .ok (fold item s)) Prod.snd
    (fun p => some (c.markedAt p.1)) hgroups

/-- **Decimals that are folded** are taken in document by document, though
all are read before the first is added. -/
theorem agree_foldDecimals {nullHandling : Bool} {c : Column}
    (hcopies : c.Copies (pairs.map Prod.fst)) (hgroups : ∀ p ∈ pairs, ∀ g ∈ p.2, g < room)
    (hshows : h.Shows f limit room view) :
    Except.Agree (GroupHolder.Shows f limit room)
      (match (c.select (pairs.map Prod.fst)).decimals nullHandling pairs.length with
        | .error e => Progress.stopped h e
        | .ok ds => h.foldPositions GroupSlot.foldDecimal
          (((pairs.map Prod.snd).zip ds).filterMap fun (p : List Nat × Option Decimal) =>
            p.2.map fun d => (p.1, d))).toExcept
      (pairs.foldlM (fun view p => c.addend nullHandling p.1 >>= fun d =>
        p.2.foldlM (change (d.elim .ok GroupSlot.foldDecimal)) view) view) := by
  have hdecimals : (c.select (pairs.map Prod.fst)).decimals nullHandling pairs.length =
      pairs.mapM fun p => c.addend nullHandling p.1 := by
    have hall := hcopies.decimals nullHandling
    rwa [List.length_map, List.mapM_map] at hall
  refine Except.Agree.trans_eq ?_ (Except.agree_mapM_foldlM
    (fun p : Nat × List Nat => c.addend nullHandling p.1)
    (fun view p => p.1.2.foldlM (change (p.2.elim .ok GroupSlot.foldDecimal)) view) pairs view)
  rw [hdecimals]
  cases hds : pairs.mapM fun p => c.addend nullHandling p.1 with
  | error e => exact .error
  | ok ds =>
    have hpositions : ((pairs.map Prod.snd).zip ds).filterMap
        (fun (p : List Nat × Option Decimal) => p.2.map fun d => (p.1, d)) =
        (pairs.zip ds).filterMap fun p => p.2.map fun d => (p.1.2, d) := by
      rw [List.zip_map_left, List.filterMap_map]
      rfl
    have hall : ∀ p ∈ pairs.zip ds, ∀ g ∈ p.1.2, g < room :=
      fun p hp => hgroups p.1 (List.of_mem_zip hp).1
    dsimp only
    rw [hpositions]
    exact hshows.foldPositions GroupSlot.foldDecimal
      (fun p : (Nat × List Nat) × Option Decimal => p.1.2) (fun p => p.2) hall

/-- **Documents that are counted** are taken in one by one; those that are
null are passed by. -/
theorem agree_foldCounts {column : Option String}
    (hcopies : ∀ c, input = some c → c.Copies (pairs.map Prod.fst))
    (hgroups : ∀ p ∈ pairs, ∀ g ∈ p.2, g < room) (hshows : h.Shows f limit room view) :
    Except.Agree (GroupHolder.Shows f limit room)
      ((AggregateFunction.count column).aggregateGroups pairs.length (pairs.map Prod.snd)
        (input.map (·.select (pairs.map Prod.fst))) h).toExcept
      (pairs.foldlM ((AggregateFunction.count column).absorb input) view) := by
  have hfold := hshows.foldPositions (fun _ s => .ok s.foldCount) Prod.snd
    (fun p : Nat × List Nat => if input.any (·.isNull p.1) then none else some ()) hgroups
  have habsorb : (AggregateFunction.count column).absorb input = fun view p =>
      p.2.foldlM (change ((if input.any (·.isNull p.1) then none else some ()).elim .ok
        fun _ s => .ok s.foldCount)) view := by
    funext view p
    rw [absorb, effect]
    split <;> rfl
  rw [habsorb]
  cases input with
  | none =>
    have hpositions : ((pairs.map Prod.snd).take pairs.length).map (fun gs => (gs, ())) =
        pairs.filterMap fun p => (some ()).map fun a => (p.2, a) := by
      rw [List.take_of_length_le (by simp), List.map_map, ← List.filterMap_eq_map]
      rfl
    rw [Option.map_none, aggregateGroups, hpositions]
    exact hfold
  | some c =>
    have hpositions : (Column.present (c.select (pairs.map Prod.fst)).nulls
          ((c.select (pairs.map Prod.fst)).reach pairs.length) (pairs.map Prod.snd)).map
            (fun gs => (gs, ())) =
        pairs.filterMap fun p =>
          (if c.isNull p.1 then none else some ()).map fun a => (p.2, a) := by
      rw [(hcopies c rfl).present, List.map_map, ← List.filterMap_eq_map, List.filterMap_filter]
      refine List.filterMap_congr fun p _ => ?_
      cases c.isNull p.1 <;> simp
    rw [Option.map_some, aggregateGroups, hpositions]
    exact hfold

/-- **A block that is folded into a holder** is taken in document by
document. -/
theorem agree_aggregateGroups (haccepts : f.Accepts input)
    (hcopies : ∀ c, input = some c → c.Copies (pairs.map Prod.fst))
    (hgroups : ∀ p ∈ pairs, ∀ g ∈ p.2, g < room) (hshows : h.Shows f limit room view) :
    Except.Agree (GroupHolder.Shows f limit room)
      (f.aggregateGroups pairs.length (pairs.map Prod.snd)
        (input.map (·.select (pairs.map Prod.fst))) h).toExcept
      (pairs.foldlM (f.absorb input) view) := by
  cases f with
  | min column =>
    obtain ⟨c, vs, rfl, hvs⟩ := haccepts
    exact agree_foldDoubles hvs (hcopies c rfl) hgroups hshows
  | max column =>
    obtain ⟨c, vs, rfl, hvs⟩ := haccepts
    exact agree_foldDoubles hvs (hcopies c rfl) hgroups hshows
  | sum column =>
    obtain ⟨c, vs, rfl, hvs⟩ := haccepts
    exact agree_foldDoubles hvs (hcopies c rfl) hgroups hshows
  | sumPrecision column precision scale nullHandling =>
    obtain ⟨c, rfl⟩ := Option.isSome_iff_exists.1 haccepts
    have habsorb : (AggregateFunction.sumPrecision column precision scale nullHandling).absorb
        (some c) = fun view p => c.addend nullHandling p.1 >>= fun d =>
          p.2.foldlM (change (d.elim .ok GroupSlot.foldDecimal)) view := by
      funext view p
      show ((c.addend nullHandling p.1 >>= fun d => .ok (d.elim .ok GroupSlot.foldDecimal)) >>=
        fun fold => p.2.foldlM (change fold) view) = _
      cases c.addend nullHandling p.1 <;> rfl
    rw [habsorb]
    exact agree_foldDecimals (hcopies c rfl) hgroups hshows
  | count column =>
    exact agree_foldCounts hcopies hgroups hshows

/-- **A function that folds a block accepts its column**, whatever the
documents of the block are. -/
theorem accepts_of_aggregateGroups {length : Nat} {groups : List (List Nat)} {documents : List Nat}
    {folded : GroupHolder}
    (hok : (f.aggregateGroups length groups (input.map fun c => c.select documents) h).toExcept =
      .ok folded) : f.Accepts input := by
  -- a fold of doubles starts by reading them
  have hdoubles {c : Column} {fold : Double × Bool → GroupSlot → GroupSlot}
      (hok : (match (c.select documents).markedDoubles with
        | .error e => Progress.stopped h e
        | .ok items => h.foldPositions (fun item s => .ok (fold item s))
          ((groups.zip items).take length)).toExcept = .ok folded) :
      ∃ c' vs, some c = some c' ∧ c'.doubles = .ok vs := by
    cases hread : (c.select documents).markedDoubles with
    | error e =>
      rw [hread] at hok
      exact nomatch hok
    | ok items =>
      obtain ⟨copied, hcopied, -⟩ := Except.map_eq_ok.1 hread
      obtain ⟨vs, hvs, -⟩ := (c.doubles_select documents).of_ok hcopied
      exact ⟨c, vs, rfl, hvs⟩
  cases input with
  | none =>
    cases f with
    | min _ | max _ | sum _ | sumPrecision _ _ _ _ => exact nomatch hok
    | count _ => trivial
  | some c =>
    cases f with
    | min _ | max _ | sum _ => exact hdoubles hok
    | sumPrecision _ _ _ _ => rfl
    | count _ => trivial

end AggregateFunction

end SegmentQuery
