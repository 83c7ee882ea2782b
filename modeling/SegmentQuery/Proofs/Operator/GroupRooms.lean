import SegmentQuery.Proofs.Aggregate.AlikeHolders
import SegmentQuery.Proofs.Aggregate.HolderCalls
import SegmentQuery.Proofs.Operator.GroupNumbers
import SegmentQuery.Proofs.Operator.Occurrences
/-!
# Room for every group

A grouping numbers no more groups than its holders may have room for, and
makes room before it folds. So no group is ever outside of a holder, and the
room that holders begin with makes no difference: whatever it is, the scans
go in lockstep, and only the number of times that holders grew may differ.
-/


namespace SegmentQuery

open SegmentQuery.Except (FailsOnly failsOnly_ok failsOnly_error Lockstep)
open GroupHolder (Alike)

variable {P : QueryError → Prop}

/-! ## Scans in lockstep -/

/-- **Scans whose steps go in lockstep** go in lockstep, through the same
documents. -/
theorem lockstep_scanPulls {σ τ : Type} {R : σ → τ → Prop}
    {step : σ → Block → Traced (Except QueryError (Visit σ))}
    {step' : τ → Block → Traced (Except QueryError (Visit τ))}
    (hstep : ∀ s t, R s t → ∀ block, Lockstep P
      (fun v w => R v.state w.state ∧ v.documents = w.documents ∧ v.finished = w.finished)
      (step s block).value (step' t block).value)
    {pulls : List (Except QueryError Block)} (hpulls : ∀ e, .error e ∈ pulls → P e) {s : σ} {t : τ}
    (hstart : R s t) :
    Lockstep P R (scanPulls step s pulls).outcome (scanPulls step' t pulls).outcome ∧
      (scanPulls step s pulls).documents = (scanPulls step' t pulls).documents := by
  induction pulls generalizing s t with
  | nil => exact ⟨.ok hstart, rfl⟩
  | cons pull rest ih =>
    obtain ⟨hpull, hrest⟩ : (∀ e, pull = .error e → P e) ∧ ∀ e, .error e ∈ rest → P e :=
      ⟨fun e he => hpulls e (he ▸ List.mem_cons_self),
        fun e he => hpulls e (List.mem_cons_of_mem _ he)⟩
    cases pull with
    | error e => exact ⟨.error (hpull e rfl), rfl⟩
    | ok block =>
      rw [scanPulls, scanPulls]
      dsimp only
      have hvisits := hstep s t hstart block
      generalize (step s block).value = visit at hvisits
      generalize (step' t block).value = visit' at hvisits
      cases hvisits with
      | error he => exact ⟨.error he, rfl⟩
      | ok hvisits =>
        obtain ⟨hstate, hdocuments, hfinished⟩ := hvisits
        obtain ⟨houtcome, hmore⟩ := ih hrest hstate
        dsimp only [ScanRun.after]
        rw [hdocuments, hfinished]
        split
        · exact ⟨.ok hstate, rfl⟩
        · exact ⟨houtcome, congrArg _ hmore⟩

/-- Operator runs whose steps go in lockstep finish so, or meet the same
error of their source. -/
theorem lockstep_scanWith {σ τ : Type} {R : σ → τ → Prop}
    {step : σ → Block → Traced (Except QueryError (Visit σ))}
    {step' : τ → Block → Traced (Except QueryError (Visit τ))} (kind : OperatorKind)
    (hstep : ∀ s t, R s t → ∀ block, Lockstep P
      (fun v w => R v.state w.state ∧ v.documents = w.documents ∧ v.finished = w.finished)
      (step s block).value (step' t block).value)
    {source : Except QueryError BlockSource} (hsource : ∀ e, source = .error e → P e)
    (hpulls : ∀ opened, source = .ok opened → ∀ e, .error e ∈ opened.pulls → P e) {s : σ} {t : τ}
    (hstart : R s t) :
    Lockstep P (fun a b => R a.state b.state ∧ a.documents = b.documents ∧ a.source = b.source)
      (scanWith kind source step s).value (scanWith kind source step' t).value := by
  cases source with
  | error e => exact .error (hsource e rfl)
  | ok opened =>
    obtain ⟨houtcome, hdocuments⟩ := lockstep_scanPulls hstep (hpulls opened rfl) hstart
    exact houtcome.map fun a b hab => ⟨hab, hdocuments, rfl⟩

/-! ## One block -/

section

variable (hother : ∀ e : QueryError, e.isGroupRoom = false → P e)

include hother

theorem RowView.failsOnly_ofColumns (columns : List Column) :
    FailsOnly P (RowView.ofColumns columns) := by
  refine (FailsOnly.mapM fun c _ => ?_).map _
  unfold CellColumn.ofColumn
  split
  · exact failsOnly_ok _
  · split
    · exact failsOnly_ok _
    · exact failsOnly_error (hother _ rfl)

theorem RowView.failsOnly_row (view : RowView) (document : Nat) :
    FailsOnly P (view.row document) := by
  refine FailsOnly.mapM fun c _ => ?_
  unfold CellColumn.cell
  split
  · exact failsOnly_ok _
  · split
    · exact failsOnly_ok _
    · exact failsOnly_error (hother _ rfl)

namespace GroupBy

theorem failsOnly_groupBlock (keyCount : Nat) (multiValue : Bool) (keys : GroupKeys)
    (block : Block) : FailsOnly P (groupBlock keyCount multiValue keys block) := by
  unfold groupBlock
  by_cases hshort : block.columns.length < keyCount
  · rw [if_pos hshort]
    exact failsOnly_error (hother _ rfl)
  · rw [if_neg hshort]
    refine (RowView.failsOnly_ofColumns hother _).bind fun view => ?_
    refine (FailsOnly.mapM fun document _ => RowView.failsOnly_row hother view document).bind
      fun rows => ?_
    cases multiValue <;> exact failsOnly_ok _

theorem failsOnly_input (block : Block) (groups : BlockGroups) (index : Option Nat) :
    FailsOnly P (input block groups index) := by
  cases groups with
  | single numbers => exact FailsOnly.mapError (fun _ => hother _ rfl) _
  | multi numbers =>
    cases index with
    | none => exact failsOnly_ok _
    | some index =>
      refine FailsOnly.map ?_ _
      unfold Block.column
      split
      · exact failsOnly_ok _
      · exact failsOnly_error (hother _ rfl)

end GroupBy

end

namespace GroupBy

variable {keyCount limit : Nat} {keys keys' : GroupKeys} {block covered : Block}
variable {groups : BlockGroups} {multiValue : Bool}

theorem count_le_count_assignElements (keys : GroupKeys) (rows : List Row) :
    keys.count ≤ (assignElements keys rows).2.count := by
  induction rows generalizing keys with
  | nil => exact Nat.le_refl _
  | cons row rest ih => exact (GroupKeys.count_le_count_assignAll keys _).trans (ih _)

/-- The numbers of elements are numbers from then on. -/
theorem lt_of_mem_assignElements {rows : List Row} :
    ∀ gs ∈ (assignElements keys rows).1, ∀ g ∈ gs, g < (assignElements keys rows).2.count := by
  induction rows generalizing keys with
  | nil => exact fun gs hgs => absurd hgs List.not_mem_nil
  | cons row rest ih =>
    intro gs hgs g hg
    rcases List.mem_cons.1 hgs with rfl | hgs
    · obtain ⟨_, hnumber, rfl⟩ := List.mem_filterMap.1 hg
      exact (GroupKeys.lt_of_assignAll hnumber).trans_le (count_le_count_assignElements _ rest)
    · exact ih gs hgs g hg

/-- **The groups of a block have numbers** from then on. -/
theorem lt_of_groupBlock
    (h : groupBlock keyCount multiValue keys block = .ok (groups, covered, keys')) :
    ∀ gs ∈ groups.toLists, ∀ g ∈ gs, g < keys'.count := by
  unfold groupBlock at h
  by_cases hshort : block.columns.length < keyCount
  · rw [if_pos hshort] at h
    exact nomatch h
  · rw [if_neg hshort] at h
    obtain ⟨view, -, h⟩ := Except.bind_eq_ok.1 h
    obtain ⟨rows, -, h⟩ := Except.bind_eq_ok.1 h
    cases multiValue with
    | true =>
      obtain ⟨rfl, -, rfl⟩ := by simpa only [Prod.mk.injEq] using Except.ok.inj h
      exact lt_of_mem_assignElements
    | false =>
      obtain ⟨rfl, -, rfl⟩ := by simpa only [Prod.mk.injEq] using Except.ok.inj h
      intro gs hgs g hg
      obtain ⟨number, hnumber, rfl⟩ := List.mem_map.1 hgs
      obtain rfl := List.mem_singleton.1 hg
      obtain ⟨kept, hkept, rfl⟩ := List.mem_map.1 hnumber
      obtain ⟨given, hgiven, hkept⟩ := List.mem_filterMap.1 hkept
      obtain ⟨n, hn, rfl⟩ := Option.map_eq_some_iff.1 hkept
      exact GroupKeys.lt_of_assignAll (hn ▸ List.fst_mem_of_mem_zipIdx hgiven)

/-! ## Two scans -/

/-- Two states of a grouping have the same keys, and holders that are alike
for all of them. -/
structure Abreast (keyCount limit : Nat) (s t : State) : Prop where
  keys_eq : s.keys = t.keys
  sound : s.keys.Sound keyCount limit
  holders : List.Forall₂ (Alike limit s.keys.count) s.holders t.holders

/-- **All holders make room** on both sides, within the limit. -/
theorem exists_ensureAll_alike {room : Nat} {hs hs' : List GroupHolder}
    (h : List.Forall₂ (Alike limit room) hs hs') {wanted : Nat} (hwanted : wanted ≤ limit)
    (hbits : wanted ≤ Number.bound32) :
    ∃ grown grown', (ensureAll wanted hs).value = .ok grown ∧
      (ensureAll wanted hs').value = .ok grown' ∧
      List.Forall₂ (Alike limit wanted) grown grown' := by
  induction h with
  | nil => exact ⟨[], [], rfl, rfl, .nil⟩
  | @cons h h' hs hs' halike _ ih =>
    obtain ⟨grown, grown', hgrown, hgrown', hroom⟩ := halike.ensure hwanted hbits
    obtain ⟨more, more', hmore, hmore', hrooms⟩ := ih
    refine ⟨grown :: more, grown' :: more', ?_, ?_, .cons hroom hrooms⟩
    · rw [ensureAll, hgrown]
      exact congrArg (·.map (grown :: ·)) hmore
    · rw [ensureAll, hgrown']
      exact congrArg (·.map (grown' :: ·)) hmore'

section

variable (hother : ∀ e : QueryError, e.isGroupRoom = false → P e)

include hother

/-- A block is folded into all holders of both sides. -/
theorem lockstep_foldBlock (columns : List String) (functions : List AggregateFunction)
    (block : Block) {room : Nat}
    (hgroups : ∀ gs ∈ groups.toLists, ∀ g ∈ gs, g < room) {hs hs' : List GroupHolder}
    (h : List.Forall₂ (Alike limit room) hs hs') :
    Lockstep P (List.Forall₂ (Alike limit room)) (foldBlock columns functions block groups hs)
      (foldBlock columns functions block groups hs') := by
  refine Except.lockstep_mapM_zip h fun f h h' halike => ?_
  refine (failsOnly_input hother block groups _).lockstep.bind fun column column' hcolumn => ?_
  subst hcolumn
  exact f.lockstep_aggregateGroups hother _ hgroups column halike

/-- **One block** leaves both sides abreast: its groups are numbered within
the limit, and room is made for all numbers before anything is folded. -/
theorem lockstep_step (hmulti : multiValue = true → keyCount = 1) (columns : List String)
    (functions : List AggregateFunction) {s t : State} (h : Abreast keyCount limit s t)
    (block : Block) :
    Lockstep P (fun v w => Abreast keyCount limit v.state w.state ∧ v.documents = w.documents ∧
        v.finished = w.finished)
      (step columns keyCount multiValue functions s block).value
      (step columns keyCount multiValue functions t block).value := by
  unfold step
  rw [← h.keys_eq]
  cases hblock : groupBlock keyCount multiValue s.keys block with
  | error e => exact .error (failsOnly_groupBlock hother _ _ _ _ e hblock)
  | ok numbered =>
    obtain ⟨groups, covered, keys⟩ := numbered
    have hsound := sound_groupBlock hmulti h.sound hblock
    obtain ⟨grown, grown', hgrown, hgrown', halike⟩ :=
      exists_ensureAll_alike h.holders hsound.count_le hsound.count_le_bound32
    dsimp only [Traced.map]
    rw [hgrown, hgrown']
    refine (lockstep_foldBlock hother columns functions covered (lt_of_groupBlock hblock)
      halike).bind fun hs hs' hfolded => ?_
    exact .ok ⟨⟨rfl, hsound, hfolded⟩, rfl, rfl⟩

end

/-- **Both make the same table.** -/
theorem lockstep_table (functions : List AggregateFunction) {s t : State}
    (h : Abreast keyCount limit s t) :
    Lockstep P (· = ·) (table functions s) (table functions t) := by
  unfold table
  rw [← h.keys_eq]
  refine Except.lockstep_foldlM rfl fun made made' hmade pair hpair => ?_
  subst hmade
  have hgroup : pair.2 < s.keys.count := List.snd_lt_of_mem_zipIdx hpair
  have hrow : Lockstep P (List.Forall₂ (· = ·)) (groupRow functions s.holders pair.2)
      (groupRow functions t.holders pair.2) :=
    Except.lockstep_mapM_zip h.holders fun f h h' halike => by
      obtain ⟨cell, hcell, hcell'⟩ := f.exists_extractGroup halike hgroup
      dsimp only
      rw [hcell, hcell']
      exact .ok rfl
  refine hrow.bind fun row row' hrows => ?_
  rw [List.forall₂_eq_eq_eq] at hrows
  exact .ok (congrArg _ hrows)

/-! ## The whole run -/

/-- The errors that a segment meets by itself: about a column that is
grouped by, when a scan is opened, or in the place of a block. -/
def Reported (segment : Segment) (groupBy : List String) (functions : List AggregateFunction)
    (nullHandling : Bool) (e : QueryError) : Prop :=
  (∃ column ∈ groupBy, segment.metadata column = .error e) ∨
    segment.scan (Aggregation.fetchedColumns groupBy functions) nullHandling = .error e ∨
    ∃ source, segment.scan (Aggregation.fetchedColumns groupBy functions) nullHandling =
      .ok source ∧ .error e ∈ source.pulls

variable {segment : Segment} {groupBy : List String} {functions : List AggregateFunction}

theorem failsOnly_schema (hother : ∀ e : QueryError, e.isGroupRoom = false → P e)
    (hmetadata : ∀ column ∈ groupBy, FailsOnly P (segment.metadata column)) :
    FailsOnly P (schema segment groupBy functions) := by
  refine (FailsOnly.mapM fun column hcolumn => ?_).bind fun keys => failsOnly_ok _
  refine (hmetadata column hcolumn).bind fun metadata => ?_
  split
  · exact failsOnly_error (hother _ rfl)
  · exact failsOnly_ok _

/-- What a grouping yields, but for how often its holders grew. -/
def withoutResizes (r : PartialResult) : PartialResult :=
  { r with stats := { r.stats with resizes := 0 } }

/-- **A grouping with other room to begin with** goes in lockstep, and runs
out of room only where the segment says so. -/
theorem lockstep_run (segment : Segment) (groupBy : List String)
    (functions : List AggregateFunction) (options : Options) (capacity : Nat) :
    Lockstep (fun e => e.isGroupRoom = true →
        Reported segment groupBy functions options.nullHandling e)
      (fun r r' => withoutResizes r = withoutResizes r')
      (run segment groupBy functions options).value
      (run segment groupBy functions { options with maxInitialCapacity := capacity }).value := by
  have hother : ∀ e : QueryError, e.isGroupRoom = false → e.isGroupRoom = true →
      Reported segment groupBy functions options.nullHandling e :=
    fun e hno hroom => absurd hroom (by simp [hno])
  unfold run
  cases hschema : schema segment groupBy functions with
  | error e =>
    refine .error (failsOnly_schema hother (fun column hcolumn e he _ => ?_) e hschema)
    exact .inl ⟨column, hcolumn, he⟩
  | ok described =>
    obtain ⟨output, multiValue⟩ := described
    have hstart : Abreast groupBy.length options.numGroupsLimit (initialState functions options)
        (initialState functions { options with maxInitialCapacity := capacity }) :=
      ⟨rfl, GroupKeys.sound_new, List.forall₂_map_left_iff.2 (List.forall₂_map_right_iff.2
        (List.forall₂_same.2 fun f _ => GroupHolder.alike_new f _ _ _))⟩
    have hscan := lockstep_scanWith .groupBy
      (R := Abreast groupBy.length options.numGroupsLimit)
      (fun s t h block => lockstep_step hother (length_of_multiValue hschema)
        (Aggregation.fetchedColumns groupBy functions) functions h block)
      (fun e he _ => .inr (.inl he))
      (fun opened hopened e he _ => .inr (.inr ⟨opened, hopened, he⟩)) hstart
    refine hscan.bind fun a b ⟨hstates, hdocuments, hsources⟩ => ?_
    refine (lockstep_table functions hstates).bind fun made made' hmade => .ok ?_
    subst hmade
    simp only [withoutResizes, stats, Scanned.stats, Scanned.entries, hdocuments, hsources,
      hstates.keys_eq]

/-- A segment in memory never reports a lack of room. -/
theorem isGroupRoom_of_reported {s : MemorySegment} {nullHandling : Bool} {e : QueryError}
    (h : Reported s.segment groupBy functions nullHandling e) : e.isGroupRoom = false := by
  have hfind (name : String) : FailsOnly (·.isGroupRoom = false) (s.find name) := by
    unfold ColumnSegment.find
    split
    · exact failsOnly_ok _
    · exact failsOnly_error rfl
  rcases h with ⟨column, -, h⟩ | h | ⟨opened, hopened, h⟩
  · exact (hfind column).map _ e h
  · have hscan : FailsOnly (·.isGroupRoom = false)
        (s.scan (Aggregation.fetchedColumns groupBy functions) nullHandling) := by
      rw [MemorySegment.scan_eq]
      refine FailsOnly.bind ?_ fun _ => failsOnly_ok _
      exact (FailsOnly.mapM fun name _ => hfind name).bind fun _ => failsOnly_ok _
    exact hscan e h
  · obtain ⟨columns, batches, -, hpulls, -⟩ := MemorySegment.of_scan hopened
    rw [hpulls] at h
    obtain ⟨block, -, hblock⟩ := List.mem_map.1 h
    exact nomatch hblock

/-- An attempt meets no lack of room in a holder but one that its segment
reports: where a new holder itself finds no room, that is another error. -/
theorem reported_of_attempt {options : Options} {e : QueryError}
    (h : (attempt segment groupBy functions options).value = .error e)
    (hroom : e.isGroupRoom = true) :
    Reported segment groupBy functions options.nullHandling e := by
  rcases error_of_attempt h with hrun | rfl
  · exact (lockstep_run segment groupBy functions options options.maxInitialCapacity).failsOnly e
      hrun hroom
  · exact nomatch hroom

/-- **There is room for every group.** Calls for numbers give out different
numbers to different tuples, in order and within the limit and what 32 bits
write; calls on a holder keep its slots and grow it within its maximum. So a
grouping meets no lack of room but one that its segment reports, which no
segment in memory does, and what it yields does not depend on the room that
holders begin with, as long as they can be allocated with it. -/
theorem room_for_groups :
    (∀ (limit : Nat) (tuples : List (List Key)), GroupKeys.Numbered limit tuples
      ((GroupKeys.new limit).assignAll tuples).1 ((GroupKeys.new limit).assignAll tuples).2) ∧
    (∀ (capacity maximum : Nat) (initial : Accumulator),
      GroupHolder.Steady maximum initial (.new capacity maximum initial)) ∧
    ∀ (groupBy : List String) (functions : List AggregateFunction) (options : Options),
      (∀ (segment : Segment) (e : QueryError),
        (attempt segment groupBy functions options).value = .error e → e.isGroupRoom = true →
        Reported segment groupBy functions options.nullHandling e) ∧
      (∀ (s : MemorySegment) (e : QueryError),
        (attempt s.segment groupBy functions options).value = .error e → e.isGroupRoom = false) ∧
      ∀ (segment : Segment) (capacity : Nat), Allocatable functions options →
        Allocatable functions { options with maxInitialCapacity := capacity } →
        (attempt segment groupBy functions
            { options with maxInitialCapacity := capacity }).value.map withoutResizes =
          (attempt segment groupBy functions options).value.map withoutResizes := by
  refine ⟨GroupKeys.numbered_assignAll, GroupHolder.steady_new, fun groupBy functions options =>
    ⟨fun segment e => reported_of_attempt, fun s e h => ?_,
      fun segment capacity hroom hroom' => ?_⟩⟩
  · -- what such a segment would have to report it never does
    by_contra hno
    have hyes := Bool.eq_true_of_not_eq_false hno
    exact hno (isGroupRoom_of_reported (reported_of_attempt h hyes))
  · rw [attempt_eq_run hroom, attempt_eq_run hroom']
    exact ((lockstep_run segment groupBy functions options capacity).map_eq fun _ _ h => h).symm

/-- Holders that begin with one slot, or with as many as there may be
groups. -/
theorem room_for_groups_tagged :
    let options : Options := { maxInitialCapacity := 1 }
    Allocatable [.count none] options ∧
      Allocatable [.count none] { options with maxInitialCapacity := 100000 } ∧
      (attempt tagged.segment ["tags"] [.count none]
          { options with maxInitialCapacity := 100000 }).value.map withoutResizes =
        (attempt tagged.segment ["tags"] [.count none] options).value.map withoutResizes := by
  intro options
  have hone : Allocatable [.count none] options := by decide
  have hmany : Allocatable [.count none] { options with maxInitialCapacity := 100000 } := by decide
  obtain ⟨-, -, hroom⟩ := room_for_groups
  obtain ⟨-, -, hsame⟩ := hroom ["tags"] [.count none] options
  exact ⟨hone, hmany, hsame tagged.segment 100000 hone hmany⟩

/-- **Where the room ends.** A new tuple is turned away below the limit once
32 bits are used up, and a grouping that goes through with little room to
begin with ends the program where it begins with more than can be
allocated. -/
theorem room_at_its_end :
    (let keys := ((GroupKeys.new (Number.bound32 + 1)).assignAll
        (Key.counted Number.bound32)).2
      let tuple := [(Cell.long (Int64.ofNat Number.bound32)).key]
      (∀ key ∈ keys.tuples, ¬ Key.sameTuple key tuple) ∧ keys.count < keys.limit ∧
        (keys.assign tuple).1 = none) ∧
    let options : Options := { numGroupsLimit := 18446744073709551615 }
    (∃ r, (attempt tagged.segment ["tags"] [.count none]
      { options with maxInitialCapacity := 1 }).value = .ok r) ∧
    ∃ e, (attempt tagged.segment ["tags"] [.count none]
      { options with maxInitialCapacity := 18446744073709551615 }).value = .error e ∧
      e.isFatal = true := by
  obtain ⟨hnew, hbelow, hnone, -⟩ :=
    GroupKeys.turned_away_below_limit rfl (Nat.lt_add_one Number.bound32)
  refine ⟨⟨hnew, hbelow, hnone⟩, ?_⟩
  intro options
  have hschema : schema tagged.segment ["tags"] [.count none] =
      .ok (⟨⟨"tags", .ofStored .int, .dimension⟩ ::
        Aggregation.intermediateColumns [.count none]⟩, true) := rfl
  have hsome : (attempt tagged.segment ["tags"] [.count none]
      { options with maxInitialCapacity := 1 }).value.toOption.isSome = true := by decide +kernel
  obtain ⟨r, hr⟩ := Option.isSome_iff_exists.1 hsome
  exact ⟨⟨r, Except.toOption_eq_some.1 hr⟩, _, attempt_of_full hschema (by decide), rfl⟩

end GroupBy

end SegmentQuery
