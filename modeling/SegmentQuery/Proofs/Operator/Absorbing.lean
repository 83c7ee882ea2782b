import SegmentQuery.Proofs.Aggregate.Effects
import SegmentQuery.Proofs.Operator.Placing
/-!
# A grouping absorbs its documents

Whatever the blocks of a scan are, each function takes the placed
documents in one after the other. What its holder shows is therefore the
tally of the documents so far, and the scan goes through exactly when
every function has a tally of all of them.
-/


namespace SegmentQuery

variable {s : MemorySegment} {nullHandling : Bool}

/-! ## Columns of functions -/

/-- The column that a function reads, as a scan of the segment sees it. -/
def AggregateFunction.columnIn (f : AggregateFunction) (s : MemorySegment) (nullHandling : Bool) :
    Option Column :=
  f.column?.bind fun name => (s.find name).toOption.map fun c => c.column.seen nullHandling

/-- A block copies its documents from a function's column. -/
theorem AggregateFunction.copies_columnIn {f : AggregateFunction} {documents : List Nat}
    (hdocuments : ∀ d ∈ documents, d ∈ s.matching) (hlen : documents.length ≤ Number.bound32)
    {c : Column} (hc : f.columnIn s nullHandling = some c) : c.Copies documents := by
  obtain ⟨name, -, hname⟩ := Option.bind_eq_some_iff.1 hc
  obtain ⟨found, hfound, rfl⟩ := Option.map_eq_some_iff.1 hname
  have hlength := s.length_columns found
    (MemorySegment.find_name (Except.toOption_eq_some.1 hfound)).1
  refine ⟨fun d hd => ?_, hlen⟩
  rw [Column.length_seen, hlength]
  exact MemorySegment.lt_of_mem_matching (hdocuments d hd)

/-- A function's input in a block is the copy from its column. -/
theorem Aggregation.input_columnIn {leading : List String} {functions : List AggregateFunction}
    {columns : List MemoryColumn}
    (hcolumns : (fetchedColumns leading functions).mapM s.find = .ok columns)
    (documents : List Nat) {f : AggregateFunction} (hf : f ∈ functions) :
    input (MemorySegment.block columns nullHandling documents)
        (inputIndex (fetchedColumns leading functions) f) =
      .ok ((f.columnIn s nullHandling).map fun c => c.select documents) := by
  obtain ⟨column, hinput, hcolumn⟩ := input_delivered hcolumns nullHandling documents hf
  rw [hinput, AggregateFunction.columnIn]
  cases hname : f.column? with
  | none =>
    rw [hname] at hcolumn
    rw [show column = none from hcolumn]
    rfl
  | some name =>
    rw [hname] at hcolumn
    obtain ⟨c, rfl, hfind⟩ := hcolumn
    rw [Option.bind_some, hfind, Column.delivered_eq]
    rfl

namespace GroupBy

variable {groupBy : List String} {functions : List AggregateFunction} {limit : Nat}
variable {multiValue : Bool} {output : Schema}

/-- The input of a function is the same whatever is grouped by. -/
theorem input_columnIn {columns : List MemoryColumn}
    (hcolumns : (Aggregation.fetchedColumns groupBy functions).mapM s.find = .ok columns)
    (documents : List Nat) {f : AggregateFunction} (hf : f ∈ functions) (groups : BlockGroups) :
    input (MemorySegment.block columns nullHandling documents) groups
        (Aggregation.inputIndex (Aggregation.fetchedColumns groupBy functions) f) =
      .ok ((f.columnIn s nullHandling).map fun c => c.select documents) := by
  have hinput := @Aggregation.input_columnIn s nullHandling _ _ _ hcolumns documents f hf
  cases groups with
  | single numbers =>
    rw [input, hinput]
    rfl
  | multi numbers => exact hinput

/-! ## Tallies -/

/-- The documents of a segment that are placed, and the keys
afterwards. -/
def placed (s : MemorySegment) (nullHandling : Bool) (groupBy : List String) (multiValue : Bool)
    (limit : Nat) (documents : List Nat) : List (Nat × List Nat) × GroupKeys :=
  placeAll multiValue (s.row nullHandling groupBy) (.new limit) documents

/-- What a function makes of some documents: the slots of all groups after
the placed ones were taken in. -/
def tally (s : MemorySegment) (nullHandling : Bool) (groupBy : List String) (multiValue : Bool)
    (limit : Nat) (documents : List Nat) (f : AggregateFunction) :
    Except QueryError (Nat → GroupSlot) :=
  (placed s nullHandling groupBy multiValue limit documents).1.foldlM
    (f.absorb (f.columnIn s nullHandling)) fun _ => .fresh f.initial

/-- A function's holder shows the tally of some documents. -/
def ShowsTally (s : MemorySegment) (nullHandling : Bool) (groupBy : List String)
    (multiValue : Bool) (limit : Nat) (documents : List Nat) (room : Nat) (f : AggregateFunction)
    (h : GroupHolder) : Prop :=
  ∃ view, tally s nullHandling groupBy multiValue limit documents f = .ok view ∧
    h.Shows f limit room view

/-- Documents that can be tallied could be up to any of them. -/
theorem tally_prefix {front back : List Nat} {f : AggregateFunction} {view : Nat → GroupSlot}
    (h : tally s nullHandling groupBy multiValue limit (front ++ back) f = .ok view) :
    ∃ view, tally s nullHandling groupBy multiValue limit front f = .ok view := by
  rw [tally, placed, placeAll_append, List.foldlM_append] at h
  obtain ⟨view, hfront, -⟩ := Except.bind_eq_ok.1 h
  exact ⟨view, hfront⟩

/-- Whether a block can be read at all: its keys have cells, and every
function accepts its column. -/
structure Readable (s : MemorySegment) (nullHandling : Bool) (groupBy : List String)
    (functions : List AggregateFunction) : Prop where
  fetchable : s.Fetchable groupBy
  accepts : ∀ f ∈ functions, f.Accepts (f.columnIn s nullHandling)

/-- What a scan in progress has absorbed: the keys are those after its
documents were placed, and each holder shows the tally of them. -/
structure Absorbed (s : MemorySegment) (nullHandling : Bool) (groupBy : List String)
    (multiValue : Bool) (functions : List AggregateFunction) (limit : Nat) (seen : List Nat)
    (state : State) : Prop where
  keys_eq : state.keys = (placed s nullHandling groupBy multiValue limit seen).2
  sound : state.keys.Sound groupBy.length limit
  readable : seen ≠ [] → Readable s nullHandling groupBy functions
  holders : List.Forall₂
    (ShowsTally s nullHandling groupBy multiValue limit seen state.keys.count) functions
    state.holders

/-- A scan that has seen nothing yet. -/
theorem absorbed_new (options : Options) :
    Absorbed s nullHandling groupBy multiValue functions options.numGroupsLimit []
      (initialState functions options) where
  keys_eq := rfl
  sound := GroupKeys.sound_new
  readable h := absurd rfl h
  holders := by
    rw [initialState, List.forall₂_map_right_iff, List.forall₂_same]
    exact fun f _ => ⟨_, rfl, GroupHolder.shows_new f _ _⟩

/-! ## One step -/

namespace Absorbed

variable {seen : List Nat} {state : State}
variable (hstate : Absorbed s nullHandling groupBy multiValue functions limit seen state)

include hstate

/-- The keys after more documents. -/
theorem keys_append (batch : List Nat) :
    (placeAll multiValue (s.row nullHandling groupBy) state.keys batch).2 =
      (placed s nullHandling groupBy multiValue limit (seen ++ batch)).2 := by
  rw [placed, placeAll_append, hstate.keys_eq]
  rfl

/-- **The tally of more documents** goes on from that of those so far. -/
theorem tally_append {f : AggregateFunction} {view : Nat → GroupSlot}
    (htally : tally s nullHandling groupBy multiValue limit seen f = .ok view) (batch : List Nat) :
    tally s nullHandling groupBy multiValue limit (seen ++ batch) f =
      (placeAll multiValue (s.row nullHandling groupBy) state.keys batch).1.foldlM
        (f.absorb (f.columnIn s nullHandling)) view := by
  have hkeys : (placeAll multiValue (s.row nullHandling groupBy) (.new limit) seen).2 = state.keys :=
    hstate.keys_eq.symm
  have htally : (placeAll multiValue (s.row nullHandling groupBy) (.new limit) seen).1.foldlM
      (f.absorb (f.columnIn s nullHandling)) (fun _ => .fresh f.initial) = .ok view := htally
  rw [tally, placed, placeAll_append, List.foldlM_append, htally, hkeys]
  rfl

end Absorbed

theorem length_toLists (groups : BlockGroups) : groups.toLists.length = groups.length := by
  cases groups with
  | single numbers => exact List.length_map _
  | multi numbers => rfl

section

variable {columns : List MemoryColumn} {batch seen : List Nat} {state : State}
variable (hcolumns : (Aggregation.fetchedColumns groupBy functions).mapM s.find = .ok columns)
variable (hbatch : ∀ d ∈ batch, d ∈ s.matching) (hlen : batch.length ≤ Number.bound32)
variable (hstate : Absorbed s nullHandling groupBy multiValue functions limit seen state)

include hcolumns hbatch hlen hstate

/-- The keys of a block that can be fetched are numbered, and every holder
makes room for them. -/
theorem Absorbed.exists_room
    (hschema : schema s.segment groupBy functions = .ok (output, multiValue))
    (hfetch : s.Fetchable groupBy) :
    ∃ groups grown, let placing := placeAll multiValue (s.row nullHandling groupBy) state.keys batch
      groupBlock groupBy.length multiValue state.keys
          (MemorySegment.block columns nullHandling batch) =
        .ok (groups, MemorySegment.block columns nullHandling (placing.1.map Prod.fst),
          placing.2) ∧
      groups.toLists = placing.1.map Prod.snd ∧ placing.2.Sound groupBy.length limit ∧
      (ensureAll placing.2.count state.holders).value = .ok grown ∧
      List.Forall₂ (ShowsTally s nullHandling groupBy multiValue limit seen placing.2.count)
        functions grown := by
  obtain ⟨extra, hextra⟩ := Aggregation.prefix_fetchedColumns groupBy functions
  obtain ⟨groups, hblock, hlists⟩ := @groupBlock_eq s nullHandling groupBy columns batch hfetch
    extra (hextra ▸ hcolumns) hbatch hlen multiValue state.keys
  have hsound := sound_groupBlock (length_of_multiValue hschema) hstate.sound hblock
  have hensure : ∀ f ∈ functions, ∀ h,
      ShowsTally s nullHandling groupBy multiValue limit seen state.keys.count f h →
      ∃ grown, h.ensure (placeAll multiValue (s.row nullHandling groupBy) state.keys batch).2.count =
          .ok grown ∧
        ShowsTally s nullHandling groupBy multiValue limit seen
          (placeAll multiValue (s.row nullHandling groupBy) state.keys batch).2.count f grown := by
    rintro f - h ⟨view, htally, hshows⟩
    obtain ⟨grown, hgrown, hshows⟩ := hshows.ensure hsound.count_le hsound.count_le_bound32
    exact ⟨grown, hgrown, view, htally, hshows⟩
  obtain ⟨grown, hgrown, hroom⟩ := exists_ensureAll hensure hstate.holders
  exact ⟨groups, grown, hblock, hlists, hsound, hgrown, hroom⟩

omit hstate in
/-- **One function** takes the placed documents of a block in. -/
theorem agree_fold {f : AggregateFunction} (hf : f ∈ functions)
    (haccepts : f.Accepts (f.columnIn s nullHandling)) {groups : BlockGroups}
    {pairs : List (Nat × List Nat)} (hpairs : (pairs.map Prod.fst).Sublist batch)
    (hlists : groups.toLists = pairs.map Prod.snd) {room : Nat}
    (hgroups : ∀ p ∈ pairs, ∀ g ∈ p.2, g < room) {h : GroupHolder} {view : Nat → GroupSlot}
    (hshows : h.Shows f limit room view) :
    Except.Agree (GroupHolder.Shows f limit room)
      (input (MemorySegment.block columns nullHandling (pairs.map Prod.fst)) groups
          (Aggregation.inputIndex (Aggregation.fetchedColumns groupBy functions) f) >>=
        fun column => (f.aggregateGroups groups.length groups.toLists column h).toExcept)
      (pairs.foldlM (f.absorb (f.columnIn s nullHandling)) view) := by
  have hlength : groups.length = pairs.length := by
    rw [← length_toLists, hlists, List.length_map]
  rw [input_columnIn hcolumns _ hf, hlists, hlength]
  exact AggregateFunction.agree_aggregateGroups haccepts
    (fun c hc => AggregateFunction.copies_columnIn (fun d hd => hbatch d (hpairs.subset hd))
      (hpairs.length_le.trans hlen) hc) hgroups hshows

/-- **A step that goes through** has absorbed the documents of its
block. -/
theorem Absorbed.of_step
    (hschema : schema s.segment groupBy functions = .ok (output, multiValue)) {visit : Visit State}
    (h : (step (Aggregation.fetchedColumns groupBy functions) groupBy.length multiValue functions
      state (MemorySegment.block columns nullHandling batch)).value = .ok visit) :
    visit.finished = false ∧
      Absorbed s nullHandling groupBy multiValue functions limit (seen ++ batch) visit.state := by
  obtain ⟨extra, hextra⟩ := Aggregation.prefix_fetchedColumns groupBy functions
  have hfetch : s.Fetchable groupBy := by
    unfold step at h
    split at h
    · exact nomatch h
    · rename_i hblock
      exact (snd_groupBlock hschema (hextra ▸ hcolumns) hbatch hlen hblock).1
  obtain ⟨groups, grown, hblock, hlists, hsound, hgrown, hroom⟩ :=
    hstate.exists_room hcolumns hbatch hlen hschema hfetch
  unfold step at h
  rw [hblock] at h
  obtain ⟨_, hgrown', h⟩ := Except.bind_eq_ok.1 h
  obtain rfl := Except.ok.inj (hgrown.symm.trans hgrown')
  obtain ⟨folded, hfolded, h⟩ := Except.bind_eq_ok.1 h
  obtain rfl := Except.ok.inj h
  have hall : List.Forall₂ (fun f h => f.Accepts (f.columnIn s nullHandling) ∧
      ShowsTally s nullHandling groupBy multiValue limit (seen ++ batch)
        (placeAll multiValue (s.row nullHandling groupBy) state.keys batch).2.count f h)
      functions folded := by
    refine Except.forall₂_of_mapM_zip hroom (fun f hf h next hshown hok => ?_) hfolded
    obtain ⟨view, htally, hshows⟩ := hshown
    obtain ⟨column, hcolumn, hfold⟩ := Except.bind_eq_ok.1 hok
    obtain rfl := Except.ok.inj ((input_columnIn hcolumns _ hf groups).symm.trans hcolumn)
    have haccepts := AggregateFunction.accepts_of_aggregateGroups hfold
    have hagree := agree_fold hcolumns hbatch hlen hf haccepts (sublist_placeAll _ batch) hlists
      (fun p hp => lt_of_mem_placeAll hp) hshows
    obtain ⟨view', hview, hshows'⟩ := hagree.of_ok hok
    exact ⟨haccepts, view', (hstate.tally_append htally batch).trans hview, hshows'⟩
  refine ⟨rfl, hstate.keys_append batch, hsound, fun _ => ⟨hfetch, fun f hf => ?_⟩,
    hall.imp fun _ _ h => h.2⟩
  obtain ⟨h, -, haccepts, -⟩ := exists_of_mem_right hall.flip hf
  exact haccepts

/-- **A step goes through** where its block can be read and every function
has a tally of all documents so far. -/
theorem Absorbed.exists_step
    (hschema : schema s.segment groupBy functions = .ok (output, multiValue))
    (hreadable : Readable s nullHandling groupBy functions)
    (htallies : ∀ f ∈ functions, ∃ view,
      tally s nullHandling groupBy multiValue limit (seen ++ batch) f = .ok view) :
    ∃ visit, (step (Aggregation.fetchedColumns groupBy functions) groupBy.length multiValue
        functions state (MemorySegment.block columns nullHandling batch)).value = .ok visit ∧
      visit.finished = false ∧
      Absorbed s nullHandling groupBy multiValue functions limit (seen ++ batch) visit.state := by
  obtain ⟨groups, grown, hblock, hlists, hsound, hgrown, hroom⟩ :=
    hstate.exists_room hcolumns hbatch hlen hschema hreadable.fetchable
  have hfold : ∃ folded, foldBlock (Aggregation.fetchedColumns groupBy functions) functions
        (MemorySegment.block columns nullHandling
          ((placeAll multiValue (s.row nullHandling groupBy) state.keys batch).1.map Prod.fst))
        groups grown = .ok folded ∧
      List.Forall₂ (ShowsTally s nullHandling groupBy multiValue limit (seen ++ batch)
        (placeAll multiValue (s.row nullHandling groupBy) state.keys batch).2.count)
        functions folded := by
    refine Except.exists_mapM_zip_ok hroom fun f hf h hshown => ?_
    obtain ⟨view, htally, hshows⟩ := hshown
    obtain ⟨view', hview⟩ := htallies f hf
    have hagree := agree_fold hcolumns hbatch hlen hf (hreadable.accepts f hf)
      (sublist_placeAll _ batch) hlists (fun p hp => lt_of_mem_placeAll hp) hshows
    obtain ⟨next, hnext, hshows'⟩ :=
      hagree.exists_ok ((hstate.tally_append htally batch).symm.trans hview)
    exact ⟨next, hnext, view', hview, hshows'⟩
  obtain ⟨folded, hfolded, hall⟩ := hfold
  refine ⟨⟨⟨(placeAll multiValue (s.row nullHandling groupBy) state.keys batch).2, folded⟩,
      (MemorySegment.block columns nullHandling batch).size, false⟩, ?_, rfl,
    hstate.keys_append batch, hsound, fun _ => hreadable, hall⟩
  unfold step
  rw [hblock]
  simp only [Traced.map, hgrown, bind, Except.bind, hfolded]
  rfl

end

/-! ## The whole scan -/

section

variable {columns : List MemoryColumn} {batches : List (List Nat)} {options : Options}

variable (hcolumns : (Aggregation.fetchedColumns groupBy functions).mapM s.find = .ok columns)
variable (hbatches : batches.flatten = s.matching)
variable (hschema : schema s.segment groupBy functions = .ok (output, multiValue))

include hcolumns hbatches hschema

/-- **A scan that goes through** has absorbed all matching documents, cut
however they may be. -/
theorem absorbed_of_scan {state : State}
    (h : (scanPulls (step (Aggregation.fetchedColumns groupBy functions) groupBy.length multiValue
      functions) (initialState functions options)
      ((batches.map (MemorySegment.block columns nullHandling)).map .ok)).outcome = .ok state) :
    Absorbed s nullHandling groupBy multiValue functions options.numGroupsLimit s.matching
      state := by
  rw [← hbatches, ← MemorySegment.flatMap_documents columns nullHandling batches,
    ← List.nil_append (List.flatMap _ _)]
  refine scanPulls_documents (fun seen state hstate b hb visit hvisit => ?_)
    (absorbed_new options) h
  obtain ⟨batch, hbatch, rfl⟩ := List.mem_map.1 hb
  obtain ⟨hmatching, hlen⟩ := MemorySegment.of_mem_batches hbatches hbatch
  exact hstate.of_step hcolumns hmatching hlen hschema hvisit

/-- **A scan goes through**, however the matching documents are cut, where
they can be read and every function has a tally of them. -/
theorem exists_scan_absorbed (options : Options) (hne : ∀ batch ∈ batches, batch ≠ [])
    (hreadable : s.matching ≠ [] → Readable s nullHandling groupBy functions)
    (htallies : ∀ f ∈ functions, ∃ view,
      tally s nullHandling groupBy multiValue options.numGroupsLimit s.matching f = .ok view) :
    ∃ state, (scanPulls (step (Aggregation.fetchedColumns groupBy functions) groupBy.length
        multiValue functions) (initialState functions options)
        ((batches.map (MemorySegment.block columns nullHandling)).map .ok)).outcome = .ok state ∧
      Absorbed s nullHandling groupBy multiValue functions options.numGroupsLimit s.matching
        state := by
  have hscan : ∃ state, (scanPulls (step (Aggregation.fetchedColumns groupBy functions)
        groupBy.length multiValue functions) (initialState functions options)
        ((batches.map (MemorySegment.block columns nullHandling)).map .ok)).outcome = .ok state ∧
      Absorbed s nullHandling groupBy multiValue functions options.numGroupsLimit
        ([] ++ (batches.map (MemorySegment.block columns nullHandling)).flatMap Block.documents)
        state := by
    refine scanPulls_reaches (fun front b back hcut state hstate => ?_) (absorbed_new options)
    obtain ⟨fronts, rest, hfronts, hfront, hrest⟩ := List.map_eq_append_iff.1 hcut
    obtain ⟨batch, backs, rfl, rfl, hback⟩ := List.map_eq_cons_iff.1 hrest
    have hbatch : batch ∈ batches := hfronts ▸ List.mem_append_right fronts List.mem_cons_self
    obtain ⟨hmatching, hlen⟩ := MemorySegment.of_mem_batches hbatches hbatch
    have hsome : s.matching ≠ [] := by
      obtain ⟨d, hd⟩ := List.exists_mem_of_ne_nil batch (hne batch hbatch)
      exact List.ne_nil_of_mem (hmatching d hd)
    -- the documents up to this block are the first of all
    have hmatched : s.matching = [] ++ front.flatMap Block.documents ++ batch ++ backs.flatten := by
      rw [← hbatches, hfronts, ← hfront, MemorySegment.flatMap_documents]
      simp
    refine hstate.exists_step hcolumns hmatching hlen hschema (hreadable hsome) fun f hf => ?_
    obtain ⟨view, hview⟩ := htallies f hf
    exact tally_prefix (hmatched ▸ hview)
  obtain ⟨state, hstate, habsorbed⟩ := hscan
  rw [List.nil_append, MemorySegment.flatMap_documents, hbatches] at habsorbed
  exact ⟨state, hstate, habsorbed⟩

end

/-! ## The table -/

/-- **The aggregates of one number** are read off the tallies. -/
theorem groupRow_eq {documents : List Nat} {room : Nat} {holders : List GroupHolder}
    (hholders : List.Forall₂ (ShowsTally s nullHandling groupBy multiValue limit documents room)
      functions holders) {number : Nat} (hnumber : number < room) :
    groupRow functions holders number = functions.mapM fun f =>
      (tally s nullHandling groupBy multiValue limit documents f).map fun view =>
        f.extractSlot (view number) := by
  induction hholders with
  | nil => rfl
  | @cons f h functions holders hshown _ ih =>
    obtain ⟨view, htally, hshows⟩ := hshown
    have hcell : f.extractGroup h number = .ok (f.extractSlot (view number)) := by
      rw [AggregateFunction.extractGroup, hshows.slot hnumber]
      rfl
    rw [groupRow, List.zip_cons_cons, List.mapM_cons, List.mapM_cons, htally]
    dsimp only
    rw [hcell]
    exact congrArg (fun rest => Except.ok (f.extractSlot (view number)) >>= fun cell =>
      rest >>= fun row => pure (cell :: row)) ih

/-- **Two scans that absorbed the same documents** make the same table. -/
theorem Absorbed.table_congr {documents : List Nat} {state state' : State}
    (h : Absorbed s nullHandling groupBy multiValue functions limit documents state)
    (h' : Absorbed s nullHandling groupBy multiValue functions limit documents state') :
    table functions state = table functions state' := by
  have hkeys : state.keys = state'.keys := h.keys_eq.trans h'.keys_eq.symm
  rw [table, table, ← hkeys]
  refine Except.foldlM_congr fun t pair hpair => ?_
  have hnumber : pair.2 < state.keys.count :=
    (List.getElem?_eq_some_iff.1 (List.mem_zipIdx_iff_getElem?.1 hpair)).1
  have hrow : groupRow functions state.holders pair.2 = groupRow functions state'.holders pair.2 :=
    (groupRow_eq h.holders hnumber).trans (groupRow_eq h'.holders (hkeys ▸ hnumber)).symm
  exact congrArg (· >>= fun row => pure (t.insert pair.1 row)) hrow

/-- What was absorbed has been tallied. -/
theorem Absorbed.exists_tally {documents : List Nat} {state : State}
    (h : Absorbed s nullHandling groupBy multiValue functions limit documents state)
    {f : AggregateFunction} (hf : f ∈ functions) :
    ∃ view, tally s nullHandling groupBy multiValue limit documents f = .ok view := by
  obtain ⟨holder, -, view, htally, -⟩ := exists_of_mem_right h.holders.flip hf
  exact ⟨view, htally⟩

/-- **What was absorbed makes a table.** -/
theorem Absorbed.exists_table {documents : List Nat} {state : State}
    (h : Absorbed s nullHandling groupBy multiValue functions limit documents state) :
    ∃ t, table functions state = .ok t := by
  refine Except.exists_foldlM_ok fun t pair hpair => ?_
  have hnumber : pair.2 < state.keys.count :=
    (List.getElem?_eq_some_iff.1 (List.mem_zipIdx_iff_getElem?.1 hpair)).1
  obtain ⟨row, hrow⟩ : ∃ row, groupRow functions state.holders pair.2 = .ok row := by
    rw [groupRow_eq h.holders hnumber]
    refine Except.exists_mapM_ok.2 fun f hf => ?_
    obtain ⟨view, hview⟩ := h.exists_tally hf
    exact ⟨f.extractSlot (view pair.2), by rw [hview]; rfl⟩
  exact ⟨t.insert pair.1 row, Except.bind_eq_ok.2 ⟨row, hrow, rfl⟩⟩

/-- **A run that goes through** has absorbed all matching documents, and
its table is made of that. -/
theorem absorbed_of_run {options : Options} {r : PartialResult}
    (h : (run s.segment groupBy functions options).value = .ok r) :
    ∃ multiValue columns state t, schema s.segment groupBy functions = .ok (r.schema, multiValue) ∧
      (Aggregation.fetchedColumns groupBy functions).mapM s.find = .ok columns ∧
      Absorbed s options.nullHandling groupBy multiValue functions options.numGroupsLimit s.matching
        state ∧
      table functions state = .ok t ∧ r.rows = .groupBy t := by
  obtain ⟨multiValue, source, state, t, hschema, hsource, houtcome, htable, hrows, -, -⟩ :=
    scan_of_run h
  obtain ⟨columns, batches, hcolumns, hpulls, hbatches⟩ := MemorySegment.of_scan hsource
  exact ⟨multiValue, columns, state, t, hschema, hcolumns,
    absorbed_of_scan hcolumns hbatches hschema (hpulls ▸ houtcome), htable, hrows⟩

/-- **A grouping does not depend on where its blocks are cut**: where one
block size makes a table, so does any other, and it is the same. -/
theorem rows_withBlockSize {options : Options} {a : Nat} {r : PartialResult}
    (h : (run (s.withBlockSize a).segment groupBy functions options).value = .ok r) (b : Nat) :
    ∃ r', (run (s.withBlockSize b).segment groupBy functions options).value = .ok r' ∧
      r'.schema = r.schema ∧ r'.rows = r.rows := by
  obtain ⟨multiValue, source, state, t, hschema, hsource, houtcome, htable, hrows, -, -⟩ :=
    scan_of_run h
  obtain ⟨columns, batches, hcolumns, hpulls, hbatches⟩ := MemorySegment.of_scan hsource
  obtain ⟨source', batches', hsource', hpulls', hbatches', hne⟩ :=
    MemorySegment.exists_scan (s := s.withBlockSize b) hcolumns options.nullHandling
  -- but for its blocks the segment is the same under either size
  have hcolumns : (Aggregation.fetchedColumns groupBy functions).mapM s.find = .ok columns := hcolumns
  have hbatches : batches.flatten = s.matching := hbatches
  have hbatches' : batches'.flatten = s.matching := hbatches'
  have hschema : schema s.segment groupBy functions = .ok (r.schema, multiValue) := hschema
  have hschema' : schema (s.withBlockSize b).segment groupBy functions =
      .ok (r.schema, multiValue) := hschema
  have habsorbed := absorbed_of_scan hcolumns hbatches hschema (hpulls ▸ houtcome)
  obtain ⟨state', houtcome', habsorbed'⟩ := exists_scan_absorbed hcolumns hbatches' hschema options
    hne habsorbed.readable fun f hf => habsorbed.exists_tally hf
  obtain ⟨r', hrun, hschema', hrows'⟩ := run_of_scan hschema' hsource' (hpulls' ▸ houtcome')
    ((habsorbed.table_congr habsorbed').symm.trans htable)
  exact ⟨r', hrun, hschema', hrows'.trans hrows.symm⟩

end GroupBy

end SegmentQuery
