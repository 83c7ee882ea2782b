import SegmentQuery.Proofs.Aggregate.Folding
import SegmentQuery.Proofs.Operator.Occurrences
/-!
# Groups and whole scans

Counts and decimal sums make of the documents of a group what they make of
a whole scan of these documents. The slot of a group takes them in one by
one where the holder of a scan takes in block after block, and the slot's
three states tell what the holder's flag tells: a count or a decimal sum
never settles a group with a null.
-/


namespace SegmentQuery

open GroupHolder

namespace AggregateFunction

/-- Functions that add exactly: counts and decimal sums. -/
def Exact : AggregateFunction → Prop
  | .count _ | .sumPrecision .. => True
  | _ => False

/-- A slot has come to a decimal sum, and says whether anything was added
as the flag of a holder does. -/
structure Adds (h : Holder) (total : Decimal) (s : GroupSlot) : Prop where
  value_eq : s.value = .decimal total
  state_eq : s.state = if h.seenNonNull then .valued else .noData

/-- The holder of a scan and the slot of a group that have come to the same
value. -/
def Mirrors : AggregateFunction → Holder → GroupSlot → Prop
  | .count _, h, s =>
    ∃ n, h.value = .long (Counter.signed n) ∧ s.value = .long (Counter.signed n)
  | .sumPrecision .., h, s => ∃ total, h.value = .decimal total ∧ Adds h total s
  | _, _, _ => False

variable {f : AggregateFunction} {h : Holder} {s s' : GroupSlot}

/-- A new holder and a fresh slot. -/
theorem mirrors_fresh (hf : f.Exact) : Mirrors f f.holder (.fresh f.initial) := by
  match f, hf with
  | .count _, _ => exact ⟨0, rfl, rfl⟩
  | .sumPrecision .., _ => exact ⟨Decimal.zero, rfl, rfl, rfl⟩

/-- **The same is extracted** from either. -/
theorem Mirrors.extract_eq (hmirrors : Mirrors f h s) : f.extract h = f.extractSlot s := by
  match f, hmirrors with
  | .count _, ⟨n, hh, hs⟩ => rw [extract, extractSlot, hh, hs]
  | .sumPrecision _ _ _ nullHandling, ⟨total, hh, hs, hstate⟩ =>
    rw [extract, extractSlot, hh, hs, hstate]
    cases nullHandling <;> cases h.seenNonNull <;> rfl

/-! ## One block -/

variable {input : Option Column} {batch : List Nat}

/-- Documents are counted into a slot one by one. -/
theorem value_of_takeIn_count {column : Option String} {n : Nat}
    (hvalue : s.value = .long (Counter.signed n))
    (hok : batch.foldlM (takeIn (.count column) input) s = .ok s') :
    s'.value = .long (Counter.signed (n + batch.countP fun d => !input.any (·.isNull d))) := by
  induction batch generalizing s n with
  | nil =>
    obtain rfl := Except.ok.inj hok
    exact hvalue
  | cons d rest ih =>
    obtain ⟨next, hnext, hok⟩ := Except.bind_eq_ok.1 hok
    rw [takeIn, effect] at hnext
    cases hnull : input.any (·.isNull d) with
    | true =>
      rw [hnull] at hnext
      obtain rfl := Except.ok.inj hnext
      rw [List.countP_cons_of_neg (by simp [hnull])]
      exact ih hvalue hok
    | false =>
      rw [hnull] at hnext
      obtain rfl := Except.ok.inj hnext
      rw [List.countP_cons_of_pos (by simp [hnull]), Nat.add_comm _ 1, ← Nat.add_assoc]
      exact ih (value_foldCount hvalue) hok

/-- The positions of a copy that are counted are its documents that are not
null. -/
theorem countPresent_select {c : Column} (hcopies : c.Copies batch) :
    (c.select batch).countPresent batch.length = batch.countP fun d => !c.isNull d := by
  have hlength := hcopies.length_select
  have hpresent := @Column.Copies.present c Nat Nat batch id (by rwa [List.map_id]) id
  simp only [List.map_id, Column.reach, hlength, Nat.min_self, id_eq] at hpresent
  have hcount := Column.countPresent_eq (c := c.select batch) hlength.symm (hlength ▸ hcopies.few)
  rwa [hlength, hpresent, ← List.countP_eq_length_filter] at hcount

/-- One decimal more. -/
theorem Adds.foldDecimal {total v : Decimal} (hadds : Adds h total s)
    (hok : s.foldDecimal v = .ok s') :
    ∃ sum, total.add? v = some sum ∧ Adds { h with seenNonNull := true } sum s' := by
  rw [GroupSlot.foldDecimal, hadds.value_eq] at hok
  cases hsum : total.add? v with
  | none =>
    simp only [Accumulator.toDecimal, hsum] at hok
    cases hok
  | some sum =>
    simp only [Accumulator.toDecimal, hsum] at hok
    obtain rfl := Except.ok.inj hok
    refine ⟨sum, rfl, value_observe _, ?_⟩
    rw [GroupSlot.observe]
    have hstate := hadds.state_eq
    cases hseen : h.seenNonNull <;> rw [hseen] at hstate <;> simp [hstate]

/-- Decimals that can be added to a slot one by one can be added to a
holder. -/
theorem Adds.exists_addDecimals {total : Decimal} {ds : List (Option Decimal)}
    (hadds : Adds h total s)
    (hok : ds.foldlM (fun s d => d.elim (.ok s) s.foldDecimal) s = .ok s') :
    ∃ h' total', (h.addDecimals total (ds.filterMap id)).toExcept = .ok h' ∧
      h'.value = .decimal total' ∧ Adds h' total' s' := by
  induction ds generalizing s h total with
  | nil =>
    obtain rfl := Except.ok.inj hok
    exact ⟨_, total, rfl, rfl, hadds.value_eq, hadds.state_eq⟩
  | cons d ds ih =>
    obtain ⟨next, hnext, hrest⟩ := Except.bind_eq_ok.1 hok
    cases d with
    | none =>
      obtain rfl := Except.ok.inj hnext
      exact ih hadds hrest
    | some v =>
      obtain ⟨sum, hsum, hadds'⟩ := hadds.foldDecimal hnext
      have hread : (some v :: ds).filterMap id = v :: ds.filterMap id := rfl
      rw [hread, Holder.addDecimals, hsum]
      exact ih hadds' hrest

/-- A block is counted into a holder at once. -/
theorem toExcept_aggregate_count {column : Option String} {n : Nat}
    (hvalue : h.value = .long (Counter.signed n)) (hcopies : ∀ c, input = some c → c.Copies batch) :
    ((AggregateFunction.count column).aggregate batch.length (input.map (·.select batch))
        h).toExcept =
      .ok { h with
        value := .long (Counter.signed (n + batch.countP fun d => !input.any (·.isNull d))) } := by
  have hcounts (counted : Nat) (h' : counted = batch.countP fun d => !input.any (·.isNull d)) :
      Counter.addSigned h.value.toLong (Counter.signed counted) =
        Counter.signed (n + batch.countP fun d => !input.any (·.isNull d)) := by
    rw [hvalue, h']
    exact Counter.addSigned_signed _ _
  cases input with
  | none =>
    exact congrArg (fun v => Except.ok { h with value := .long v }) (hcounts batch.length (by simp))
  | some c =>
    exact congrArg (fun v => Except.ok { h with value := .long v })
      (hcounts _ (countPresent_select (hcopies c rfl)))

/-- Documents that are added to a slot one by one can be read all at once
before the first is added. -/
theorem decimals_of_takeIn {column : String} {precision : Nat} {scale : Option Nat}
    {nullHandling : Bool} {c : Column} (hcopies : c.Copies batch)
    (hok : batch.foldlM (takeIn (.sumPrecision column precision scale nullHandling) (some c)) s =
      .ok s') :
    ∃ ds, (c.select batch).decimals nullHandling batch.length = .ok ds ∧
      ds.foldlM (fun s d => d.elim (.ok s) s.foldDecimal) s = .ok s' := by
  have hstep : takeIn (.sumPrecision column precision scale nullHandling) (some c) = fun s d =>
      c.addend nullHandling d >>= fun v => v.elim (.ok s) s.foldDecimal := by
    funext s d
    show (c.addend nullHandling d >>= fun v => .ok (v.elim .ok GroupSlot.foldDecimal)) >>=
      (fun fold => fold s) = _
    cases c.addend nullHandling d with
    | error e => rfl
    | ok v => cases v <;> rfl
  rw [hstep] at hok
  obtain ⟨_, hread, rfl⟩ := (Except.agree_mapM_foldlM (c.addend nullHandling)
    (fun (s : GroupSlot) p => p.2.elim (.ok s) s.foldDecimal) batch s).exists_ok hok
  obtain ⟨ds, hds, hfold⟩ := Except.bind_eq_ok.1 hread
  have hlength : batch.length = ds.length := (Except.mapM_eq_ok.1 hds).length_eq
  refine ⟨ds, (hcopies.decimals nullHandling).trans hds, ?_⟩
  rwa [← List.map_snd_zip hlength.ge, List.foldlM_map]

/-- **One block**: what can be taken in document by document can be taken
in as a block. -/
theorem Mirrors.exists_aggregate (hmirrors : Mirrors f h s) (haccepts : f.Accepts input)
    (hcopies : ∀ c, input = some c → c.Copies batch)
    (hok : batch.foldlM (takeIn f input) s = .ok s') :
    ∃ h', (f.aggregate batch.length (input.map (·.select batch)) h).toExcept = .ok h' ∧
      Mirrors f h' s' := by
  match f, hmirrors with
  | .count column, ⟨n, hh, hs⟩ =>
    exact ⟨_, toExcept_aggregate_count hh hcopies, _, rfl, value_of_takeIn_count hs hok⟩
  | .sumPrecision column precision scale nullHandling, ⟨total, hh, hadds⟩ =>
    obtain ⟨c, rfl⟩ := Option.isSome_iff_exists.1 haccepts
    obtain ⟨ds, hds, hfold⟩ := decimals_of_takeIn (hcopies c rfl) hok
    obtain ⟨h', total', hadded, hh', hadds'⟩ := hadds.exists_addDecimals hfold
    refine ⟨h', ?_, total', hh', hadds'⟩
    rw [aggregate, Option.map_some]
    simpa only [requireInput, hds, hh, Accumulator.toDecimal] using hadded

/-- **All blocks**: documents that can be taken in one by one can be taken
in block by block, wherever the blocks are cut. -/
theorem Mirrors.exists_foldlM {batches : List (List Nat)} (hmirrors : Mirrors f h s)
    (haccepts : f.Accepts input)
    (hcopies : ∀ batch ∈ batches, ∀ c, input = some c → c.Copies batch)
    (hok : batches.flatten.foldlM (takeIn f input) s = .ok s') :
    ∃ h', batches.foldlM (fun h batch =>
        (f.aggregate batch.length (input.map (·.select batch)) h).toExcept) h = .ok h' ∧
      Mirrors f h' s' := by
  have hflat : batches.foldlM (fun s batch => batch.foldlM (takeIn f input) s) s = .ok s' := by
    rwa [← Except.foldlM_flatten]
  exact Except.exists_foldlM (R := fun s h => Mirrors f h s) hmirrors
    (fun s h hmirrors batch hbatch s' hok =>
      hmirrors.exists_aggregate haccepts (hcopies batch hbatch) hok) hflat

end AggregateFunction

namespace GroupBy

/-! ## Whole runs -/

/-- **A group counts and adds as a scan of its documents does.** In the
table that a grouping makes, the cell of a count or of a decimal sum is
what a holder yields that has taken in the documents of the group's tuple,
in document order and each as often as it belongs to the tuple, in
whatever blocks. A block has no more documents than 32 bits can number, as
the positions of its nulls do. -/
theorem extract_of_run {s : MemorySegment} {groupBy : List String}
    {functions : List AggregateFunction} {options : Options} {r : PartialResult}
    (h : (run s.segment groupBy functions options).value = .ok r) :
    ∃ t, r.rows = .groupBy t ∧ ∀ group ∈ t.groups, ∀ (j : Nat) (f : AggregateFunction),
      functions[j]? = some f → f.Exact →
      ∃ cell, group.2[j]? = some cell ∧ ∀ batches : List (List Nat),
        batches.flatten = occurrences s options.nullHandling groupBy s.matching group.1 →
        (∀ batch ∈ batches, batch.length ≤ Number.bound32) →
        ∃ holder, batches.foldlM (fun h batch => (f.aggregate batch.length
            ((f.columnIn s options.nullHandling).map (·.select batch)) h).toExcept) f.holder =
          .ok holder ∧ f.extract holder = cell := by
  obtain ⟨multiValue, columns, state, t, hschema, -, habsorbed, htable, hrows⟩ := absorbed_of_run h
  refine ⟨t, hrows, fun group hgroup j f hf hexact => ?_⟩
  obtain ⟨haccepts, slot, hslot, hcell⟩ := habsorbed.of_mem_groups
    (placeable_of_schema hschema options.nullHandling) htable hgroup hf
  refine ⟨_, hcell, fun batches hflatten hshort => ?_⟩
  have hcopies : ∀ batch ∈ batches, ∀ c, f.columnIn s options.nullHandling = some c →
      c.Copies batch := fun batch hbatch c hc => by
    refine AggregateFunction.copies_columnIn (fun d hd => ?_) (hshort batch hbatch) hc
    exact mem_of_mem_occurrences (hflatten ▸ List.mem_flatten_of_mem hbatch hd)
  obtain ⟨holder, hholder, hmirrors⟩ := (AggregateFunction.mirrors_fresh hexact).exists_foldlM
    haccepts hcopies (hflatten ▸ hslot)
  exact ⟨holder, hholder, hmirrors.extract_eq⟩

/-- Each group's decimal sum is that of its documents, one by one. -/
theorem extract_of_run_tagged :
    let f := AggregateFunction.sumPrecision "v" 0 none true
    let options : Options := { nullHandling := true }
    ∃ r t, (run tagged.segment ["tags"] [.count none, f] options).value = .ok r ∧
      r.rows = .groupBy t ∧ t.size = 3 ∧ ∀ group ∈ t.groups, ∃ holder,
        ((occurrences tagged true ["tags"] tagged.matching group.1).map ([·])).foldlM
            (fun h batch => (f.aggregate batch.length
              ((f.columnIn tagged true).map (·.select batch)) h).toExcept) f.holder = .ok holder ∧
          group.2[1]? = some (f.extract holder) := by
  intro f options
  have hrun : (run tagged.segment ["tags"] [.count none, f] options).value.toOption.map
      (·.rows.rows.length) = some 3 := by decide +kernel
  obtain ⟨r, hr, hlength⟩ := Option.map_eq_some_iff.1 hrun
  rw [Except.toOption_eq_some] at hr
  obtain ⟨t, hrows, hgroups⟩ := extract_of_run hr
  rw [hrows] at hlength
  refine ⟨r, t, hr, hrows, (List.length_map _).symm.trans hlength, fun group hgroup => ?_⟩
  obtain ⟨cell, hcell, hscalar⟩ := hgroups group hgroup 1 f rfl trivial
  have hshort : ∀ batch ∈ (occurrences tagged true ["tags"] tagged.matching group.1).map ([·]),
      batch.length ≤ Number.bound32 := by
    intro batch hbatch
    obtain ⟨d, -, rfl⟩ := List.mem_map.1 hbatch
    exact show 1 ≤ Number.bound32 by decide
  obtain ⟨holder, hholder, rfl⟩ := hscalar _ (by simp [← List.flatMap_def, options]) hshort
  exact ⟨holder, hholder, hcell⟩

end GroupBy

end SegmentQuery
