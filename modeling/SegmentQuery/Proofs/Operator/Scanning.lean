import SegmentQuery.Operator.Scan
import SegmentQuery.Proofs.Except
/-!
# Scans as folds

A scan whose steps take in a block document by document is a fold over
the documents of all blocks, however they are cut. One that stops after
so many documents is a fold over the first ones.
-/


namespace SegmentQuery

variable {σ : Type} {P : σ → Prop} {g : σ → Nat → σ}

theorem foldl_preserves {α : Type} {g : σ → α → σ} (hg : ∀ s a, P s → P (g s a)) {s : σ} (hs : P s)
    (xs : List α) : P (xs.foldl g s) := by
  induction xs generalizing s with
  | nil => exact hs
  | cons x xs ih => exact ih (hg s x hs)

/-- **What every step of a scan keeps, a scan that goes through
keeps.** -/
theorem scanPulls_preserves {step : σ → Block → Traced (Except QueryError (Visit σ))}
    (hstep : ∀ s b visit, P s → (step s b).value = .ok visit → P visit.state)
    {pulls : List (Except QueryError Block)} {s t : σ} (hs : P s)
    (h : (scanPulls step s pulls).outcome = .ok t) : P t := by
  induction pulls generalizing s with
  | nil =>
    obtain rfl := Except.ok.inj h
    exact hs
  | cons pull rest ih =>
    cases pull with
    | error e => exact nomatch h
    | ok b =>
      rw [scanPulls] at h
      cases hvisit : (step s b).value with
      | error e =>
        rw [hvisit] at h
        exact nomatch h
      | ok visit =>
        rw [hvisit] at h
        have hnext := hstep s b visit hs hvisit
        unfold ScanRun.after at h
        by_cases hfinished : visit.finished = true
        · simp only [hfinished, if_true] at h
          obtain rfl := Except.ok.inj h
          exact hnext
        · simp only [hfinished] at h
          exact ih hnext h

/-- What every step keeps, the state of a finished scan has. -/
theorem scanWith_preserves (kind : OperatorKind) {source : Except QueryError BlockSource}
    {step : σ → Block → Traced (Except QueryError (Visit σ))}
    (hstep : ∀ s b visit, P s → (step s b).value = .ok visit → P visit.state) {s : σ} (hs : P s)
    {scanned : Scanned σ} (h : (scanWith kind source step s).value = .ok scanned) :
    P scanned.state := by
  cases source with
  | error e => exact nomatch h
  | ok source =>
    obtain ⟨t, hrun, rfl⟩ := Except.map_eq_ok.1 h
    exact scanPulls_preserves hstep hs hrun

/-- **What every step builds up over its block's documents, a scan that
goes through and never stops early builds up over all.** -/
theorem scanPulls_documents {step : σ → Block → Traced (Except QueryError (Visit σ))}
    {Q : List Nat → σ → Prop} {blocks : List Block}
    (hstep : ∀ seen s, Q seen s → ∀ b ∈ blocks, ∀ visit, (step s b).value = .ok visit →
      visit.finished = false ∧ Q (seen ++ b.documents) visit.state)
    {seen : List Nat} {s t : σ} (hs : Q seen s)
    (h : (scanPulls step s (blocks.map .ok)).outcome = .ok t) :
    Q (seen ++ blocks.flatMap Block.documents) t := by
  induction blocks generalizing seen s with
  | nil =>
    obtain rfl := Except.ok.inj h
    rwa [List.flatMap_nil, List.append_nil]
  | cons b rest ih =>
    rw [List.map_cons, scanPulls] at h
    cases hvisit : (step s b).value with
    | error e =>
      rw [hvisit] at h
      exact nomatch h
    | ok visit =>
      obtain ⟨hmore, hnext⟩ := hstep seen s hs b List.mem_cons_self visit hvisit
      rw [hvisit] at h
      simp only [hmore, ScanRun.after, Bool.false_eq_true, if_false] at h
      rw [List.flatMap_cons, ← List.append_assoc]
      exact ih (fun seen s hs b hb => hstep seen s hs b (List.mem_cons_of_mem _ hb)) hnext h

/-- **Where every step goes through, so does a scan that never stops
early**, and builds up what the steps do. A step may count on what came
before its block. -/
theorem scanPulls_reaches {step : σ → Block → Traced (Except QueryError (Visit σ))}
    {Q : List Nat → σ → Prop} {seen : List Nat} {blocks : List Block}
    (hstep : ∀ front b back, blocks = front ++ b :: back → ∀ s,
      Q (seen ++ front.flatMap Block.documents) s → ∃ visit, (step s b).value = .ok visit ∧
        visit.finished = false ∧
        Q (seen ++ front.flatMap Block.documents ++ b.documents) visit.state)
    {s : σ} (hs : Q seen s) :
    ∃ t, (scanPulls step s (blocks.map .ok)).outcome = .ok t ∧
      Q (seen ++ blocks.flatMap Block.documents) t := by
  induction blocks generalizing seen s with
  | nil => exact ⟨s, rfl, by rwa [List.flatMap_nil, List.append_nil]⟩
  | cons b rest ih =>
    obtain ⟨visit, hvisit, hmore, hnext⟩ := hstep [] b rest rfl s (by simpa using hs)
    rw [List.flatMap_nil, List.append_nil] at hnext
    obtain ⟨t, ht, hall⟩ := ih (fun front b' back hrest s hs => by
      have hcons := hstep (b :: front) b' back (congrArg (b :: ·) hrest) s
      rw [List.flatMap_cons, ← List.append_assoc] at hcons
      exact hcons hs) hnext
    refine ⟨t, ?_, ?_⟩
    · rw [List.map_cons, scanPulls]
      simp only [hvisit, hmore, ScanRun.after, Bool.false_eq_true, if_false]
      exact ht
    · rwa [List.flatMap_cons, ← List.append_assoc]

/-- Where every step goes through whatever came before, so does a scan
that never stops early. -/
theorem scanPulls_builds {step : σ → Block → Traced (Except QueryError (Visit σ))}
    {Q : List Nat → σ → Prop} {blocks : List Block}
    (hstep : ∀ seen s, Q seen s → ∀ b ∈ blocks, ∃ visit, (step s b).value = .ok visit ∧
      visit.finished = false ∧ Q (seen ++ b.documents) visit.state)
    {seen : List Nat} {s : σ} (hs : Q seen s) :
    ∃ t, (scanPulls step s (blocks.map .ok)).outcome = .ok t ∧
      Q (seen ++ blocks.flatMap Block.documents) t := by
  refine scanPulls_reaches (fun front b back hblocks s hs => ?_) hs
  exact hstep _ s hs b (hblocks ▸ List.mem_append_right front List.mem_cons_self)

/-- **A scan of whole blocks folds over their documents.** -/
theorem scanPulls_whole {step : σ → Block → Except QueryError (Visit σ)}
    (hg : ∀ s d, P s → P (g s d)) {blocks : List Block}
    (hstep : ∀ s, P s → ∀ b ∈ blocks, ∃ n, step s b = .ok ⟨b.documents.foldl g s, n, false⟩)
    {s : σ} (hs : P s) :
    (scanPulls (quietly step) s (blocks.map .ok)).outcome =
      .ok ((blocks.flatMap Block.documents).foldl g s) := by
  induction blocks generalizing s with
  | nil => rfl
  | cons b rest ih =>
    obtain ⟨n, hb⟩ := hstep s hs b List.mem_cons_self
    rw [List.map_cons, scanPulls, quietly, hb]
    simp only [Traced.silent, Bool.false_eq_true, if_false, ScanRun.after]
    rw [List.flatMap_cons, List.foldl_append]
    exact ih (fun s hs b hb => hstep s hs b (List.mem_cons_of_mem _ hb))
      (foldl_preserves hg hs b.documents)

/-- **A scan that stops after `keep` documents folds over the first
ones.** -/
theorem scanPulls_front {step : σ × Nat → Block → Except QueryError (Visit (σ × Nat))} {keep : Nat}
    (hg : ∀ s d, P s → P (g s d)) {blocks : List Block}
    (hstep : ∀ s n, P s → ∀ b ∈ blocks, ∃ m, step (s, n) b =
      .ok ⟨((b.documents.take (keep - n)).foldl g s, n + min b.size (keep - n)), m,
        decide (keep ≤ n + min b.size (keep - n))⟩)
    {s : σ} (hs : P s) {n : Nat} (hn : n < keep) :
    ∃ m, (scanPulls (quietly step) (s, n) (blocks.map .ok)).outcome =
      .ok (((blocks.flatMap Block.documents).take (keep - n)).foldl g s, m) := by
  induction blocks generalizing s n with
  | nil => exact ⟨n, by simp [scanPulls, ScanRun.ending]⟩
  | cons b rest ih =>
    obtain ⟨m, hb⟩ := hstep s n hs b List.mem_cons_self
    have hsize : b.size = b.documents.length := rfl
    rw [List.map_cons, scanPulls, quietly, hb]
    simp only [Traced.silent, ScanRun.after, List.flatMap_cons]
    by_cases hdone : keep ≤ n + min b.size (keep - n)
    · -- the block reaches as far as is asked for
      refine ⟨n + min b.size (keep - n), ?_⟩
      rw [decide_eq_true hdone, if_pos rfl, List.take_append_of_le_length (by omega)]
      rfl
    · rw [decide_eq_false hdone]
      simp only [Bool.false_eq_true, if_false]
      have hall : b.documents.take (keep - n) = b.documents := List.take_of_length_le (by omega)
      obtain ⟨m', hrest⟩ := ih (fun s n hs b hb => hstep s n hs b (List.mem_cons_of_mem _ hb))
        (foldl_preserves hg hs (b.documents.take (keep - n)))
        (show n + min b.size (keep - n) < keep by omega)
      refine ⟨m', hrest.trans ?_⟩
      rw [List.take_append, List.foldl_append, hall,
        show keep - n - b.documents.length = keep - (n + min b.size (keep - n)) by omega]

/-- A scan that goes through yields its outcome. -/
theorem scanWith_value (kind : OperatorKind) {source : BlockSource}
    {step : σ → Block → Traced (Except QueryError (Visit σ))} {s t : σ}
    (h : (scanPulls step s source.pulls).outcome = .ok t) :
    ∃ documents, (scanWith kind (.ok source) step s).value = .ok ⟨t, documents, source⟩ := by
  refine ⟨(scanPulls step s source.pulls).documents, ?_⟩
  simp only [scanWith, h, Except.map]

/-- A walk over the first positions of a list that goes through is a
fold over its first items. -/
theorem foldlM_range {ε α : Type} {f : σ → Nat → Except ε σ} {g : σ → α → σ} {xs : List α}
    (hg : ∀ s a, P s → P (g s a))
    (hf : ∀ s, P s → ∀ (i : Nat) (hi : i < xs.length), f s i = .ok (g s xs[i])) {s : σ} (hs : P s)
    {n : Nat} (hn : n ≤ xs.length) :
    (List.range n).foldlM f s = .ok ((xs.take n).foldl g s) := by
  induction n with
  | zero => rfl
  | succ n ih =>
    have hlt : n < xs.length := by omega
    rw [List.range_succ, List.foldlM_append, ih (by omega), List.take_succ_eq_append_getElem hlt,
      List.foldl_append]
    have := hf _ (foldl_preserves hg hs (xs.take n)) n hlt
    simp only [List.foldlM_cons, List.foldlM_nil, bind, Except.bind, this]
    rfl

end SegmentQuery
