import SegmentQuery.Operator.Selection
import SegmentQuery.Proofs.Segment.Scans
import SegmentQuery.Proofs.Selection.Arena
/-!
# The second of two passes

The second pass visits the survivors' documents in order and completes
the row at each survivor's place. The cursor over the survivors keeps in
step with the documents, so every row gets the cells of its own document
and no other row changes.
-/


namespace SegmentQuery

/-- The set of an ascending list is that list. -/
theorem DocSet.toList_ofList {ns : List Nat} (h : ns.Pairwise (· < ·)) :
    (DocSet.ofList ns).toList = ns := by
  induction ns with
  | nil => rfl
  | cons n rest ih =>
    obtain ⟨hn, hrest⟩ := List.pairwise_cons.1 h
    have hcons : (DocSet.ofList (n :: rest)).toList =
        DocSet.insertSorted n (DocSet.ofList rest).toList := rfl
    rw [hcons, ih hrest]
    cases rest with
    | nil => rfl
    | cons m more => rw [DocSet.insertSorted, if_pos (hn m List.mem_cons_self)]

namespace Selection

namespace Plan

variable {p : Plan}

/-- What completing some candidates makes of a row storage: their rows
are complete, and the rows elsewhere are as before. -/
structure Completes (complete : Nat → Row) (done : List Candidate) (before after : RowArena) :
    Prop where
  size_eq : after.rows.size = before.rows.size
  rows : ∀ c ∈ done, after.get c.place = complete c.document
  others : ∀ place, place ∉ done.map Candidate.place → after.get place = before.get place

theorem completes_nil (complete : Nat → Row) (arena : RowArena) :
    Completes complete [] arena arena :=
  ⟨rfl, by simp, fun _ _ => rfl⟩

/-- Completing some candidates and then others completes all of them. -/
theorem Completes.trans {complete : Nat → Row} {done more : List Candidate} {a b c : RowArena}
    (h1 : Completes complete done a b) (h2 : Completes complete more b c)
    (hnodup : ((done ++ more).map Candidate.place).Nodup) :
    Completes complete (done ++ more) a c where
  size_eq := h2.size_eq.trans h1.size_eq
  rows := by
    intro x hx
    rcases List.mem_append.1 hx with hx | hx
    · rw [h2.others x.place fun hmem => ?_]
      · exact h1.rows x hx
      · rw [List.map_append] at hnodup
        exact (List.nodup_append.1 hnodup).2.2 x.place (List.mem_map_of_mem hx) x.place hmem rfl
    · exact h2.rows x hx
  others := by
    intro place hplace
    rw [List.map_append, List.mem_append, not_or] at hplace
    rw [h2.others place hplace.2, h1.others place hplace.1]

/-- **A block completes the survivors of its documents**, which are the
next ones, and leaves the others waiting. -/
theorem completeBlock_ok {view : RowView} {read complete rest : Nat → Row}
    {pairs : List (Nat × Nat)} {now later : List Candidate} {arena : RowArena}
    (hdocs : now.map Candidate.document = pairs.map Prod.fst)
    (hview : ∀ pair ∈ pairs, view.row pair.2 = .ok (rest pair.1))
    (hfit : ∀ d, p.orderWidth + view.width ≤ (read d).length)
    (hcomplete : ∀ d, (read d).take p.orderWidth ++
      (rest d ++ (read d).drop (p.orderWidth + (rest d).length)) = complete d)
    (hnodup : (now.map Candidate.place).Nodup)
    (hlt : ∀ c ∈ now, c.place < arena.rows.size)
    (hread : ∀ c ∈ now, arena.get c.place = read c.document) :
    ∃ after, p.completeBlock view pairs (now ++ later) arena = .ok (later, after) ∧
      Completes complete now arena after := by
  induction pairs generalizing now arena with
  | nil =>
    obtain rfl : now = [] := List.map_eq_nil_iff.1 hdocs
    exact ⟨arena, rfl, completes_nil complete arena⟩
  | cons pair pairs ih =>
    obtain ⟨d, position⟩ := pair
    cases now with
    | nil => exact absurd hdocs (by simp)
    | cons c now =>
      rw [List.map_cons, List.map_cons, List.cons.injEq] at hdocs
      obtain ⟨rfl, hdocs⟩ := hdocs
      -- the document is the next survivor's; the others wait in other places
      rw [List.map_cons, List.nodup_cons] at hnodup
      obtain ⟨hrow, hview⟩ := List.forall_mem_cons.1 hview
      obtain ⟨hclt, hlt⟩ := List.forall_mem_cons.1 hlt
      obtain ⟨hcread, hread⟩ := List.forall_mem_cons.1 hread
      have hfill := RowView.fill_ok hrow (hfit c.document)
      rw [hcomplete] at hfill
      have hone : Completes complete [c] arena (arena.set c.place (complete c.document)) := by
        refine ⟨RowArena.size_set _ _ _, ?_, ?_⟩
        · intro x hx
          rw [List.mem_singleton.1 hx]
          exact RowArena.get_set_self hclt _
        · intro place hplace
          exact RowArena.get_set_of_ne (by simpa using hplace) _
      obtain ⟨after, hafter, hcompletes⟩ := @ih now (arena.set c.place (complete c.document)) hdocs
        hview hnodup.2
        (fun x hx => by rw [RowArena.size_set]; exact hlt x hx)
        (fun x hx => by
          rw [RowArena.get_set_of_ne]
          · exact hread x hx
          · intro heq
            exact hnodup.1 (heq ▸ List.mem_map_of_mem hx))
      refine ⟨after, ?_, hone.trans hcompletes ?_⟩
      · rw [List.cons_append, completeBlock]
        simp only [ne_eq, not_true_eq_false, if_false, hcread, hfill]
        exact hafter
      · rw [List.singleton_append, List.map_cons, List.nodup_cons]
        exact hnodup

/-- **The pass over all blocks completes all survivors.** -/
theorem completeAll_ok {read complete rest : Nat → Row} {width : Nat} {blocks : List Block}
    {waiting : List Candidate} {arena : RowArena}
    (hviews : ∀ b ∈ blocks, ∃ view, b.Reads width rest view)
    (hdocs : waiting.map Candidate.document = blocks.flatMap Block.documents)
    (hfit : ∀ d, p.orderWidth + width ≤ (read d).length)
    (hcomplete : ∀ d, (read d).take p.orderWidth ++
      (rest d ++ (read d).drop (p.orderWidth + (rest d).length)) = complete d)
    (hnodup : (waiting.map Candidate.place).Nodup)
    (hlt : ∀ c ∈ waiting, c.place < arena.rows.size)
    (hread : ∀ c ∈ waiting, arena.get c.place = read c.document) :
    ∃ after, p.completeAll waiting arena (blocks.map .ok) = .ok (after, waiting.length) ∧
      Completes complete waiting arena after := by
  induction blocks generalizing waiting arena with
  | nil =>
    obtain rfl : waiting = [] := List.map_eq_nil_iff.1 hdocs
    exact ⟨arena, rfl, completes_nil complete arena⟩
  | cons b blocks ih =>
    obtain ⟨⟨view, hreads⟩, hviews⟩ := List.forall_mem_cons.1 hviews
    -- the survivors of this block stand first
    obtain ⟨now, later, rfl, hnow, hlater⟩ := List.map_eq_append_iff.1 hdocs
    rw [List.map_append] at hnodup
    obtain ⟨hnodup1, hnodup2, hapart⟩ := List.nodup_append.1 hnodup
    obtain ⟨middle, hmiddle, hcompletes⟩ : ∃ middle,
        p.completeBlock view b.documents.zipIdx (now ++ later) arena = .ok (later, middle) ∧
          Completes complete now arena middle :=
      completeBlock_ok (by simpa using hnow) (fun pair hpair => hreads.row_of_mem hpair)
        (by rw [hreads.width_eq]; exact hfit) hcomplete hnodup1
        (fun c hc => hlt c (List.mem_append_left _ hc))
        (fun c hc => hread c (List.mem_append_left _ hc))
    obtain ⟨after, hafter, hcompletes'⟩ := @ih later middle hviews hlater hnodup2
      (fun c hc => by rw [hcompletes.size_eq]; exact hlt c (List.mem_append_right _ hc))
      (fun c hc => by
        rw [hcompletes.others]
        · exact hread c (List.mem_append_right _ hc)
        · intro hmem
          exact hapart c.place hmem c.place (List.mem_map_of_mem hc) rfl)
    refine ⟨after, ?_, hcompletes.trans hcompletes' (by rwa [List.map_append])⟩
    have hsize : (now ++ later).length = b.size + later.length := by
      rw [List.length_append, Block.size, ← hnow, List.length_map]
    rw [List.map_cons, completeAll, hsize]
    simp only [bind, Except.bind, hreads.view_eq, hmiddle, hafter]
    rfl

end Plan

end Selection

end SegmentQuery
