import SegmentQuery.Operator.Selection
import SegmentQuery.Proofs.Heap.Offer
import SegmentQuery.Proofs.Selection.Arena
/-!
# The first of two passes

The first pass heaps candidates, whose rows live elsewhere and are
ordered by their places. Seen by their documents the candidates are a
heap of documents ordered by their rows: `Tracks` is that view, and every
offer keeps it.
-/


namespace SegmentQuery

open Std (TransCmp)

namespace Selection

namespace Plan

/-- The candidates, seen by document, are this heap of documents, and
each one has the row of its document at a place of its own. -/
structure FirstPass.Tracks (read : Nat → Row) (state : FirstPass) (documents : TopK Nat) :
    Prop where
  heap_eq : state.heap.map Candidate.document = documents
  holds : state.arena.Holds (state.heap.toList.map Candidate.place)
  rows : ∀ c ∈ state.heap.toList, state.arena.get c.place = read c.document
  size_le : state.heap.items.size ≤ state.heap.maximum

variable {read : Nat → Row} {state : FirstPass} {documents : TopK Nat} {order : RowOrder}

theorem tracks_empty (keep : Nat) : FirstPass.Tracks read ⟨.empty keep, .empty⟩ (.empty keep) where
  heap_eq := TopK.map_empty _ _
  holds := RowArena.holds_empty
  rows := by simp
  size_le := Nat.zero_le _

/-- Documents in the order of their rows. -/
def documentOrder (order : RowOrder) (read : Nat → Row) (x y : Nat) : Ordering :=
  order.compare (read x) (read y)

/-- A row that is turned away at the door would not have been kept. -/
theorem offer_of_refuses (h : FirstPass.Tracks read state documents) {d : Nat}
    (hrefuse : refuses order state (read d)) :
    (documents.offer (documentOrder order read) d).2 = documents := by
  obtain ⟨heap_eq, holds, rows, size_le⟩ := h
  unfold refuses at hrefuse
  split at hrefuse
  · rename_i worst hworst
    obtain ⟨hfull, hnotlt⟩ := Bool.and_eq_true_iff.1 hrefuse
    have hmem : worst ∈ state.heap.toList := Array.mem_toList_iff.2 (Array.mem_of_getElem? hworst)
    rw [rows worst hmem] at hnotlt
    subst heap_eq
    have hsize : (state.heap.map Candidate.document).items.size = state.heap.items.size := by
      simp [TopK.map]
    have hfull' : state.heap.maximum ≤ state.heap.items.size := of_decide_eq_true hfull
    have hbound : (state.heap.map Candidate.document).items.size ≤
        (state.heap.map Candidate.document).maximum := by rwa [hsize]
    have hworst' : (state.heap.map Candidate.document).worst? = some worst.document := by
      simp only [TopK.worst?] at hworst ⊢
      simp [TopK.map, hworst]
    have hworse : documentOrder order read d worst.document ≠ .lt := by
      simpa [documentOrder] using hnotlt
    -- the heap is full, and its root is what the document was compared with
    rcases TopK.offer_cases (documentOrder order read) hbound d with ⟨hroom, -⟩ |
      ⟨-, root, rest, hlist, hlt, -⟩ | ⟨-, hsame, -⟩
    · rw [hsize] at hroom
      exact absurd hroom (Nat.not_lt.2 hfull')
    · have hroot : (state.heap.map Candidate.document).worst? = some root := by
        rw [TopK.worst?_eq_head?, hlist, List.head?_cons]
      obtain rfl : worst.document = root := Option.some.inj (hworst'.symm.trans hroot)
      exact absurd hlt hworse
    · rw [hsame]
  · exact absurd hrefuse (by simp)

/-- **An offered candidate is an offered document.** -/
theorem tracks_offerCandidate (h : FirstPass.Tracks read state documents) (d : Nat) :
    FirstPass.Tracks read (offerCandidate order state d (read d))
      (documents.offer (documentOrder order read) d).2 := by
  rw [offerCandidate]
  by_cases hrefuse : refuses order state (read d)
  · rw [if_pos hrefuse, offer_of_refuses h hrefuse]
    exact h
  · rw [if_neg hrefuse]
    obtain ⟨heap_eq, holds, rows, size_le⟩ := h
    obtain ⟨hholds, hnew, hold⟩ := RowArena.insert_spec holds (read d)
    generalize state.arena.insert (read d) = stored at hholds hnew hold ⊢
    obtain ⟨place, arena⟩ := stored
    simp only at hholds hnew hold ⊢
    -- every candidate involved has the row of its document
    have hrows : ∀ c ∈ (⟨d, place⟩ : Candidate) :: state.heap.toList,
        arena.get c.place = read c.document := by
      intro c hc
      rcases List.mem_cons.1 hc with rfl | hc
      · exact hnew
      · rw [hold c.place (List.mem_map_of_mem hc)]
        exact rows c hc
    have hmap := @TopK.offer_map _ _ (compareIn order arena) (documentOrder order read)
      Candidate.document state.heap ⟨d, place⟩ fun x hx y hy => by
        rw [compareIn, hrows x hx, hrows y hy]
        rfl
    have hbound := TopK.size_offer_le (compareIn order arena) size_le ⟨d, place⟩
    rw [← heap_eq, hmap]
    rcases TopK.offer_cases (compareIn order arena) size_le ⟨d, place⟩ with
      ⟨-, hout, hperm⟩ | ⟨-, root, rest, hlist, -, hout, hperm⟩ | ⟨-, hsame, -⟩
    · -- one more candidate, in a place of its own
      rw [hout]
      refine ⟨rfl, hholds.perm ?_, fun c hc => hrows c ?_, hbound⟩
      · exact (hperm.trans (List.perm_append_singleton _ _)).map Candidate.place
      · exact (hperm.trans (List.perm_append_singleton _ _)).mem_iff.1 hc
    · -- the root leaves and its place is free again
      rw [hout]
      have hin {c : Candidate} (hc : c ∈ rest) : c ∈ state.heap.toList := by
        rw [hlist]
        exact List.mem_cons_of_mem root hc
      refine ⟨rfl, RowArena.Holds.release (hholds.perm ?_), fun c hc => ?_, hbound⟩
      · rw [hlist]
        exact ((hperm.map Candidate.place).cons root.place).trans (List.Perm.swap _ _ _)
      · rw [RowArena.get_release]
        rcases List.mem_cons.1 (hperm.mem_iff.1 hc) with rfl | hc
        · exact hrows _ List.mem_cons_self
        · exact hrows c (List.mem_cons_of_mem _ (hin hc))
    · -- turned away, and the place just taken is free again
      rw [hsame]
      exact ⟨rfl, hholds.release, fun c hc => hrows c (List.mem_cons_of_mem _ hc), size_le⟩

/-- **Offered candidates are offered documents**, over a whole scan. -/
theorem tracks_foldl (h : FirstPass.Tracks read state documents) (ds : List Nat) :
    FirstPass.Tracks read (ds.foldl (fun state d => offerCandidate order state d (read d)) state)
      (documents.offerAll (documentOrder order read) ds) := by
  induction ds generalizing state documents with
  | nil => exact h
  | cons d ds ih => exact ih (tracks_offerCandidate h d)

end Plan

end Selection

end SegmentQuery
