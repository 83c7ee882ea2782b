import SegmentQuery.Proofs.Heap.Sift
import SegmentQuery.Proofs.Order.Sorting
/-!
# Offering

A bounded heap that items are offered to holds the best of them, as many
as it has room for, and hands all others back. Offering commutes with a
change of the items that keeps the order of those involved.
-/


namespace SegmentQuery

open Std (TransCmp OrientedCmp ReflCmp)

/-- An outcome with its item changed. -/
def Offer.map {α β : Type} (f : α → β) : Offer α → Offer β
  | .inserted => .inserted
  | .replaced evicted => .replaced (f evicted)
  | .rejected item => .rejected (f item)

/-- The item that an offer hands back, be it the one offered or one that
makes way for it. -/
def Offer.handedBack {α : Type} : Offer α → List α
  | .inserted => []
  | .replaced evicted => [evicted]
  | .rejected item => [item]

namespace TopK

variable {α β : Type} {order : α → α → Ordering}

/-- What a heap hands back that items are offered to in order. -/
def handedBack (order : α → α → Ordering) (h : TopK α) : List α → List α
  | [] => []
  | item :: items =>
    (h.offer order item).1.handedBack ++ (h.offer order item).2.handedBack order items

/-- A heap within its bounds and in heap order. -/
structure Valid (order : α → α → Ordering) (h : TopK α) : Prop where
  ordered : HeapOrdered order h.items
  size_le : h.items.size ≤ h.maximum

theorem valid_empty (maximum : Nat) : Valid order (empty maximum) where
  ordered := ⟨fun j _ hj => absurd hj (by simp [empty])⟩
  size_le := Nat.zero_le _

@[simp] theorem toList_empty (maximum : Nat) : (empty maximum : TopK α).toList = [] := rfl

/-- The worst item is the first one of the layout. -/
theorem worst?_eq_head? (h : TopK α) : h.worst? = h.toList.head? := by
  rw [worst?, ← Array.getElem?_toList, toList, List.head?_eq_getElem?]

/-- Offering does not change how many items there may be. -/
@[simp] theorem maximum_offer (h : TopK α) (item : α) :
    (h.offer order item).2.maximum = h.maximum := by
  unfold offer
  split
  · rfl
  · split
    · rfl
    · split
      · split <;> rfl
      · rfl

@[simp] theorem offerAll_cons (h : TopK α) (item : α) (items : List α) :
    h.offerAll order (item :: items) = (h.offer order item).2.offerAll order items := rfl

/-! ## One offer -/

/-- An item at the end is ready to be sifted up. -/
theorem HeapOrdered.push {a : Array α} (h : HeapOrdered order a) (item : α)
    (hlast : a.size < (a.push item).size) : UpReady order (a.push item) a.size hlast where
  off := by
    intro j hj hj0 hne
    rw [Array.size_push] at hj
    rw [Array.getElem_push_lt (by omega), Array.getElem_push_lt (by omega)]
    exact h.le j _ (by omega) (by omega) hj0 rfl
  grand := by
    intro j hj _ hpj _
    rw [Array.size_push] at hj
    omega

/-- An item in place of the root is ready to be sifted down. -/
theorem HeapOrdered.setRoot {a : Array α} (h : HeapOrdered order a) (hpos : 0 < a.size) (item : α) :
    DownReady order (a.set 0 item) 0 (by simpa using hpos) where
  off := by
    intro j hj hj0 hne
    rw [Array.size_set] at hj
    rw [Array.getElem_set_ne (by omega) (by omega) (by omega),
      Array.getElem_set_ne (by omega) (by omega) (by omega)]
    exact h.le j _ hj (by omega) hj0 rfl
  grand := fun _ _ _ _ hpos' => absurd hpos' (Nat.lt_irrefl 0)

/-- **What one offer does.** Either the item is added to a heap with room
for it, or it takes the place of a root that it is better than, or it is
no better than the root of a full heap and nothing changes. -/
theorem offer_cases (order : α → α → Ordering) {h : TopK α} (hsize : h.items.size ≤ h.maximum)
    (item : α) :
    (h.items.size < h.maximum ∧ (h.offer order item).1 = .inserted ∧
      (h.offer order item).2.toList.Perm (h.toList ++ [item])) ∨
    (h.items.size = h.maximum ∧ ∃ root rest, h.toList = root :: rest ∧ order item root = .lt ∧
      (h.offer order item).1 = .replaced root ∧
      (h.offer order item).2.toList.Perm (item :: rest)) ∨
    (h.items.size = h.maximum ∧ h.offer order item = (.rejected item, h) ∧
      ∀ root, h.worst? = some root → order item root ≠ .lt) := by
  obtain ⟨items, maximum⟩ := h
  simp only [toList, worst?] at hsize ⊢
  by_cases hroom : items.size < maximum
  · refine .inl ⟨hroom, ?_⟩
    rw [offer, if_neg (by simp only; omega), if_pos hroom]
    refine ⟨rfl, ?_⟩
    simpa using (siftUp_perm order (items.push item) items.size (by simp)).toList
  · right
    have hfull : items.size = maximum := by omega
    rcases items with ⟨_ | ⟨root, rest⟩⟩
    · have hzero : maximum = 0 := hfull.symm
      exact .inr ⟨hfull, by simp [offer, hzero], by simp⟩
    · have hzero : maximum ≠ 0 := by
        rintro rfl
        exact absurd hfull (by simp)
      have hpos : 0 < (Array.mk (root :: rest)).size := by simp
      by_cases hlt : order item root = .lt
      · refine .inl ⟨hfull, root, rest, rfl, hlt, ?_⟩
        rw [offer, if_neg hzero, if_neg hroom, dif_pos hpos]
        rw [if_pos (show order item (Array.mk (root :: rest))[0] = .lt from hlt)]
        exact ⟨rfl, (siftDown_perm order _ _ _).toList⟩
      · refine .inr ⟨hfull, ?_, ?_⟩
        · rw [offer, if_neg hzero, if_neg hroom, dif_pos hpos]
          exact if_neg hlt
        · intro root' hroot'
          rwa [← Option.some.inj hroot']

/-- What a heap holds after an offer, it held before or was offered. -/
theorem mem_offer {h : TopK α} (hsize : h.items.size ≤ h.maximum) {item x : α}
    (hx : x ∈ (h.offer order item).2.toList) : x ∈ h.toList ∨ x = item := by
  rcases offer_cases order hsize item with ⟨-, -, hperm⟩ | ⟨-, root, rest, hlist, -, -, hperm⟩ |
    ⟨-, hsame, -⟩
  · simpa using hperm.mem_iff.1 hx
  · rw [hlist]
    rcases List.mem_cons.1 (hperm.mem_iff.1 hx) with rfl | hx
    · exact .inr rfl
    · exact .inl (List.mem_cons_of_mem _ hx)
  · rw [hsame] at hx
    exact .inl hx

/-- Offering stays within the bound. -/
theorem size_offer_le (order : α → α → Ordering) {h : TopK α} (hsize : h.items.size ≤ h.maximum)
    (item : α) :
    (h.offer order item).2.items.size ≤ (h.offer order item).2.maximum := by
  have hlen (h : TopK α) : h.items.size = h.toList.length := (Array.length_toList).symm
  rw [maximum_offer, hlen]
  rw [hlen] at hsize
  rcases offer_cases order hsize item with ⟨hroom, -, hperm⟩ |
    ⟨hfull, root, rest, hlist, -, -, hperm⟩ | ⟨-, hsame, -⟩
  · rw [hperm.length_eq, List.length_append, List.length_singleton]
    rw [hlen] at hroom
    omega
  · rw [hperm.length_eq]
    rw [hlist] at hsize
    exact hsize
  · rw [hsame]
    exact hsize

section

variable [TransCmp order]

/-- Offering keeps a heap a heap. -/
theorem Valid.offer {h : TopK α} (hv : Valid order h) (item : α) :
    Valid order (h.offer order item).2 := by
  obtain ⟨items, maximum⟩ := h
  obtain ⟨hordered, hsize⟩ := hv
  simp only at hordered hsize
  unfold TopK.offer
  split
  · exact ⟨hordered, hsize⟩
  · split
    · rename_i hroom
      refine ⟨siftUp_heapOrdered (hordered.push item _), ?_⟩
      simp only at hroom ⊢
      have := (siftUp_perm order (items.push item) items.size (by simp)).size_eq
      simp only [Array.size_push] at this
      omega
    · split
      · rename_i hpos
        split
        · refine ⟨siftDown_heapOrdered (hordered.setRoot hpos item), ?_⟩
          have := (siftDown_perm order (items.set 0 item) 0 (by simpa using hpos)).size_eq
          simp only [Array.size_set] at this
          simp only
          omega
        · exact ⟨hordered, hsize⟩
      · exact ⟨hordered, hsize⟩

/-- Every item of a heap is at least as good as its root. -/
theorem Valid.isLE_worst {h : TopK α} (hv : Valid order h) {root : α} {rest : List α}
    (hlist : h.toList = root :: rest) : ∀ x ∈ h.toList, (order x root).isLE := by
  obtain ⟨⟨items⟩, maximum⟩ := h
  simp only [toList] at hlist ⊢
  subst hlist
  intro x hx
  obtain ⟨j, hj, rfl⟩ := List.mem_iff_getElem.1 hx
  exact hv.ordered.isLE_root (by simp) j hj

/-- **One offer** keeps the best of the old items and the new one, and hands
back the other one if there is no room. -/
theorem Valid.isBest_offer {h : TopK α} (hv : Valid order h) (item : α) :
    IsBest order h.maximum (h.toList ++ [item]) (h.offer order item).2.toList
      (h.offer order item).1.handedBack := by
  have hlen : h.toList.length = h.items.size := by simp [toList]
  rcases offer_cases order hv.size_le item with ⟨hroom, hout, hperm⟩ |
    ⟨hfull, root, rest, hlist, hlt, hout, hperm⟩ | ⟨hfull, hsame, hroot⟩
  · -- there is room, and nothing is handed back
    rw [hout]
    refine (IsBest.of_length_le ?_).congr_perm (.refl _) hperm
    simp only [List.length_append, List.length_singleton]
    omega
  · -- the root makes way
    rw [hout]
    have hbest : IsBest order h.maximum (h.toList ++ [item]) (item :: rest) [root] := by
      refine ⟨?_, ?_, ?_⟩
      · rw [hlist, List.cons_append, List.cons_append]
        have h1 : (root :: (rest ++ [item])).Perm (root :: item :: rest) :=
          (List.perm_append_singleton item rest).cons root
        have h2 : (item :: root :: rest).Perm (item :: (rest ++ [root])) :=
          (List.perm_append_singleton root rest).symm.cons item
        exact h1.trans ((List.Perm.swap item root rest).trans h2)
      · rw [hlist] at hlen ⊢
        simp only [List.length_cons, List.length_append, List.length_nil] at hlen ⊢
        omega
      · intro x hx y hy
        rw [List.mem_singleton.1 hy]
        rcases List.mem_cons.1 hx with rfl | hx
        · rw [hlt]; rfl
        · exact hv.isLE_worst hlist x (hlist ▸ List.mem_cons_of_mem root hx)
    exact hbest.congr_perm (.refl _) hperm
  · -- the item is turned away
    rw [hsame]
    refine ⟨.refl _, ?_, ?_⟩
    · rw [List.length_append, List.length_singleton]
      show h.toList.length = _
      omega
    · intro x hx y hy
      rw [List.mem_singleton.1 hy]
      -- the item is no better than the root, and the root is one of the worst
      cases hlist : h.toList with
      | nil => exact absurd (hlist ▸ hx) (by simp)
      | cons root rest =>
        have hworst : h.worst? = some root := by rw [worst?_eq_head?, hlist, List.head?_cons]
        have hle : (order root item).isLE := by
          rw [@OrientedCmp.eq_swap _ order _ root item, Ordering.isLE_swap, Ordering.isGE_iff_ne_lt]
          exact hroot root hworst
        exact TransCmp.isLE_trans (hv.isLE_worst hlist x hx) hle

/-! ## Offering many -/

theorem Valid.offerAll {h : TopK α} (hv : Valid order h) (items : List α) :
    Valid order (h.offerAll order items) := by
  induction items generalizing h with
  | nil => exact hv
  | cons item items ih => exact ih (hv.offer item)

/-- **A heap holds the best of what it held and what it was offered**, and
has handed back the rest. -/
theorem Valid.isBest_offerAll {h : TopK α} (hv : Valid order h) (items : List α) :
    IsBest order h.maximum (h.toList ++ items) (h.offerAll order items).toList
      (h.handedBack order items) := by
  induction items generalizing h with
  | nil =>
    rw [List.append_nil]
    exact IsBest.of_length_le (by simpa [toList] using hv.size_le)
  | cons item items ih =>
    have hrest := ih (hv.offer item)
    rw [maximum_offer] at hrest
    have hall := (hv.isBest_offer item).trans hrest
    rw [List.append_assoc, List.singleton_append] at hall
    exact hall.congr_dropped List.perm_append_comm

/-- A heap that started empty holds the best items offered to it. -/
theorem isBest_offerAll_empty (order : α → α → Ordering) [TransCmp order] (maximum : Nat)
    (items : List α) : IsBest order maximum items ((empty maximum).offerAll order items).toList
      ((empty maximum).handedBack order items) :=
  (valid_empty maximum).isBest_offerAll items

/-- **A bounded heap keeps the best and loses nothing.** After any items are
offered to an empty heap it holds as many as it may and there are; no item is
worse than its parent, so the root is a worst one; the items held and those
handed back are the items offered; none of those handed back is better than
one that is held; and what is held can be listed from best to worst. -/
theorem keepsBest_offerAll (order : α → α → Ordering) [TransCmp order] (maximum : Nat)
    (items : List α) :
    let h := (empty maximum).offerAll order items
    let back := (empty maximum).handedBack order items
    h.size = min maximum items.length ∧
    HeapOrdered order h.items ∧ (∀ root ∈ h.worst?, ∀ x ∈ h.toList, (order x root).isLE) ∧
    items.Perm (h.toList ++ back) ∧
    (∀ x ∈ back, ∀ y ∈ h.toList, order x y ≠ .lt) ∧
    (h.sorted order).Perm h.toList ∧ Ascending order (h.sorted order) := by
  intro h back
  have hvalid : Valid order h := (valid_empty maximum).offerAll items
  have hbest : IsBest order maximum items h.toList back := isBest_offerAll_empty order maximum items
  refine ⟨?_, hvalid.ordered, fun root hroot x hx => ?_, hbest.perm, fun x hx y hy hlt => ?_,
    List.mergeSort_perm _ _, ascending_mergeSort _⟩
  · rw [← hbest.length, toList, Array.length_toList]
    rfl
  · rw [worst?_eq_head?] at hroot
    obtain ⟨rest, hlist⟩ := List.head?_eq_some_iff.1 hroot
    exact hvalid.isLE_worst hlist x hx
  · have hle := hbest.le y hy x hx
    rw [@OrientedCmp.eq_swap _ order _ y x, hlt] at hle
    cases hle

/-- A heap of two: of the pairs that tie for second place it keeps the one
that was there first, and hands back the other one and the pair that made
way. -/
theorem keepsBest_offerAll_two :
    let order : Nat × Nat → Nat × Nat → Ordering := compareOn Prod.fst
    let items := [(3, 0), (2, 1), (1, 2), (2, 3)]
    let h := (empty 2).offerAll order items
    let back := (empty 2).handedBack order items
    h.toList = [(2, 1), (1, 2)] ∧ back = [(3, 0), (2, 3)] ∧ h.sorted order = [(1, 2), (2, 1)] ∧
    h.size = 2 ∧ HeapOrdered order h.items ∧ items.Perm (h.toList ++ back) ∧
    ∀ x ∈ back, ∀ y ∈ h.toList, order x y ≠ .lt := by
  intro order items h back
  obtain ⟨hsize, hordered, -, hperm, hback, -⟩ :=
    keepsBest_offerAll (compareOn Prod.fst) 2 [(3, 0), (2, 1), (1, 2), (2, 3)]
  have hkept : h.toList = [(2, 1), (1, 2)] := by decide +kernel
  have hsorted : h.sorted order = [(1, 2), (2, 1)] := by
    rw [sorted, ← toList, hkept]
    exact mergeSort_eq_of_ascending (.swap (1, 2) (2, 1) [])
      (List.pairwise_pair.2 (by decide)) (List.pairwise_pair.2 (by decide))
  exact ⟨hkept, by decide +kernel, hsorted, hsize, hordered, hperm, hback⟩

end

/-! ## Changing the items -/

@[simp] theorem map_empty (f : α → β) (maximum : Nat) : (empty maximum).map f = empty maximum := by
  simp [map, empty]

@[simp] theorem toList_map (f : α → β) (h : TopK α) : (h.map f).toList = h.toList.map f := by
  simp [map, toList]

theorem mk_toList (h : TopK α) : ⟨h.toList.toArray, h.maximum⟩ = h := by
  simp [toList]

section

variable {order' : β → β → Ordering} {f : α → β}

theorem map_swap {a : Array α} {i j : Nat} (hi : i < a.size) (hj : j < a.size) :
    (a.swap i j hi hj).map f = (a.map f).swap i j (by simpa using hi) (by simpa using hj) := by
  simp [Array.swap_def]

/-- Where a change of items keeps the order of an array's items, it
commutes with sifting up. -/
theorem siftUp_map {a : Array α} {i : Nat} (hi : i < a.size) (hi' : i < (a.map f).size)
    (hf : ∀ x ∈ a, ∀ y ∈ a, order' (f x) (f y) = order x y) :
    siftUp order' (a.map f) i hi' = (siftUp order a i hi).map f := by
  fun_induction siftUp order a i hi with
  | case1 a hi => rw [siftUp, dif_pos rfl]
  | case2 a i hi hne hp hgt ih =>
    have hmem {x : α} (hx : x ∈ a.swap i ((i - 1) / 2) hi hp) : x ∈ a :=
      (Array.swap_perm hi hp).mem_iff.1 hx
    rw [← ih (by simpa using hp) fun x hx y hy => hf x (hmem hx) y (hmem hy), siftUp, dif_neg hne]
    simp only [Array.getElem_map, hf _ (Array.getElem_mem hi) _ (Array.getElem_mem hp), hgt, if_true,
      map_swap]
  | case3 a i hi hne hp hle =>
    rw [siftUp, dif_neg hne]
    simp only [Array.getElem_map, hf _ (Array.getElem_mem hi) _ (Array.getElem_mem hp), hle, if_false]

/-- The search for the worst item looks at the order alone. -/
theorem worstOf_map {a : Array α} {i : Nat} (hi : i < a.size) (hi' : i < (a.map f).size)
    (hf : ∀ x ∈ a, ∀ y ∈ a, order' (f x) (f y) = order x y) :
    (worstOf order' (a.map f) i hi').1 = (worstOf order a i hi).1 := by
  have hord {j k : Nat} (hj : j < a.size) (hk : k < a.size) :
      order' (f a[j]) (f a[k]) = order a[j] a[k] :=
    hf _ (Array.getElem_mem hj) _ (Array.getElem_mem hk)
  unfold worstOf
  by_cases hl : 2 * i + 1 < a.size <;> by_cases hr : 2 * i + 2 < a.size
  · by_cases hgl : order a[2 * i + 1] a[i] = .gt
    · by_cases hgr : order a[2 * i + 2] a[2 * i + 1] = .gt <;> simp [hl, hr, hord, hgl, hgr]
    · by_cases hgr : order a[2 * i + 2] a[i] = .gt <;> simp [hl, hr, hord, hgl, hgr]
  · by_cases hgl : order a[2 * i + 1] a[i] = .gt <;> simp [hl, hr, hord, hgl]
  · omega
  · simp [hl, hr]

/-- Where a change of items keeps the order of an array's items, it
commutes with sifting down. -/
theorem siftDown_map {a : Array α} {i : Nat} (hi : i < a.size) (hi' : i < (a.map f).size)
    (hf : ∀ x ∈ a, ∀ y ∈ a, order' (f x) (f y) = order x y) :
    siftDown order' (a.map f) i hi' = (siftDown order a i hi).map f := by
  fun_induction siftDown order a i hi with
  | case1 a i hi hstop =>
    rw [siftDown, dif_pos ((worstOf_map hi hi' hf).trans hstop)]
  | case2 a i hi hmoves hlt ih =>
    have hmem {x : α} (hx : x ∈ a.swap i (worstOf order a i hi).1 hi hlt) : x ∈ a :=
      (Array.swap_perm hi hlt).mem_iff.1 hx
    have hworst := worstOf_map hi hi' hf
    rw [← ih (by simpa using hlt) fun x hx y hy => hf x (hmem hx) y (hmem hy), siftDown,
      dif_neg (by rwa [hworst])]
    simp only [hworst, map_swap]

/-- **Offering commutes with a change of items that keeps their
order.** -/
theorem offer_map {h : TopK α} {item : α}
    (hf : ∀ x ∈ item :: h.toList, ∀ y ∈ item :: h.toList, order' (f x) (f y) = order x y) :
    (h.map f).offer order' (f item) =
      ((h.offer order item).1.map f, (h.offer order item).2.map f) := by
  obtain ⟨items, maximum⟩ := h
  simp only [toList] at hf
  have hmem {x : α} (hx : x ∈ items) : x ∈ item :: items.toList :=
    List.mem_cons_of_mem item (Array.mem_toList_iff.2 hx)
  by_cases hzero : maximum = 0
  · simp [offer, map, hzero, Offer.map]
  · by_cases hroom : items.size < maximum
    · have hpush {x : α} (hx : x ∈ items.push item) : x ∈ item :: items.toList := by
        rcases Array.mem_push.1 hx with hx | rfl
        · exact hmem hx
        · exact List.mem_cons_self
      have : siftUp order' ((items.push item).map f) items.size (by simp) =
          (siftUp order (items.push item) items.size (by simp)).map f :=
        siftUp_map _ _ fun x hx y hy => hf x (hpush hx) y (hpush hy)
      simp only [offer, map, hzero, hroom, if_true, if_false, Offer.map, Array.size_map, ← this]
      congr 2
      simp
    · by_cases hpos : 0 < items.size
      · have hroot := hf item List.mem_cons_self items[0] (hmem (Array.getElem_mem hpos))
        by_cases hlt : order item items[0] = .lt
        · have hset {x : α} (hx : x ∈ items.set 0 item) : x ∈ item :: items.toList := by
            rcases Array.mem_or_eq_of_mem_set hx with hx | rfl
            · exact hmem hx
            · exact List.mem_cons_self
          have : siftDown order' ((items.set 0 item).map f) 0 (by simpa using hpos) =
              (siftDown order (items.set 0 item) 0 (by simpa using hpos)).map f :=
            siftDown_map _ _ fun x hx y hy => hf x (hset hx) y (hset hy)
          simp [offer, map, hzero, hroom, hpos, hroot, hlt, Offer.map, ← this]
        · simp [offer, map, hzero, hroom, hpos, hroot, hlt, Offer.map]
      · simp [offer, map, hzero, hroom, hpos, Offer.map]

/-- Offering many items commutes with a change that keeps the order. -/
theorem offerAll_map (hf : ∀ x y, order' (f x) (f y) = order x y) (h : TopK α) (items : List α) :
    (h.offerAll order items).map f = (h.map f).offerAll order' (items.map f) := by
  induction items generalizing h with
  | nil => rfl
  | cons item items ih =>
    rw [offerAll_cons, ih, List.map_cons, offerAll_cons, offer_map fun x _ y _ => hf x y]

end

end TopK

end SegmentQuery
