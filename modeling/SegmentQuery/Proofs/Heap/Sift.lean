import SegmentQuery.TopK
/-!
# Sifting

Sifting moves one item along the path from its place to the root or to
the leaves. It only rearranges the array, and it ends with every child
no worse than its parent, from a start where that fails at one place at
most.
-/


namespace SegmentQuery

open Std (TransCmp OrientedCmp ReflCmp)

namespace TopK

variable {α : Type} {order : α → α → Ordering}

/-- No item is worse than its parent. -/
structure HeapOrdered (order : α → α → Ordering) (a : Array α) : Prop where
  le : ∀ j p (hj : j < a.size) (hp : p < a.size), 0 < j → p = (j - 1) / 2 →
    (order a[j] a[p]).isLE

/-- The heap order, but the item at `i` may be worse than its parent. -/
structure UpReady (order : α → α → Ordering) (a : Array α) (i : Nat) (hi : i < a.size) : Prop where
  off : ∀ j (hj : j < a.size), 0 < j → j ≠ i → (order a[j] a[(j - 1) / 2]).isLE
  grand : ∀ j (hj : j < a.size), 0 < j → (j - 1) / 2 = i → 0 < i →
    (order a[j] a[(i - 1) / 2]).isLE

/-- The heap order, but the children of `i` may be worse than its item. -/
structure DownReady (order : α → α → Ordering) (a : Array α) (i : Nat) (hi : i < a.size) :
    Prop where
  off : ∀ j (hj : j < a.size), 0 < j → (j - 1) / 2 ≠ i → (order a[j] a[(j - 1) / 2]).isLE
  grand : ∀ j (hj : j < a.size), 0 < j → (j - 1) / 2 = i → 0 < i →
    (order a[j] a[(i - 1) / 2]).isLE

/-! ## Rearranging -/

/-- Sifting up only rearranges. -/
theorem siftUp_perm (order : α → α → Ordering) (a : Array α) (i : Nat) (hi : i < a.size) :
    (siftUp order a i hi).Perm a := by
  fun_induction siftUp order a i hi with
  | case1 => exact .refl _
  | case2 a i hi hne hp hgt ih => exact ih.trans (Array.swap_perm _ _)
  | case3 => exact .refl _

/-- Sifting down only rearranges. -/
theorem siftDown_perm (order : α → α → Ordering) (a : Array α) (i : Nat) (hi : i < a.size) :
    (siftDown order a i hi).Perm a := by
  fun_induction siftDown order a i hi with
  | case1 => exact .refl _
  | case2 a i hi hne hlt ih => exact ih.trans (Array.swap_perm _ _)

/-! ## The order afterwards -/

theorem isLE_of_not_gt {x y : α} (h : order x y ≠ .gt) : (order x y).isLE :=
  Ordering.isLE_iff_ne_gt.2 h

/-- One step down keeps the heap order off the moving item's children. -/
theorem DownReady.swap {a : Array α} {i w : Nat} {hi : i < a.size} (h : DownReady order a i hi)
    (hw : w < a.size) (hw0 : 0 < w) (hwi : (w - 1) / 2 = i) (hself : (order a[i] a[w]).isLE)
    (hworst : ∀ j (hj : j < a.size), 0 < j → (j - 1) / 2 = i → (order a[j] a[w]).isLE) :
    DownReady order (a.swap i w hi hw) w (by simpa using hw) where
  off := by
    intro j hj hj0 hjw
    simp only [Array.size_swap] at hj
    by_cases hpi : (j - 1) / 2 = i
    · -- under the item that came up: the one that went down, or a sibling
      simp only [hpi, Array.getElem_swap_left]
      by_cases hj' : j = w
      · subst hj'
        rw [Array.getElem_swap_right]
        exact hself
      · rw [Array.getElem_swap_of_ne (by omega) hj']
        exact hworst j hj hj0 hpi
    · -- elsewhere nothing has changed but the item at `i`
      rw [Array.getElem_swap_of_ne (k := (j - 1) / 2) hpi hjw]
      by_cases hji : j = i
      · subst hji
        rw [Array.getElem_swap_left]
        exact h.grand w hw hw0 hwi hj0
      · rw [Array.getElem_swap_of_ne hji (by omega)]
        exact h.off j hj hj0 hpi
  grand := by
    intro j hj hj0 hpj _
    simp only [Array.size_swap] at hj
    simp only [hwi, Array.getElem_swap_left]
    rw [Array.getElem_swap_of_ne (by omega) (by omega)]
    have hjw := h.off j hj hj0 (by omega)
    simp only [hpj] at hjw
    exact hjw

section

variable [TransCmp order]

theorem isLE_of_gt {x y : α} (h : order x y = .gt) : (order y x).isLE := by
  rw [@OrientedCmp.eq_swap _ order _ y x, h]
  rfl

/-- One step up keeps the heap order off the moving item. -/
theorem UpReady.swap {a : Array α} {i : Nat} {hi : i < a.size} (h : UpReady order a i hi)
    (hi0 : i ≠ 0) (hp : (i - 1) / 2 < a.size) (hgt : order a[i] a[(i - 1) / 2] = .gt) :
    UpReady order (a.swap i ((i - 1) / 2) hi hp) ((i - 1) / 2) (by simpa using hp) where
  off := by
    intro j hj hj0 hjp
    simp only [Array.size_swap] at hj
    by_cases hji : j = i
    · -- the parent's item has come down under the moving one
      subst hji
      simp only [Array.getElem_swap_left, Array.getElem_swap_right]
      exact isLE_of_gt hgt
    · rw [Array.getElem_swap_of_ne hji hjp]
      by_cases hpi : (j - 1) / 2 = i
      · -- a grandchild of the parent's item is its child now
        simp only [hpi, Array.getElem_swap_left]
        exact h.grand j hj hj0 hpi (by omega)
      · by_cases hpp : (j - 1) / 2 = (i - 1) / 2
        · -- the sibling was no worse than the parent, which is better than the moving item
          simp only [hpp, Array.getElem_swap_right]
          have hjp' := h.off j hj hj0 hji
          simp only [hpp] at hjp'
          exact TransCmp.isLE_trans hjp' (isLE_of_gt hgt)
        · rw [Array.getElem_swap_of_ne hpi hpp]
          exact h.off j hj hj0 hji
  grand := by
    intro j hj hj0 hpj hp0
    simp only [Array.size_swap] at hj
    have hup : (order a[(i - 1) / 2] a[((i - 1) / 2 - 1) / 2]).isLE :=
      h.off ((i - 1) / 2) hp hp0 (by omega)
    rw [Array.getElem_swap_of_ne (k := ((i - 1) / 2 - 1) / 2) (by omega) (by omega)]
    by_cases hji : j = i
    · subst hji
      rw [Array.getElem_swap_left]
      exact hup
    · rw [Array.getElem_swap_of_ne hji (by omega)]
      have hjp := h.off j hj hj0 hji
      simp only [hpj] at hjp
      exact TransCmp.isLE_trans hjp hup

/-- **Sifting up restores the heap order.** -/
theorem siftUp_heapOrdered {a : Array α} {i : Nat} {hi : i < a.size} (h : UpReady order a i hi) :
    HeapOrdered order (siftUp order a i hi) := by
  fun_induction siftUp order a i hi with
  | case1 a hi =>
    refine ⟨fun j p hj hp hj0 hpj => ?_⟩
    subst hpj
    exact h.off j hj hj0 (by omega)
  | case2 a i hi hne hp hgt ih => exact ih (h.swap hne hp hgt)
  | case3 a i hi hne hp hle =>
    refine ⟨fun j p hj hp hj0 hpj => ?_⟩
    subst hpj
    by_cases hji : j = i
    · subst hji
      exact isLE_of_not_gt hle
    · exact h.off j hj hj0 hji

/-- The item that `worstOf` finds is no better than the item at `i` and
its children, one of which it is. -/
theorem worstOf_spec (order : α → α → Ordering) [TransCmp order] (a : Array α) (i : Nat)
    (hi : i < a.size) :
    ∃ (w : Nat) (hw : w < a.size), (worstOf order a i hi).1 = w ∧
      (w = i ∨ 0 < w ∧ (w - 1) / 2 = i) ∧ (order a[i] a[w]).isLE ∧
      ∀ j (hj : j < a.size), 0 < j → (j - 1) / 2 = i → (order a[j] a[w]).isLE := by
  have hchild {j : Nat} (hj0 : 0 < j) (hji : (j - 1) / 2 = i) : j = 2 * i + 1 ∨ j = 2 * i + 2 := by
    omega
  have hrefl (x : α) : (order x x).isLE := ReflCmp.isLE_rfl
  unfold worstOf
  by_cases hl : 2 * i + 1 < a.size
  · by_cases hr : 2 * i + 2 < a.size
    · by_cases hgl : order a[2 * i + 1] a[i] = .gt
      · by_cases hgr : order a[2 * i + 2] a[2 * i + 1] = .gt
        · refine ⟨2 * i + 2, hr, by simp [hl, hr, hgl, hgr], by omega, ?_, ?_⟩
          · exact TransCmp.isLE_trans (isLE_of_gt hgl) (isLE_of_gt hgr)
          · intro j hj hj0 hji
            rcases hchild hj0 hji with rfl | rfl
            · exact isLE_of_gt hgr
            · exact hrefl _
        · refine ⟨2 * i + 1, hl, by simp [hl, hr, hgl, hgr], by omega, isLE_of_gt hgl, ?_⟩
          intro j hj hj0 hji
          rcases hchild hj0 hji with rfl | rfl
          · exact hrefl _
          · exact isLE_of_not_gt hgr
      · by_cases hgr : order a[2 * i + 2] a[i] = .gt
        · refine ⟨2 * i + 2, hr, by simp [hl, hr, hgl, hgr], by omega, isLE_of_gt hgr, ?_⟩
          intro j hj hj0 hji
          rcases hchild hj0 hji with rfl | rfl
          · exact TransCmp.isLE_trans (isLE_of_not_gt hgl) (isLE_of_gt hgr)
          · exact hrefl _
        · refine ⟨i, hi, by simp [hl, hr, hgl, hgr], by omega, hrefl _, ?_⟩
          intro j hj hj0 hji
          rcases hchild hj0 hji with rfl | rfl
          · exact isLE_of_not_gt hgl
          · exact isLE_of_not_gt hgr
    · -- there is no right child
      by_cases hgl : order a[2 * i + 1] a[i] = .gt
      · refine ⟨2 * i + 1, hl, by simp [hl, hr, hgl], by omega, isLE_of_gt hgl, ?_⟩
        intro j hj hj0 hji
        rcases hchild hj0 hji with rfl | rfl
        · exact hrefl _
        · omega
      · refine ⟨i, hi, by simp [hl, hr, hgl], by omega, hrefl _, ?_⟩
        intro j hj hj0 hji
        rcases hchild hj0 hji with rfl | rfl
        · exact isLE_of_not_gt hgl
        · omega
  · -- there is no child at all
    have hr : ¬ 2 * i + 2 < a.size := by omega
    refine ⟨i, hi, by simp [hl, hr], by omega, hrefl _, ?_⟩
    intro j hj hj0 hji
    rcases hchild hj0 hji with rfl | rfl <;> omega

/-- **Sifting down restores the heap order.** -/
theorem siftDown_heapOrdered {a : Array α} {i : Nat} {hi : i < a.size}
    (h : DownReady order a i hi) : HeapOrdered order (siftDown order a i hi) := by
  fun_induction siftDown order a i hi with
  | case1 a i hi hstop =>
    refine ⟨fun j p hj hp hj0 hpj => ?_⟩
    subst hpj
    obtain ⟨w, hw, hfound, -, -, hworst⟩ := worstOf_spec order a i hi
    have hwi : w = i := hfound.symm.trans hstop
    subst hwi
    by_cases hpi : (j - 1) / 2 = w
    · simp only [hpi]
      exact hworst j hj hj0 hpi
    · exact h.off j hj hj0 hpi
  | case2 a i hi hmoves hlt ih =>
    obtain ⟨w, hw, hfound, hplace, hself, hworst⟩ := worstOf_spec order a i hi
    apply ih
    simp only [hfound] at hmoves ⊢
    rcases hplace with hwi | ⟨hw0, hwi⟩
    · exact absurd hwi hmoves
    · exact h.swap hw hw0 hwi hself hworst

/-- The root of a heap is one of its worst items. -/
theorem HeapOrdered.isLE_root {a : Array α} (h : HeapOrdered order a) (hpos : 0 < a.size) :
    ∀ (j : Nat) (hj : j < a.size), (order a[j] a[0]).isLE := by
  intro j
  induction j using Nat.strongRecOn with
  | ind j ih =>
    intro hj
    by_cases hj0 : j = 0
    · subst hj0
      exact ReflCmp.isLE_rfl
    · exact TransCmp.isLE_trans (h.le j ((j - 1) / 2) hj (by omega) (by omega) rfl)
        (ih ((j - 1) / 2) (by omega) (by omega))

end

end TopK

end SegmentQuery
