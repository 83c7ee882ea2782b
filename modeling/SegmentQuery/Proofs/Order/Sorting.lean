import Mathlib.Data.List.Count
import Mathlib.Data.List.Forall2
import Mathlib.Data.List.Perm.Basic
/-!
# Sorting and the best few

Facts about lists under a comparison that is a total preorder. Items may
tie without being equal, so a sorted list is unique only up to ties: the
keys, which are equal exactly where items tie, are what is unique.
`IsBest` says that some of a list's items are its best ones; it composes,
so the best of the best of parts are the best of the whole.
-/


namespace SegmentQuery

open Std (TransCmp OrientedCmp ReflCmp)

variable {α κ : Type} {cmp : α → α → Ordering}

/-! ## Sorted lists -/

/-- Every item comes before or ties with every later one. -/
def Ascending (cmp : α → α → Ordering) (xs : List α) : Prop :=
  xs.Pairwise fun a b => (cmp a b).isLE

theorem ascending_append {xs ys : List α} (hx : Ascending cmp xs) (hy : Ascending cmp ys)
    (hxy : ∀ x ∈ xs, ∀ y ∈ ys, (cmp x y).isLE) : Ascending cmp (xs ++ ys) :=
  List.pairwise_append.2 ⟨hx, hy, hxy⟩

section

variable [TransCmp cmp]

/-- Of two items, one comes before or ties with the other. -/
theorem isLE_total (a b : α) : (cmp a b).isLE ∨ (cmp b a).isLE := by
  rw [@OrientedCmp.eq_swap _ cmp _ b a]
  cases cmp a b <;> decide

theorem ascending_mergeSort (xs : List α) :
    Ascending cmp (xs.mergeSort fun a b => (cmp a b).isLE) := by
  refine List.pairwise_mergeSort (fun a b c hab hbc => ?_) (fun a b => ?_) xs
  · exact TransCmp.isLE_trans hab hbc
  · rw [Bool.or_eq_true]
    exact isLE_total a b

/-- **Sorted lists with the same keys list them in the same order.** -/
theorem map_key_eq_of_ascending {key : α → κ} (hkey : ∀ a b, cmp a b = .eq ↔ key a = key b) :
    ∀ {xs ys : List α}, (xs.map key).Perm (ys.map key) → Ascending cmp xs → Ascending cmp ys →
      xs.map key = ys.map key := by
  intro xs
  induction xs with
  | nil =>
    intro ys hperm _ _
    rw [List.map_nil, List.nil_perm] at hperm
    rw [hperm, List.map_nil]
  | cons x xs ih =>
    intro ys hperm hx hy
    cases ys with
    | nil => exact absurd hperm.length_eq (by simp)
    | cons y ys =>
      obtain ⟨hx1, hx2⟩ := List.pairwise_cons.1 hx
      obtain ⟨hy1, hy2⟩ := List.pairwise_cons.1 hy
      -- each head ties with some item of the other list
      have hle {a b : α} {as : List α} (ha : ∀ c ∈ as, (cmp a c).isLE)
          (h : key b ∈ (a :: as).map key) : (cmp a b).isLE := by
        obtain ⟨c, hc, hcb⟩ := List.mem_map.1 h
        have htie : (cmp c b).isLE := by rw [(hkey c b).2 hcb]; rfl
        rcases List.mem_cons.1 hc with rfl | hc
        · exact htie
        · exact TransCmp.isLE_trans (ha c hc) htie
      have hxy : (cmp x y).isLE := hle hx1 (hperm.mem_iff.2 (by simp))
      have hyx : (cmp y x).isLE := hle hy1 (hperm.mem_iff.1 (by simp))
      have hhead : key x = key y := (hkey x y).1 (OrientedCmp.isLE_antisymm hxy hyx)
      simp only [List.map_cons, hhead] at hperm ⊢
      rw [ih (List.Perm.cons_inv hperm) hx2 hy2]

/-- The keys of a sorted list are those of the sorted version of any list
with the same items. -/
theorem map_key_mergeSort {key : α → κ} (hkey : ∀ a b, cmp a b = .eq ↔ key a = key b)
    {xs ys : List α} (hperm : xs.Perm ys) (hy : Ascending cmp ys) :
    (xs.mergeSort fun a b => (cmp a b).isLE).map key = ys.map key :=
  map_key_eq_of_ascending hkey (((List.mergeSort_perm xs _).trans hperm).map key)
    (ascending_mergeSort xs) hy

/-- Of items that do not tie, those that tie are one item. -/
theorem eq_of_tie {xs : List α} (h : xs.Pairwise fun a b => cmp a b ≠ .eq) {a b : α} (ha : a ∈ xs)
    (hb : b ∈ xs) (htie : cmp a b = .eq) : a = b := by
  have hone : xs.Pairwise fun x y => cmp x y = .eq → x = y :=
    h.imp fun hne heq => absurd heq hne
  have hflip : xs.Pairwise (flip fun x y => cmp x y = .eq → x = y) :=
    h.imp fun hne heq => absurd (OrientedCmp.eq_symm heq) hne
  exact List.Pairwise.forall_of_forall_of_flip (fun _ _ _ => rfl) hone hflip ha hb htie

/-- **Items that do not tie can be sorted in one way only.** -/
theorem mergeSort_eq_of_ascending {xs ys : List α} (hperm : xs.Perm ys) (hy : Ascending cmp ys)
    (h : ys.Pairwise fun a b => cmp a b ≠ .eq) :
    (xs.mergeSort fun a b => (cmp a b).isLE) = ys := by
  have hsorted := List.mergeSort_perm xs fun a b => (cmp a b).isLE
  refine List.Perm.eq_of_pairwise (fun a b ha hb hab hba => ?_) (ascending_mergeSort xs) hy
    (hsorted.trans hperm)
  exact eq_of_tie h ((hsorted.trans hperm).mem_iff.1 ha) hb (OrientedCmp.isLE_antisymm hab hba)

end

/-! ## The best few -/

/-- The kept items are the best of all, and as many as there may be. -/
structure IsBest (cmp : α → α → Ordering) (limit : Nat) (all kept dropped : List α) : Prop where
  perm : all.Perm (kept ++ dropped)
  length : kept.length = min limit all.length
  le : ∀ x ∈ kept, ∀ y ∈ dropped, (cmp x y).isLE

namespace IsBest

variable {limit : Nat} {all kept dropped : List α}

/-- Where nothing is dropped everything is kept. -/
theorem of_length_le (h : all.length ≤ limit) : IsBest cmp limit all all [] where
  perm := by simp
  length := by omega
  le := by simp

/-- Items are dropped only when the limit is reached. -/
theorem length_of_mem_dropped (h : IsBest cmp limit all kept dropped) {y : α} (hy : y ∈ dropped) :
    kept.length = limit := by
  have hsum := h.perm.length_eq
  have hpos := List.length_pos_of_mem hy
  have := h.length
  rw [List.length_append] at hsum
  omega

theorem congr_perm {all' kept' : List α} (h : IsBest cmp limit all kept dropped)
    (hall : all'.Perm all) (hkept : kept'.Perm kept) : IsBest cmp limit all' kept' dropped where
  perm := hall.trans (h.perm.trans (hkept.symm.append_right dropped))
  length := by rw [hkept.length_eq, hall.length_eq, h.length]
  le x hx := h.le x (hkept.mem_iff.1 hx)

theorem congr_dropped {dropped' : List α} (h : IsBest cmp limit all kept dropped)
    (hperm : dropped'.Perm dropped) : IsBest cmp limit all kept dropped' where
  perm := h.perm.trans (hperm.symm.append_left kept)
  length := h.length
  le x hx y hy := h.le x hx y (hperm.mem_iff.1 hy)

variable [TransCmp cmp]

/-- **The best of the best of a part are the best of the whole.** -/
theorem trans {more kept' dropped' : List α} (h : IsBest cmp limit all kept dropped)
    (h' : IsBest cmp limit (kept ++ more) kept' dropped') :
    IsBest cmp limit (all ++ more) kept' (dropped' ++ dropped) where
  perm := by
    have h1 : (all ++ more).Perm (kept ++ more ++ dropped) := by
      refine (h.perm.append_right more).trans ?_
      rw [List.append_assoc, List.append_assoc]
      exact List.perm_append_comm.append_left kept
    refine h1.trans ((h'.perm.append_right dropped).trans ?_)
    rw [List.append_assoc]
  length := by
    have := h.length
    have hlen := h'.length
    rw [List.length_append] at hlen ⊢
    omega
  le := by
    intro x hx y hy
    rcases List.mem_append.1 hy with hy | hy
    · exact h'.le x hx y hy
    · -- counting the items up to `y`: all of `kept` are, so all of `kept'` must be
      by_contra hxy
      have hfull := h.length_of_mem_dropped hy
      have hkept : kept.countP (fun z => (cmp z y).isLE) = kept.length :=
        List.countP_eq_length.2 fun z hz => h.le z hz y hy
      have hnone : dropped'.countP (fun z => (cmp z y).isLE) = 0 := by
        refine List.countP_eq_zero.2 fun z hz hzy => ?_
        exact hxy (TransCmp.isLE_trans (h'.le x hx z hz) hzy)
      have hless : kept'.countP (fun z => (cmp z y).isLE) < kept'.length := by
        refine Nat.lt_of_le_of_ne List.countP_le_length fun heq => ?_
        exact hxy (List.countP_eq_length.1 heq x hx)
      have hcount := h'.perm.countP_eq (fun z => (cmp z y).isLE)
      rw [List.countP_append, List.countP_append] at hcount
      have := h'.length
      omega

/-- The best of the best of a part in the middle are the best of the
whole. -/
theorem trans_middle {front back kept' dropped' : List α} (h : IsBest cmp limit all kept dropped)
    (h' : IsBest cmp limit (front ++ (kept ++ back)) kept' dropped') :
    IsBest cmp limit (front ++ (all ++ back)) kept' (dropped' ++ dropped) := by
  have hmove (xs : List α) : (xs ++ (front ++ back)).Perm (front ++ (xs ++ back)) := by
    rw [← List.append_assoc, ← List.append_assoc]
    exact List.perm_append_comm.append_right back
  have hfirst := h.trans (h'.congr_perm (hmove kept) (.refl _))
  exact hfirst.congr_perm (hmove all).symm (.refl _)

/-- **The best of the best of several parts are the best of the whole.** -/
theorem flatten {alls kepts : List (List α)} {kept' dropped' : List α}
    (h : List.Forall₂ (fun all kept => ∃ dropped, IsBest cmp limit all kept dropped) alls kepts)
    (front : List α) (h' : IsBest cmp limit (front ++ kepts.flatten) kept' dropped') :
    ∃ dropped'', IsBest cmp limit (front ++ alls.flatten) kept' dropped'' := by
  induction h generalizing front dropped' with
  | nil => exact ⟨dropped', h'⟩
  | @cons all kept alls kepts hbest _ ih =>
    obtain ⟨dropped, hbest⟩ := hbest
    rw [List.flatten_cons] at h' ⊢
    have hfirst := hbest.trans_middle h'
    rw [← List.append_assoc] at hfirst ⊢
    exact ih _ hfirst

omit [TransCmp cmp] in
/-- As many items as are kept, in front of as many as are dropped, are
what a cut at the limit leaves. -/
theorem take_append {β : Type} (h : IsBest cmp limit all kept dropped) {front back : List β}
    (hfront : front.length = kept.length) (hback : back.length = dropped.length) :
    (front ++ back).take limit = front := by
  have hsum := h.perm.length_eq
  have hlen := h.length
  rw [List.length_append] at hsum
  rcases Nat.le_total limit all.length with hle | hle
  · rw [List.take_append_of_le_length (by omega), List.take_of_length_le (by omega)]
  · have : back = [] := List.length_eq_zero_iff.1 (by omega)
    rw [this, List.append_nil, List.take_of_length_le (by omega)]

/-- The best items and the others, sorted one after the other, are all
items sorted. -/
theorem ascending_sorted (h : IsBest cmp limit all kept dropped) :
    all.Perm ((kept.mergeSort fun a b => (cmp a b).isLE) ++
      dropped.mergeSort fun a b => (cmp a b).isLE) ∧
    Ascending cmp ((kept.mergeSort fun a b => (cmp a b).isLE) ++
      dropped.mergeSort fun a b => (cmp a b).isLE) := by
  have hkeep := List.mergeSort_perm kept fun a b => (cmp a b).isLE
  have hdrop := List.mergeSort_perm dropped fun a b => (cmp a b).isLE
  refine ⟨h.perm.trans (hkeep.append hdrop).symm, ?_⟩
  exact ascending_append (ascending_mergeSort kept) (ascending_mergeSort dropped) fun x hx y hy =>
    h.le x (hkeep.mem_iff.1 hx) y (hdrop.mem_iff.1 hy)

/-- **The best items, sorted, are the front of all items sorted**, as far
as keys can tell. -/
theorem map_key_sorted {key : α → κ} (hkey : ∀ a b, cmp a b = .eq ↔ key a = key b)
    (h : IsBest cmp limit all kept dropped) :
    (kept.mergeSort fun a b => (cmp a b).isLE).map key =
      ((all.mergeSort fun a b => (cmp a b).isLE).map key).take limit := by
  obtain ⟨hperm, hsorted⟩ := h.ascending_sorted
  rw [map_key_mergeSort hkey hperm hsorted, List.map_append]
  exact (h.take_append (by simp) (by simp)).symm

/-- **The best of items that do not tie, sorted, are the front of all
items sorted.** -/
theorem mergeSort_eq_take (h : IsBest cmp limit all kept dropped)
    (hties : all.Pairwise fun a b => cmp a b ≠ .eq) :
    (kept.mergeSort fun a b => (cmp a b).isLE) =
      (all.mergeSort fun a b => (cmp a b).isLE).take limit := by
  obtain ⟨hperm, hsorted⟩ := h.ascending_sorted
  have hties' := hties.perm hperm fun hxy hyx => hxy (OrientedCmp.eq_symm hyx)
  rw [mergeSort_eq_of_ascending hperm hsorted hties']
  exact (h.take_append (by simp) (by simp)).symm

/-- **Some items sorted are the front of all items sorted exactly when
they are the best ones**, as far as keys can tell. -/
theorem map_key_sorted_iff {key : α → κ} (hkey : ∀ a b, cmp a b = .eq ↔ key a = key b)
    (hlen : kept.length = min limit (kept ++ dropped).length) :
    (kept.mergeSort fun a b => (cmp a b).isLE).map key =
        (((kept ++ dropped).mergeSort fun a b => (cmp a b).isLE).map key).take limit ↔
      ∀ x ∈ kept, ∀ y ∈ dropped, (cmp x y).isLE := by
  constructor
  · intro heq x hx y hy
    have hsorted : Ascending cmp ((kept ++ dropped).mergeSort fun a b => (cmp a b).isLE) :=
      ascending_mergeSort (kept ++ dropped)
    have hperm := List.mergeSort_perm (kept ++ dropped) fun a b => (cmp a b).isLE
    generalize ((kept ++ dropped).mergeSort fun a b => (cmp a b).isLE) = sorted
      at heq hsorted hperm
    -- the keys on either side of the cut are those of the two lists
    have hfront : (kept.map key).Perm ((sorted.take limit).map key) := by
      rw [List.map_take, ← heq]
      exact ((List.mergeSort_perm kept _).map key).symm
    have hback : (dropped.map key).Perm ((sorted.drop limit).map key) := by
      have hall : (kept.map key ++ dropped.map key).Perm
          ((sorted.take limit).map key ++ (sorted.drop limit).map key) := by
        rw [← List.map_append, ← List.map_append, List.take_append_drop]
        exact (hperm.map key).symm
      exact (List.perm_append_left_iff _).1 (hall.trans (hfront.symm.append_right _))
    obtain ⟨x', hx', hxx'⟩ := List.mem_map.1 (hfront.mem_iff.1 (List.mem_map_of_mem hx))
    obtain ⟨y', hy', hyy'⟩ := List.mem_map.1 (hback.mem_iff.1 (List.mem_map_of_mem hy))
    rw [← List.take_append_drop limit sorted] at hsorted
    have hcut := (List.pairwise_append.1 hsorted).2.2 x' hx' y' hy'
    have hle : (cmp x x').isLE := by rw [(hkey x x').2 hxx'.symm]; rfl
    have hle' : (cmp y' y).isLE := by rw [(hkey y' y).2 hyy']; rfl
    exact TransCmp.isLE_trans hle (TransCmp.isLE_trans hcut hle')
  · intro hle
    exact (IsBest.mk (.refl _) hlen hle).map_key_sorted hkey

end IsBest

end SegmentQuery
