/-!
# The bounded heap

A heap that keeps the best items offered to it, under an order in which
`lt` means better. The root is a worst kept item, so a full heap admits
a candidate only when it is strictly better than the root, and hands the
root back. The array layout is part of the value: sifting up stops at
the first parent that is not strictly better, and sifting down moves the
strictly worse child up, the left one first.
-/


namespace SegmentQuery

/-- What became of an offered item. An item that is not kept any more is
handed back. -/
inductive Offer (α : Type)
  | inserted
  | replaced (evicted : α)
  | rejected (item : α)
  deriving DecidableEq, Repr

/-- At most `maximum` items, as a heap array. -/
structure TopK (α : Type) where
  items : Array α
  maximum : Nat

namespace TopK

variable {α β : Type}

def empty (maximum : Nat) : TopK α := ⟨#[], maximum⟩

def size (h : TopK α) : Nat := h.items.size

def isEmpty (h : TopK α) : Bool := h.items.isEmpty

def isFull (h : TopK α) : Bool := decide (h.maximum ≤ h.items.size)

/-- A worst kept item. -/
def worst? (h : TopK α) : Option α := h.items[0]?

/-- The items in heap layout. -/
def toList (h : TopK α) : List α := h.items.toList

/-! ## Sifting -/

/-- Move the item at `i` up while it is worse than its parent. -/
def siftUp (order : α → α → Ordering) (a : Array α) (i : Nat) (h : i < a.size) : Array α :=
  if hi : i = 0 then a
  else
    have hp : (i - 1) / 2 < a.size := by omega
    if order a[i] a[(i - 1) / 2] = .gt then
      siftUp order (a.swap i ((i - 1) / 2) h hp) ((i - 1) / 2) (by simpa using hp)
    else a
termination_by i
decreasing_by omega

/-- The worst of the item at `i` and its children: the left child if it
is worse, then the right child if that is worse still. -/
def worstOf (order : α → α → Ordering) (a : Array α) (i : Nat) (h : i < a.size) :
    { j : Nat // j < a.size ∧ i ≤ j } :=
  let first : { j : Nat // j < a.size ∧ i ≤ j } :=
    if hl : 2 * i + 1 < a.size then
      if order a[2 * i + 1] a[i] = .gt then ⟨2 * i + 1, hl, by omega⟩ else ⟨i, h, Nat.le_refl i⟩
    else ⟨i, h, Nat.le_refl i⟩
  if hr : 2 * i + 2 < a.size then
    have := first.2.1
    if order a[2 * i + 2] a[first.1] = .gt then ⟨2 * i + 2, hr, by omega⟩ else first
  else first

/-- Move the item at `i` down while a child is worse. -/
def siftDown (order : α → α → Ordering) (a : Array α) (i : Nat) (h : i < a.size) : Array α :=
  if hw : (worstOf order a i h).1 = i then a
  else
    have hlt := (worstOf order a i h).2.1
    siftDown order (a.swap i (worstOf order a i h).1 h hlt) (worstOf order a i h).1
      (by simpa using hlt)
termination_by a.size - i
decreasing_by
  have hw2 := (worstOf order a i h).2
  simp only [Array.size_swap]
  omega

/-! ## Operations -/

/-- Offer an item. -/
def offer (order : α → α → Ordering) (h : TopK α) (item : α) : Offer α × TopK α :=
  if h.maximum = 0 then (.rejected item, h)
  else if h.items.size < h.maximum then
    (.inserted, { h with items := siftUp order (h.items.push item) h.items.size (by simp) })
  else if hn : 0 < h.items.size then
    if order item h.items[0] = .lt then
      (.replaced h.items[0],
        { h with items := siftDown order (h.items.set 0 item) 0 (by simpa using hn) })
    else (.rejected item, h)
  else (.rejected item, h)

/-- Offer items in order. -/
def offerAll (order : α → α → Ordering) (h : TopK α) (items : List α) : TopK α :=
  items.foldl (fun h item => (h.offer order item).2) h

/-- The items from best to worst; equal ones in heap layout. -/
def sorted (order : α → α → Ordering) (h : TopK α) : List α :=
  h.items.toList.mergeSort fun a b => (order a b).isLE

/-- Change every item in its place. The layout stays, so the change must
not affect the order. -/
def map (f : α → β) (h : TopK α) : TopK β := ⟨h.items.map f, h.maximum⟩

end TopK

end SegmentQuery
