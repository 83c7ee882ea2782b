/-!
# Document sets

Null positions, filters and requested documents are sets of document
numbers, kept as a strictly ascending list. `insert` is the only
builder, so the order is part of the type.
-/


namespace SegmentQuery

/-- A finite set of document numbers. -/
structure DocSet where
  toList : List Nat
  ascending : toList.Pairwise (· < ·)
  deriving DecidableEq

namespace DocSet

def empty : DocSet := ⟨[], List.Pairwise.nil⟩

instance : Inhabited DocSet := ⟨empty⟩

/-- Put a number at its place in an ascending list, once. -/
def insertSorted (n : Nat) : List Nat → List Nat
  | [] => [n]
  | m :: rest =>
    if n < m then n :: m :: rest else if n = m then m :: rest else m :: insertSorted n rest

theorem mem_insertSorted {n x : Nat} {ns : List Nat} :
    x ∈ insertSorted n ns ↔ x = n ∨ x ∈ ns := by
  induction ns with
  | nil => simp [insertSorted]
  | cons m rest ih =>
    unfold insertSorted
    split
    · simp
    · split
      · subst_vars; simp
      · simp only [List.mem_cons, ih]
        constructor
        · rintro (h | h | h) <;> simp [h]
        · rintro (h | h | h) <;> simp [h]

theorem pairwise_insertSorted {n : Nat} {ns : List Nat} (h : ns.Pairwise (· < ·)) :
    (insertSorted n ns).Pairwise (· < ·) := by
  induction ns with
  | nil => simp [insertSorted]
  | cons m rest ih =>
    have hm := List.pairwise_cons.1 h
    unfold insertSorted
    split
    · rename_i hlt
      refine List.pairwise_cons.2 ⟨fun x hx => ?_, h⟩
      rcases List.mem_cons.1 hx with rfl | hx
      · exact hlt
      · exact Nat.lt_trans hlt (hm.1 x hx)
    · split
      · exact h
      · refine List.pairwise_cons.2 ⟨fun x hx => ?_, ih hm.2⟩
        rcases mem_insertSorted.1 hx with rfl | hx
        · omega
        · exact hm.1 x hx

def insert (n : Nat) (s : DocSet) : DocSet :=
  ⟨insertSorted n s.toList, pairwise_insertSorted s.ascending⟩

/-- The set of the numbers in a list. -/
def ofList (ns : List Nat) : DocSet := ns.foldr insert empty

theorem mem_toList_ofList {x : Nat} {ns : List Nat} : x ∈ (ofList ns).toList ↔ x ∈ ns := by
  induction ns with
  | nil => simp [ofList, empty]
  | cons n rest ih =>
    have h : (ofList (n :: rest)).toList = insertSorted n (ofList rest).toList := rfl
    rw [h, mem_insertSorted, ih, List.mem_cons]

def contains (s : DocSet) (n : Nat) : Bool := s.toList.contains n

def size (s : DocSet) : Nat := s.toList.length

def isEmpty (s : DocSet) : Bool := s.toList.isEmpty

/-- The greatest member. -/
def max? (s : DocSet) : Option Nat := s.toList.getLast?

end DocSet

end SegmentQuery
