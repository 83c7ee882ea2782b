import Mathlib.Data.List.Induction
import Mathlib.Data.List.Perm.Subperm
import SegmentQuery.Proofs.Order.Sorting
/-!
# First occurrences

Of items that tie under a comparison the first one of a list stands for
all. First occurrences do not tie, every item of the list ties with one of
them, and there are no more of them than of any items that the list's
items all tie with. What comes after a list adds its own first
occurrences, without those that tie with something in the list.
-/


namespace SegmentQuery

open Std (TransCmp OrientedCmp ReflCmp)

variable {α : Type} {cmp : α → α → Ordering} {a b c : α} {seen xs ys : List α}

/-- Whether two items tie. -/
def ties (cmp : α → α → Ordering) (a b : α) : Bool := cmp a b == .eq

theorem ties_iff : ties cmp a b ↔ cmp a b = .eq := by simp [ties]

/-- No two items tie. -/
def Apart (cmp : α → α → Ordering) (xs : List α) : Prop := xs.Pairwise fun a b => ¬ ties cmp a b

/-- One more item after the first occurrences so far. -/
def note (cmp : α → α → Ordering) (seen : List α) (a : α) : List α :=
  if seen.any (ties cmp · a) then seen else seen ++ [a]

/-- The items of a list without those that an earlier one ties with. -/
def firsts (cmp : α → α → Ordering) (xs : List α) : List α := xs.foldl (note cmp) []

@[simp] theorem firsts_nil : firsts cmp [] = [] := rfl

theorem firsts_append_singleton (xs : List α) (a : α) :
    firsts cmp (xs ++ [a]) = note cmp (firsts cmp xs) a := by
  rw [firsts, List.foldl_append]
  rfl

theorem mem_note (h : a ∈ note cmp seen b) : a ∈ seen ∨ a = b := by
  unfold note at h
  split at h
  · exact .inl h
  · simpa using h

theorem apart_note (h : Apart cmp seen) (a : α) : Apart cmp (note cmp seen a) := by
  unfold note
  split
  · exact h
  · rename_i hnew
    refine List.pairwise_append.2 ⟨h, List.pairwise_singleton _ _, fun b hb c hc htie => ?_⟩
    obtain rfl := List.mem_singleton.1 hc
    exact hnew (List.any_eq_true.2 ⟨b, hb, htie⟩)

/-- **First occurrences do not tie.** -/
theorem apart_firsts (xs : List α) : Apart cmp (firsts cmp xs) := by
  induction xs using List.reverseRecOn with
  | nil => exact .nil
  | append_singleton xs a ih =>
    rw [firsts_append_singleton]
    exact apart_note ih a

theorem mem_of_mem_firsts (h : a ∈ firsts cmp xs) : a ∈ xs := by
  induction xs using List.reverseRecOn with
  | nil => exact h
  | append_singleton xs b ih =>
    rw [firsts_append_singleton] at h
    rcases mem_note h with h | rfl
    · exact List.mem_append_left _ (ih h)
    · simp

/-- Items that do not tie are their own first occurrences. -/
theorem firsts_of_apart (h : Apart cmp xs) : firsts cmp xs = xs := by
  induction xs using List.reverseRecOn with
  | nil => rfl
  | append_singleton xs a ih =>
    obtain ⟨hxs, -, hnew⟩ := List.pairwise_append.1 h
    have hfirst : ¬ xs.any (ties cmp · a) := by
      intro hany
      obtain ⟨b, hb, htie⟩ := List.any_eq_true.1 hany
      exact hnew b hb a List.mem_cons_self htie
    rw [firsts_append_singleton, ih hxs, note, if_neg hfirst]

section

variable [TransCmp cmp]

@[simp] theorem ties_refl (a : α) : ties cmp a a := ties_iff.2 ReflCmp.compare_self

theorem ties_symm (h : ties cmp a b) : ties cmp b a := ties_iff.2 (OrientedCmp.eq_symm (ties_iff.1 h))

theorem ties_trans (hab : ties cmp a b) (hbc : ties cmp b c) : ties cmp a c :=
  ties_iff.2 (TransCmp.eq_trans (ties_iff.1 hab) (ties_iff.1 hbc))

/-- Items that tie look the same to any other. -/
theorem ties_congr (h : ties cmp a b) (c : α) : ties cmp a c = ties cmp b c :=
  Bool.eq_iff_iff.2 ⟨ties_trans (ties_symm h), ties_trans h⟩

theorem exists_ties_note (h : (∃ b ∈ seen, ties cmp b a) ∨ ties cmp c a) :
    ∃ b ∈ note cmp seen c, ties cmp b a := by
  unfold note
  split
  · rename_i hknown
    rcases h with h | h
    · exact h
    · obtain ⟨b, hb, htie⟩ := List.any_eq_true.1 hknown
      exact ⟨b, hb, ties_trans htie h⟩
  · rcases h with ⟨b, hb, htie⟩ | h
    · exact ⟨b, List.mem_append_left _ hb, htie⟩
    · exact ⟨c, by simp, h⟩

/-- **Every item ties with a first occurrence.** -/
theorem exists_mem_firsts (h : a ∈ xs) : ∃ b ∈ firsts cmp xs, ties cmp b a := by
  induction xs using List.reverseRecOn with
  | nil => exact absurd h List.not_mem_nil
  | append_singleton xs c ih =>
    rw [firsts_append_singleton]
    refine exists_ties_note ?_
    rcases List.mem_append.1 h with h | h
    · exact .inl (ih h)
    · obtain rfl := List.mem_singleton.1 h
      exact .inr (ties_refl a)

/-- Something ties with an item exactly when a first occurrence does. -/
theorem any_ties_firsts (xs : List α) (a : α) :
    (firsts cmp xs).any (ties cmp · a) = xs.any (ties cmp · a) := by
  rw [Bool.eq_iff_iff, List.any_eq_true, List.any_eq_true]
  constructor
  · rintro ⟨b, hb, htie⟩
    exact ⟨b, mem_of_mem_firsts hb, htie⟩
  · rintro ⟨b, hb, htie⟩
    obtain ⟨c, hc, htie'⟩ : ∃ c ∈ firsts cmp xs, ties cmp c b := exists_mem_firsts hb
    exact ⟨c, hc, ties_trans htie' htie⟩

/-- **Items that do not tie but all tie with some in a list are no more
than the list.** -/
theorem Apart.length_le (h : Apart cmp xs) (hin : ∀ a ∈ xs, ∃ b ∈ ys, ties cmp b a) :
    xs.length ≤ ys.length := by
  classical
  choose! partner hmem htie using hin
  have hnodup : (xs.map partner).Nodup := by
    refine List.pairwise_map.2 (h.imp_of_mem fun {a b} ha hb hne heq => hne ?_)
    have hb' := htie b hb
    rw [← heq] at hb'
    exact ties_trans (ties_symm (htie a ha)) hb'
  have hsub : xs.map partner ⊆ ys := by
    intro b hb
    obtain ⟨a, ha, rfl⟩ := List.mem_map.1 hb
    exact hmem a ha
  simpa using (hnodup.subperm hsub).length_le

/-- **What comes after a list adds what does not tie with it.** -/
theorem firsts_append (xs ys : List α) :
    firsts cmp (xs ++ ys) =
      firsts cmp xs ++ (firsts cmp ys).filter fun a => !xs.any (ties cmp · a) := by
  induction ys using List.reverseRecOn with
  | nil => simp
  | append_singleton ys a ih =>
    have hknown : (firsts cmp (xs ++ ys)).any (ties cmp · a) =
        (xs.any (ties cmp · a) || (firsts cmp ys).any (ties cmp · a)) := by
      rw [any_ties_firsts, any_ties_firsts, List.any_append]
    rw [← List.append_assoc, firsts_append_singleton, firsts_append_singleton, note, hknown, note]
    by_cases hafter : (firsts cmp ys).any (ties cmp · a) = true
    · rw [hafter, Bool.or_true, if_pos rfl, if_pos rfl, ih]
    · rw [Bool.not_eq_true] at hafter
      rw [hafter, Bool.or_false, if_neg Bool.false_ne_true, List.filter_append, ih]
      by_cases hbefore : xs.any (ties cmp · a) = true
      · simp [hbefore]
      · simp [hbefore]

end

end SegmentQuery
