import SegmentQuery.Proofs.Except
/-!
# Computations in lockstep

Two computations go in lockstep when both go through, with results that are
related, or both fail in the same way. What is built from steps in lockstep
is in lockstep, and what its results have in common it yields either way.
-/


namespace SegmentQuery

namespace Except

variable {ε α β γ δ σ : Type}

/-- Both go through and what they yield is related, or both fail in the same
way, which is of one kind. -/
inductive Lockstep (P : ε → Prop) (R : α → β → Prop) : Except ε α → Except ε β → Prop
  | ok {a : α} {b : β} : R a b → Lockstep P R (.ok a) (.ok b)
  | error {e : ε} : P e → Lockstep P R (.error e) (.error e)

variable {P : ε → Prop} {R : α → β → Prop} {S : γ → δ → Prop} {x : Except ε α} {y : Except ε β}

/-- A computation goes in lockstep with itself. -/
theorem FailsOnly.lockstep (h : FailsOnly P x) : Lockstep P (· = ·) x x := by
  cases x with
  | ok a => exact .ok rfl
  | error e => exact .error (h e rfl)

theorem Lockstep.failsOnly (h : Lockstep P R x y) : FailsOnly P x := by
  cases h with
  | ok _ => exact failsOnly_ok _
  | error he => exact failsOnly_error he

/-- Steps in lockstep, and then steps in lockstep on what is related. -/
theorem Lockstep.bind {f : α → Except ε γ} {g : β → Except ε δ} (h : Lockstep P R x y)
    (hnext : ∀ a b, R a b → Lockstep P S (f a) (g b)) : Lockstep P S (x >>= f) (y >>= g) := by
  cases h with
  | ok hab => exact hnext _ _ hab
  | error he => exact .error he

theorem Lockstep.map {f : α → γ} {g : β → δ} (h : Lockstep P R x y)
    (hfg : ∀ a b, R a b → S (f a) (g b)) : Lockstep P S (x.map f) (y.map g) := by
  cases h with
  | ok hab => exact .ok (hfg _ _ hab)
  | error he => exact .error he

/-- What related results have in common is yielded either way. -/
theorem Lockstep.map_eq {f : α → γ} {g : β → γ} (h : Lockstep P R x y)
    (hfg : ∀ a b, R a b → f a = g b) : x.map f = y.map g := by
  cases h with
  | ok hab => exact congrArg Except.ok (hfg _ _ hab)
  | error _ => rfl

/-- **Walks whose steps go in lockstep** go in lockstep. -/
theorem lockstep_foldlM {f : α → σ → Except ε α} {g : β → σ → Except ε β} {xs : List σ} {a : α}
    {b : β} (hstart : R a b) (hstep : ∀ a b, R a b → ∀ x ∈ xs, Lockstep P R (f a x) (g b x)) :
    Lockstep P R (xs.foldlM f a) (xs.foldlM g b) := by
  induction xs generalizing a b with
  | nil => exact .ok hstart
  | cons x xs ih =>
    rw [List.foldlM_cons, List.foldlM_cons]
    exact (hstep a b hstart x List.mem_cons_self).bind fun a b hab =>
      ih hab fun a b hab y hy => hstep a b hab y (List.mem_cons_of_mem x hy)

/-- **Steps on a list and its partners** go in lockstep when they do with
each of two related partners. -/
theorem lockstep_mapM_zip {f : σ × α → Except ε γ} {g : σ × β → Except ε δ} {xs : List σ}
    {as : List α} {bs : List β} (h : List.Forall₂ R as bs)
    (hstep : ∀ x a b, R a b → Lockstep P S (f (x, a)) (g (x, b))) :
    Lockstep P (List.Forall₂ S) ((xs.zip as).mapM f) ((xs.zip bs).mapM g) := by
  induction h generalizing xs with
  | nil =>
    rw [List.zip_nil_right, List.zip_nil_right]
    exact .ok .nil
  | @cons a b as bs hab _ ih =>
    cases xs with
    | nil => exact .ok .nil
    | cons x xs =>
      rw [List.zip_cons_cons, List.zip_cons_cons, List.mapM_cons, List.mapM_cons]
      exact (hstep x a b hab).bind fun c d hcd => ih.bind fun cs ds hcds => .ok (.cons hcd hcds)

end Except

end SegmentQuery
