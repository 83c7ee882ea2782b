import Mathlib.Data.List.Forall2
import Mathlib.Data.List.Induction
/-!
# Lists and errors

A walk through a list that may fail goes through exactly when every step
does; what it yields is then what the steps yield. A list may also be worked
off as a tree, two by two.
-/


namespace SegmentQuery

variable {ε α β σ : Type}

/-! ## Lists in step -/

/-- Lists have the same images exactly when they go in step. -/
theorem forall₂_iff_map_eq {f : α → σ} {g : β → σ} {xs : List α} {ys : List β} :
    List.Forall₂ (fun x y => f x = g y) xs ys ↔ xs.map f = ys.map g := by
  have hpairs : List.Forall₂ (· = ·) (xs.map f) (ys.map g) ↔ xs.map f = ys.map g := by
    rw [List.forall₂_eq_eq_eq]
  rwa [List.forall₂_map_left_iff, List.forall₂_map_right_iff] at hpairs

/-- What goes in step with its originals is their image. -/
theorem map_eq_of_forall₂ {f : α → β} {xs : List α} {ys : List β}
    (h : List.Forall₂ (fun x y => f x = y) xs ys) : xs.map f = ys :=
  (forall₂_iff_map_eq.1 h).trans (List.map_id ys)

/-- Where every item has a partner the partners make a list in step. -/
theorem exists_forall₂ {R : α → β → Prop} {xs : List α} (h : ∀ x ∈ xs, ∃ y, R x y) :
    ∃ ys, List.Forall₂ R xs ys := by
  induction xs with
  | nil => exact ⟨[], .nil⟩
  | cons x xs ih =>
    obtain ⟨⟨y, hy⟩, hxs⟩ := List.forall_mem_cons.1 h
    obtain ⟨ys, hys⟩ := ih hxs
    exact ⟨y :: ys, .cons hy hys⟩

/-- What is in the second list has a partner in the first. -/
theorem exists_of_mem_right {R : α → β → Prop} {xs : List α} {ys : List β}
    (h : List.Forall₂ R xs ys) {y : β} (hy : y ∈ ys) : ∃ x ∈ xs, R x y := by
  obtain ⟨i, hi, rfl⟩ := List.mem_iff_getElem.1 hy
  exact ⟨_, List.get_mem xs ⟨i, h.length_eq ▸ hi⟩, h.get (h.length_eq ▸ hi) hi⟩

/-- What is in one of two lists in step has its partner in the same
place. -/
theorem getElem?_of_forall₂ {R : α → β → Prop} {xs : List α} {ys : List β}
    (h : List.Forall₂ R xs ys) {i : Nat} {x : α} (hx : xs[i]? = some x) :
    ∃ y, ys[i]? = some y ∧ R x y := by
  obtain ⟨hi, rfl⟩ := List.getElem?_eq_some_iff.1 hx
  have hi' : i < ys.length := h.length_eq ▸ hi
  exact ⟨ys[i], List.getElem?_eq_getElem hi', h.get hi hi'⟩

/-- Two lists in step with a third are in step. -/
theorem forall₂_join {R : α → β → Prop} {S : α → σ → Prop} {T : β → σ → Prop} {xs : List α}
    {ys : List β} {zs : List σ} (hR : List.Forall₂ R xs ys) (hS : List.Forall₂ S xs zs)
    (hT : ∀ x y z, R x y → S x z → T y z) : List.Forall₂ T ys zs := by
  induction hR generalizing zs with
  | nil =>
    obtain rfl := List.forall₂_nil_left_iff.1 hS
    exact .nil
  | @cons x y xs ys hxy _ ih =>
    obtain ⟨z, zs, hxz, hrest, rfl⟩ := List.forall₂_cons_left_iff.1 hS
    exact .cons (hT x y z hxy hxz) (ih hrest)

/-- What goes between two lists in step makes a list in step with both. -/
theorem exists_forall₂_between {R : α → σ → Prop} {S : β → σ → Prop} {xs : List α} {ys : List β}
    (h : List.Forall₂ (fun x y => ∃ z, R x z ∧ S y z) xs ys) :
    ∃ zs, List.Forall₂ R xs zs ∧ List.Forall₂ S ys zs := by
  induction h with
  | nil => exact ⟨[], .nil, .nil⟩
  | cons hxy _ ih =>
    obtain ⟨z, hx, hy⟩ := hxy
    obtain ⟨zs, hxs, hys⟩ := ih
    exact ⟨z :: zs, .cons hx hxs, .cons hy hys⟩

/-! ## Steps that may fail -/

namespace Except

/-- What a failure is reported as is no success. -/
theorem mapError_eq_ok {x : Except ε α} {f : ε → σ} {a : α} :
    x.mapError f = .ok a ↔ x = .ok a := by
  cases x with
  | error e => exact iff_of_false (fun h => nomatch h) fun h => nomatch h
  | ok b => exact ⟨fun h => congrArg _ (Except.ok.inj h), fun h => congrArg _ (Except.ok.inj h)⟩

/-- A sequence of two steps goes through when both do. -/
theorem bind_eq_ok {x : Except ε α} {f : α → Except ε β} {b : β} :
    (x >>= f) = .ok b ↔ ∃ a, x = .ok a ∧ f a = .ok b := by
  cases x with
  | error e => simp [bind, Except.bind]
  | ok a => simp [bind, Except.bind]

theorem map_eq_ok {x : Except ε α} {f : α → β} {b : β} :
    x.map f = .ok b ↔ ∃ a, x = .ok a ∧ f a = b := by
  cases x with
  | error e => simp [Except.map]
  | ok a => simp [Except.map]

theorem toOption_eq_some {x : Except ε α} {a : α} : x.toOption = some a ↔ x = .ok a := by
  cases x <;> simp [Except.toOption]

/-- What is found to have gone through yields something. -/
theorem exists_ok_of_isOk {x : Except ε α} (h : x.isOk = true) : ∃ a, x = .ok a := by
  cases x with
  | error e => exact absurd h Bool.false_ne_true
  | ok a => exact ⟨a, rfl⟩

/-- **A list of steps goes through when each one does.** -/
theorem mapM_eq_ok {f : α → Except ε β} {xs : List α} {ys : List β} :
    xs.mapM f = .ok ys ↔ List.Forall₂ (fun x y => f x = .ok y) xs ys := by
  induction xs generalizing ys with
  | nil =>
    rw [List.mapM_nil, List.forall₂_nil_left_iff]
    constructor
    · rintro ⟨⟩
      rfl
    · rintro rfl
      rfl
  | cons x xs ih =>
    rw [List.mapM_cons, bind_eq_ok, List.forall₂_cons_left_iff]
    constructor
    · rintro ⟨y, hy, hrest⟩
      obtain ⟨zs, hzs, hpure⟩ := bind_eq_ok.1 hrest
      obtain rfl : y :: zs = ys := by simpa [pure, Except.pure] using hpure
      exact ⟨y, zs, hy, ih.1 hzs, rfl⟩
    · rintro ⟨y, zs, hy, hzs, rfl⟩
      exact ⟨y, hy, bind_eq_ok.2 ⟨zs, ih.2 hzs, rfl⟩⟩

/-- A list of steps goes through when each one does, whatever they
yield. -/
theorem exists_mapM_ok {f : α → Except ε β} {xs : List α} :
    (∃ ys, xs.mapM f = .ok ys) ↔ ∀ x ∈ xs, ∃ y, f x = .ok y := by
  simp only [mapM_eq_ok]
  constructor
  · rintro ⟨ys, h⟩ x hx
    obtain ⟨i, hi, rfl⟩ := List.mem_iff_getElem.1 hx
    exact ⟨_, h.get hi (h.length_eq ▸ hi)⟩
  · intro h
    exact exists_forall₂ h

/-- Steps that do the same with every item are the same list of steps. -/
theorem mapM_congr {f g : α → Except ε β} {xs : List α} (h : ∀ x ∈ xs, f x = g x) :
    xs.mapM f = xs.mapM g := by
  induction xs with
  | nil => rfl
  | cons x xs ih =>
    rw [List.mapM_cons, List.mapM_cons, h x List.mem_cons_self,
      ih fun x hx => h x (List.mem_cons_of_mem _ hx)]

/-- Steps on the pairs of two lists in step go through when each one does,
and what they yield is in step with the first list. -/
theorem exists_mapM_zip_ok {R : α → β → Prop} {S : α → σ → Prop} {f : α × β → Except ε σ}
    {xs : List α} {ys : List β} (h : List.Forall₂ R xs ys)
    (hf : ∀ x ∈ xs, ∀ y, R x y → ∃ z, f (x, y) = .ok z ∧ S x z) :
    ∃ zs, (xs.zip ys).mapM f = .ok zs ∧ List.Forall₂ S xs zs := by
  induction h with
  | nil => exact ⟨[], rfl, .nil⟩
  | @cons x y xs ys hxy _ ih =>
    obtain ⟨hx, hxs⟩ := List.forall_mem_cons.1 hf
    obtain ⟨z, hz, hS⟩ := hx y hxy
    obtain ⟨zs, hzs, hSs⟩ := ih hxs
    rw [mapM_eq_ok] at hzs
    exact ⟨z :: zs, mapM_eq_ok.2 (.cons hz hzs), .cons hS hSs⟩

/-- What steps on the pairs of two lists in step yield is in step with the
first list. -/
theorem forall₂_of_mapM_zip {R : α → β → Prop} {S : α → σ → Prop} {f : α × β → Except ε σ}
    {xs : List α} {ys : List β} {zs : List σ} (h : List.Forall₂ R xs ys)
    (hf : ∀ x ∈ xs, ∀ y z, R x y → f (x, y) = .ok z → S x z)
    (hok : (xs.zip ys).mapM f = .ok zs) : List.Forall₂ S xs zs := by
  rw [mapM_eq_ok] at hok
  induction h generalizing zs with
  | nil =>
    obtain rfl := List.forall₂_nil_left_iff.1 hok
    exact .nil
  | @cons x y xs ys hxy _ ih =>
    obtain ⟨hx, hxs⟩ := List.forall_mem_cons.1 hf
    obtain ⟨z, zs, hz, hzs, rfl⟩ := List.forall₂_cons_left_iff.1 hok
    exact .cons (hx y z hxy hz) (ih hxs hzs)

/-- Checks on a list pass when each one does. -/
theorem forM_eq_ok {f : α → Except ε Unit} {xs : List α} :
    xs.forM f = .ok () ↔ ∀ x ∈ xs, f x = .ok () := by
  induction xs with
  | nil => exact ⟨fun _ _ h => absurd h (by simp), fun _ => rfl⟩
  | cons x xs ih =>
    show (f x >>= fun _ => xs.forM f) = .ok () ↔ _
    rw [bind_eq_ok, List.forall_mem_cons, ← ih]
    constructor
    · rintro ⟨⟨⟩, hx, hxs⟩
      exact ⟨hx, hxs⟩
    · rintro ⟨hx, hxs⟩
      exact ⟨(), hx, hxs⟩

/-- Steps from state to state that all go through reach the state that
the plain steps reach. -/
theorem foldlM_ok {f : σ → α → Except ε σ} {g : σ → α → σ} {xs : List α} {s : σ}
    (h : ∀ s, ∀ x ∈ xs, f s x = .ok (g s x)) : xs.foldlM f s = .ok (xs.foldl g s) := by
  induction xs generalizing s with
  | nil => rfl
  | cons x xs ih =>
    rw [List.foldlM_cons, h s x List.mem_cons_self]
    exact ih fun s x hx => h s x (List.mem_cons_of_mem _ hx)

/-- Steps that do the same with every item are the same walk. -/
theorem foldlM_congr {f g : σ → α → Except ε σ} {xs : List α} {s : σ}
    (h : ∀ s, ∀ x ∈ xs, f s x = g s x) : xs.foldlM f s = xs.foldlM g s := by
  induction xs generalizing s with
  | nil => rfl
  | cons x xs ih =>
    rw [List.foldlM_cons, List.foldlM_cons, h s x List.mem_cons_self]
    exact congrArg (g s x >>= ·) (funext fun s => ih fun s x hx => h s x (List.mem_cons_of_mem _ hx))

/-- Where steps go through, others that do the same reach the same
state. -/
theorem foldlM_imp {f g : σ → α → Except ε σ} (h : ∀ s x t, f s x = .ok t → g s x = .ok t)
    {xs : List α} {s t : σ} (hf : xs.foldlM f s = .ok t) : xs.foldlM g s = .ok t := by
  induction xs generalizing s with
  | nil => exact hf
  | cons x xs ih =>
    obtain ⟨next, hnext, hrest⟩ := bind_eq_ok.1 hf
    rw [List.foldlM_cons, h s x next hnext]
    exact ih hrest

/-- In a walk that goes through every item was taken in at some state. -/
theorem exists_of_foldlM_ok {f : σ → α → Except ε σ} {xs : List α} {s t : σ}
    (h : xs.foldlM f s = .ok t) {x : α} (hx : x ∈ xs) : ∃ s' t', f s' x = .ok t' := by
  induction xs generalizing s with
  | nil => exact absurd hx List.not_mem_nil
  | cons y xs ih =>
    obtain ⟨next, hnext, hrest⟩ := bind_eq_ok.1 h
    rcases List.mem_cons.1 hx with rfl | hx
    · exact ⟨s, next, hnext⟩
    · exact ih hrest hx

/-- A walk over pieces is a walk over what they make up. -/
theorem foldlM_flatten {f : σ → α → Except ε σ} {pieces : List (List α)} {s : σ} :
    pieces.flatten.foldlM f s = pieces.foldlM (fun s piece => piece.foldlM f s) s := by
  induction pieces generalizing s with
  | nil => rfl
  | cons piece pieces ih =>
    rw [List.flatten_cons, List.foldlM_append, List.foldlM_cons]
    exact congrArg (piece.foldlM f s >>= ·) (funext fun s => ih)

/-- Steps that go through at every state make a walk that does. -/
theorem exists_foldlM_ok {f : σ → α → Except ε σ} {xs : List α} {s : σ}
    (h : ∀ s, ∀ x ∈ xs, ∃ t, f s x = .ok t) : ∃ t, xs.foldlM f s = .ok t := by
  induction xs generalizing s with
  | nil => exact ⟨s, rfl⟩
  | cons x xs ih =>
    obtain ⟨next, hnext⟩ := h s x List.mem_cons_self
    obtain ⟨t, ht⟩ := ih (s := next) fun s x hx => h s x (List.mem_cons_of_mem _ hx)
    exact ⟨t, bind_eq_ok.2 ⟨next, hnext, ht⟩⟩

/-- **A walk that goes through is followed** by one whose steps follow its
steps. -/
theorem exists_foldlM {ε' : Type} {R : α → β → Prop} {f : α → σ → Except ε α}
    {g : β → σ → Except ε' β} {xs : List σ} {a a' : α} {b : β} (hstart : R a b)
    (hstep : ∀ a b, R a b → ∀ x ∈ xs, ∀ a', f a x = .ok a' → ∃ b', g b x = .ok b' ∧ R a' b')
    (h : xs.foldlM f a = .ok a') : ∃ b', xs.foldlM g b = .ok b' ∧ R a' b' := by
  induction xs generalizing a b with
  | nil => exact ⟨b, rfl, Except.ok.inj h ▸ hstart⟩
  | cons x xs ih =>
    obtain ⟨next, hnext, hrest⟩ := bind_eq_ok.1 h
    obtain ⟨b', hb', hR⟩ := hstep a b hstart x List.mem_cons_self next hnext
    obtain ⟨b'', hb'', hR'⟩ :=
      ih hR (fun a b hab y hy => hstep a b hab y (List.mem_cons_of_mem x hy)) hrest
    refine ⟨b'', ?_, hR'⟩
    rw [List.foldlM_cons, hb']
    exact hb''

/-! ## Failures of one kind -/

section

variable {P : ε → Prop}

/-- A computation whose failures all have a property. -/
def FailsOnly (P : ε → Prop) (x : Except ε α) : Prop := ∀ e, x = .error e → P e

theorem failsOnly_ok (a : α) : FailsOnly P (.ok a : Except ε α) := fun _ h => nomatch h

theorem failsOnly_error {e : ε} (h : P e) : FailsOnly P (.error e : Except ε α) := by
  rintro _ ⟨⟩
  exact h

theorem FailsOnly.bind {x : Except ε α} {f : α → Except ε β} (hx : FailsOnly P x)
    (hf : ∀ a, FailsOnly P (f a)) : FailsOnly P (x >>= f) := by
  cases x with
  | error e => exact failsOnly_error (hx e rfl)
  | ok a => exact hf a

theorem FailsOnly.map {x : Except ε α} (hx : FailsOnly P x) (f : α → β) :
    FailsOnly P (x.map f) := by
  cases x with
  | error e => exact failsOnly_error (hx e rfl)
  | ok a => exact failsOnly_ok _

theorem FailsOnly.mapError {f : σ → ε} (h : ∀ e, P (f e)) (x : Except σ α) :
    FailsOnly P (x.mapError f) := by
  cases x with
  | error e => exact failsOnly_error (h e)
  | ok a => exact failsOnly_ok a

theorem FailsOnly.mapM {f : α → Except ε β} {xs : List α} (hf : ∀ x ∈ xs, FailsOnly P (f x)) :
    FailsOnly P (xs.mapM f) := by
  induction xs with
  | nil => exact failsOnly_ok _
  | cons x xs ih =>
    obtain ⟨hx, hxs⟩ := List.forall_mem_cons.1 hf
    rw [List.mapM_cons]
    exact hx.bind fun y => (ih hxs).bind fun ys => failsOnly_ok _

theorem FailsOnly.foldlM {f : σ → α → Except ε σ} (hf : ∀ s x, FailsOnly P (f s x)) (xs : List α)
    (s : σ) : FailsOnly P (xs.foldlM f s) := by
  induction xs generalizing s with
  | nil => exact failsOnly_ok _
  | cons x xs ih => rw [List.foldlM_cons]; exact (hf s x).bind ih

end

/-! ## Steps that agree -/

/-- Two steps agree when both fail, or both go through and what they yield
is related. -/
inductive Agree (R : α → β → Prop) : Except ε α → Except ε β → Prop
  | ok {a : α} {b : β} : R a b → Agree R (.ok a) (.ok b)
  | error {e e' : ε} : Agree R (.error e) (.error e')

variable {γ δ : Type} {R : α → β → Prop} {x : Except ε α} {y : Except ε β}

/-- Where the first of two steps that agree goes through, so does the
other. -/
theorem Agree.of_ok {a : α} (h : Agree R x y) (hx : x = .ok a) : ∃ b, y = .ok b ∧ R a b := by
  subst hx
  cases h with
  | ok hab => exact ⟨_, rfl, hab⟩

/-- Where the second of two steps that agree goes through, so does the
first. -/
theorem Agree.exists_ok {b : β} (h : Agree R x y) (hy : y = .ok b) : ∃ a, x = .ok a ∧ R a b := by
  subst hy
  cases h with
  | ok hab => exact ⟨_, rfl, hab⟩

/-- Steps agree when either one's going through carries over to the
other. -/
theorem agree_of_imp (hx : ∀ a, x = .ok a → ∃ b, y = .ok b ∧ R a b)
    (hy : ∀ b, y = .ok b → ∃ a, x = .ok a) : Agree R x y := by
  cases x with
  | ok a =>
    obtain ⟨b, rfl, hab⟩ := hx a rfl
    exact .ok hab
  | error e =>
    cases y with
    | error e' => exact .error
    | ok b =>
      obtain ⟨a, ha⟩ := hy b rfl
      exact nomatch ha

/-- Steps that agree, and then steps that agree on what is related,
agree. -/
theorem Agree.bind {S : γ → δ → Prop} {f : α → Except ε γ} {g : β → Except ε δ} (h : Agree R x y)
    (hnext : ∀ a b, R a b → Agree S (f a) (g b)) : Agree S (x >>= f) (y >>= g) := by
  cases h with
  | error => exact .error
  | ok hab => exact hnext _ _ hab

/-- What agrees with a step agrees with all that do the same. -/
theorem Agree.trans_eq {z : Except ε β} (h : Agree R x y) (hsame : Agree (· = ·) y z) :
    Agree R x z := by
  cases hsame with
  | error =>
    cases h with
    | error => exact .error
  | ok hbc =>
    cases h with
    | ok hab => exact .ok (hbc ▸ hab)

/-- **Walks whose steps agree agree.** -/
theorem agree_foldlM {f : α → σ → Except ε α} {g : β → σ → Except ε β} {xs : List σ} {a : α} {b : β}
    (hstart : R a b) (hstep : ∀ a b, R a b → ∀ x ∈ xs, Agree R (f a x) (g b x)) :
    Agree R (xs.foldlM f a) (xs.foldlM g b) := by
  induction xs generalizing a b with
  | nil => exact .ok hstart
  | cons x xs ih =>
    rw [List.foldlM_cons, List.foldlM_cons]
    exact (hstep a b hstart x List.mem_cons_self).bind fun a b hab =>
      ih hab fun a b hab y hy => hstep a b hab y (List.mem_cons_of_mem x hy)

/-- **Reading a whole list before working through it** agrees with reading
each item when its turn comes. -/
theorem agree_mapM_foldlM (read : α → Except ε β) (step : σ → α × β → Except ε σ) (xs : List α)
    (s : σ) :
    Agree (· = ·) (xs.mapM read >>= fun ys => (xs.zip ys).foldlM step s)
      (xs.foldlM (fun s x => read x >>= fun y => step s (x, y)) s) := by
  induction xs generalizing s with
  | nil => exact .ok rfl
  | cons x xs ih =>
    rw [List.mapM_cons, List.foldlM_cons]
    cases hread : read x with
    | error e => exact .error
    | ok y =>
      cases hstep : step s (x, y) with
      | error e =>
        -- the item is read but cannot be taken in, whatever the items behind it are
        simp only [bind, Except.bind, hstep, pure, Except.pure]
        cases xs.mapM read with
        | error e' => exact .error
        | ok ys =>
          simp only [List.zip_cons_cons, List.foldlM_cons, hstep, bind, Except.bind]
          exact .error
      | ok next =>
        have hrest := ih next
        simp only [bind, Except.bind, hstep, pure, Except.pure] at hrest ⊢
        cases hys : xs.mapM read with
        | error e' =>
          rw [hys] at hrest
          exact hrest
        | ok ys =>
          rw [hys] at hrest
          simp only [List.zip_cons_cons, List.foldlM_cons, hstep, bind, Except.bind]
          exact hrest

/-- A walk over the positions of a list is a walk over its items. -/
theorem mapM_range {f : Nat → Except ε β} {g : α → Except ε β} {xs : List α}
    (h : ∀ i x, xs[i]? = some x → f i = g x) : (List.range xs.length).mapM f = xs.mapM g := by
  induction xs using List.reverseRecOn with
  | nil => rfl
  | append_singleton xs x ih =>
    have hfront := ih fun i y hy => h i y (List.getElem?_append_left
      (List.getElem?_eq_some_iff.1 hy).1 ▸ hy)
    have hlast := h xs.length x List.getElem?_concat_length
    rw [List.length_append, List.length_singleton, List.range_succ, List.mapM_append,
      List.mapM_append, hfront, List.mapM_cons, List.mapM_cons, hlast]
    rfl

end Except

/-! ## Trees of merges -/

/-- Which things are merged with which. -/
inductive MergeTree (α : Type)
  | leaf (item : α)
  | node (left right : MergeTree α)

namespace MergeTree

/-- What is merged, from left to right. -/
def leaves : MergeTree α → List α
  | leaf item => [item]
  | node left right => left.leaves ++ right.leaves

/-- What the merges make. -/
def merged (merge : α → α → Except ε α) : MergeTree α → Except ε α
  | leaf item => .ok item
  | node left right => do
    let l ← left.merged merge
    let r ← right.merged merge
    merge l r

/-- Both sides are merged before they are merged with each other. -/
theorem merged_node {merge : α → α → Except ε α} {left right : MergeTree α} {l r : α}
    (hl : left.merged merge = .ok l) (hr : right.merged merge = .ok r) :
    (node left right).merged merge = merge l r := by
  rw [merged, hl, hr]
  rfl

end MergeTree

end SegmentQuery
