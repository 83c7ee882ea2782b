import SegmentQuery.Progress
/-!
# Updates that stop halfway

A walk through a list of updates that may stop is a walk that may fail, once
the state that it leaves behind is forgotten. What every update keeps the
walk keeps, wherever it stops, and a walk of walks is one walk.
-/


namespace SegmentQuery

namespace Progress

variable {ε σ τ α β : Type}

@[simp] theorem state_map (p : Progress ε σ) (f : σ → τ) : (p.map f).state = f p.state := rfl

@[simp] theorem error_map (p : Progress ε σ) (f : σ → τ) : (p.map f).error = p.error := rfl

/-- An update that went through has no error. -/
theorem toExcept_eq_ok {p : Progress ε σ} {s : σ} : p.toExcept = .ok s ↔ p = done s := by
  obtain ⟨state, error⟩ := p
  cases error with
  | none => simp [toExcept, done]
  | some e => simp [toExcept, done]

/-- An update without an error yields the state that it reached. -/
theorem toExcept_of_error_eq_none {p : Progress ε σ} (h : p.error = none) :
    p.toExcept = .ok p.state := by
  rw [toExcept, h]

theorem toExcept_map (p : Progress ε σ) (f : σ → τ) : (p.map f).toExcept = p.toExcept.map f := by
  obtain ⟨state, error⟩ := p
  cases error <;> rfl

theorem toExcept_ofExcept (s : σ) (x : Except ε σ) : (ofExcept s x).toExcept = x := by
  cases x <;> rfl

/-- A step that changes nothing when it fails. -/
theorem of_ofExcept {s : σ} {x : Except ε σ} {e : ε} (h : (ofExcept s x).error = some e) :
    x = .error e ∧ (ofExcept s x).state = s := by
  cases x with
  | ok t => exact nomatch h
  | error e' =>
    obtain rfl := Option.some.inj h
    exact ⟨rfl, rfl⟩

/-! ## Walks -/

/-- Working through a list with updates that may stop is a walk that may
fail. -/
theorem toExcept_foldl (step : σ → α → Progress ε σ) (s : σ) (xs : List α) :
    (foldl step s xs).toExcept = xs.foldlM (fun s a => (step s a).toExcept) s := by
  induction xs generalizing s with
  | nil => rfl
  | cons x xs ih =>
    rw [List.foldlM_cons, foldl]
    obtain ⟨state, error⟩ := step s x
    cases error with
    | none => exact ih state
    | some e => rfl

/-- **A walk that stops** has gone through the items before some item,
and stops where that item's step does. -/
theorem of_foldl {step : σ → α → Progress ε σ} {s : σ} {xs : List α} {e : ε}
    (h : (foldl step s xs).error = some e) :
    ∃ before x after t, xs = before ++ x :: after ∧ foldl step s before = done t ∧
      (step t x).error = some e ∧ (foldl step s xs).state = (step t x).state := by
  induction xs generalizing s with
  | nil => exact nomatch h
  | cons x xs ih =>
    cases hx : step s x with | mk t error
    cases error with
    | some e' =>
      -- the walk is over
      have hwhole : foldl step s (x :: xs) = ⟨t, some e'⟩ := by simp only [foldl, hx]
      rw [hwhole] at h ⊢
      exact ⟨[], x, xs, s, rfl, rfl, by rw [hx]; exact h, by rw [hx]⟩
    | none =>
      have hwhole : foldl step s (x :: xs) = foldl step t xs := by simp only [foldl, hx]
      rw [hwhole] at h ⊢
      obtain ⟨before, y, after, u, rfl, hbefore, hy, hstate⟩ := ih h
      refine ⟨x :: before, y, after, u, rfl, ?_, hy, hstate⟩
      simp only [foldl, hx, hbefore]

/-- What every step keeps, a walk keeps, wherever it stops. -/
theorem foldl_preserves {P : σ → Prop} {step : σ → α → Progress ε σ} {xs : List α}
    (hstep : ∀ s, P s → ∀ x ∈ xs, P (step s x).state) {s : σ} (hs : P s) :
    P (foldl step s xs).state := by
  induction xs generalizing s with
  | nil => exact hs
  | cons x xs ih =>
    have hnext := hstep s hs x List.mem_cons_self
    unfold foldl
    dsimp only
    split
    · exact ih (fun s hs x hx => hstep s hs x (List.mem_cons_of_mem _ hx)) hnext
    · exact hnext

theorem foldl_append (step : σ → α → Progress ε σ) (s : σ) (xs ys : List α) :
    foldl step s (xs ++ ys) = (foldl step s xs).andThen fun t => foldl step t ys := by
  induction xs generalizing s with
  | nil => rfl
  | cons x xs ih =>
    rw [List.cons_append, foldl, foldl]
    obtain ⟨t, error⟩ := step s x
    cases error with
    | none => exact ih t
    | some e => rfl

theorem foldl_map (step : σ → α → Progress ε σ) (f : β → α) (s : σ) (xs : List β) :
    foldl step s (xs.map f) = foldl (fun s x => step s (f x)) s xs := by
  induction xs generalizing s with
  | nil => rfl
  | cons x xs ih => simp only [List.map_cons, foldl, ih]

/-- A walk of walks is one walk. -/
theorem foldl_flatMap (step : σ → α → Progress ε σ) (f : β → List α) (s : σ) (xs : List β) :
    foldl step s (xs.flatMap f) = foldl (fun s x => foldl step s (f x)) s xs := by
  induction xs generalizing s with
  | nil => rfl
  | cons x xs ih =>
    rw [List.flatMap_cons, foldl_append]
    simp only [ih]
    rfl

end Progress

end SegmentQuery
