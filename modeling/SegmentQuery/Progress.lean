/-!
# Updates that may stop halfway

Some updates work item by item, and the items done before an error stay
done. `Progress` is what such an update leaves behind: the state it
reached, and the error that stopped it there, if one did.
-/


namespace SegmentQuery

/-- The outcome of an update that keeps what it did before an error. -/
structure Progress (ε σ : Type) where
  state : σ
  error : Option ε

namespace Progress

variable {ε σ τ α : Type}

/-- An update that went through. -/
def done (s : σ) : Progress ε σ := ⟨s, none⟩

/-- An update that an error stopped. -/
def stopped (s : σ) (e : ε) : Progress ε σ := ⟨s, some e⟩

/-- Change the state to the result of a step that changes nothing when
it fails. -/
def ofExcept (s : σ) : Except ε σ → Progress ε σ
  | .ok s' => done s'
  | .error e => stopped s e

/-- Go on from the state reached, unless an error stopped the update. -/
def andThen (p : Progress ε σ) (next : σ → Progress ε σ) : Progress ε σ :=
  match p.error with
  | none => next p.state
  | some _ => p

/-- See the state as a part of a larger one. -/
def map (p : Progress ε σ) (f : σ → τ) : Progress ε τ := ⟨f p.state, p.error⟩

/-- The final state, if no error stopped the update. -/
def toExcept (p : Progress ε σ) : Except ε σ :=
  match p.error with
  | none => .ok p.state
  | some e => .error e

/-- Work through a list from the left, up to the first error. -/
def foldl (step : σ → α → Progress ε σ) (s : σ) : List α → Progress ε σ
  | [] => done s
  | a :: rest =>
    let p := step s a
    match p.error with
    | none => foldl step p.state rest
    | some _ => p

end Progress

end SegmentQuery
