import SegmentQuery.Proofs.Aggregate.MergeLaws
import SegmentQuery.Proofs.Number.Zeros
/-!
# Texts of decimal sums in different orders

Merging decimals in another order makes a sum of the same value. Rounded to
a precision it is shown by the same text. A sum that is shown as it is
shows its scale too, and that is the greatest one of the decimals only as
long as no sum on the way is zero and each fits with all the places: from a
zero on, a sum has the scale of what comes after it.
-/


namespace SegmentQuery

open Number

namespace Decimal

/-- The exact sum of some decimals. -/
def total (ds : List Decimal) : ℚ := (ds.map toRat).sum

/-- The greatest scale of some decimals. -/
def greatestScale (ds : List Decimal) : ℕ := (ds.map (·.scale)).foldr max 0

/-- The sums of some of the decimals are values of decimals, whichever are
summed. -/
def SumsHeld (ds : List Decimal) : Prop := ∀ part, part.Subperm ds → IsValue (total part)

/-- No sum of some of the decimals is zero, and each fits with the greatest
scale. -/
def SumsSteady (ds : List Decimal) : Prop := ∀ part, part.Subperm ds → part ≠ [] →
  total part ≠ 0 ∧ |total part| * 10 ^ greatestScale ds < coeffLimit

variable {ds es rest : List Decimal} {d first next : Decimal}

@[simp]
theorem total_nil : total [] = 0 := rfl

@[simp]
theorem total_cons (d : Decimal) (ds : List Decimal) : total (d :: ds) = d.toRat + total ds :=
  List.sum_cons

theorem total_perm (h : ds.Perm es) : total ds = total es := (h.map _).sum_eq

@[simp]
theorem greatestScale_cons (d : Decimal) (ds : List Decimal) :
    greatestScale (d :: ds) = max d.scale (greatestScale ds) := rfl

theorem greatestScale_perm (h : ds.Perm es) : greatestScale ds = greatestScale es :=
  (h.map _).foldr_eq 0

theorem SumsHeld.perm (hheld : SumsHeld ds) (h : ds.Perm es) : SumsHeld es :=
  fun part hpart => hheld part (hpart.trans h.symm.subperm)

theorem SumsSteady.perm (hsteady : SumsSteady ds) (h : ds.Perm es) : SumsSteady es := by
  intro part hpart hne
  rw [← greatestScale_perm h]
  exact hsteady part (hpart.trans h.symm.subperm) hne

/-- The digits of some decimals, all with the same places, add up to the
digits of their sum. -/
theorem exists_total_eq {places : ℕ} (hscales : ∀ d ∈ ds, d.scale ≤ places) : ∃ c : ℤ,
    total ds = c / 10 ^ places ∧
      c.natAbs ≤ (ds.map fun d => d.magnitude * tenPow (places - d.scale)).sum := by
  induction ds with
  | nil => exact ⟨0, by norm_num, le_rfl⟩
  | cons d ds ih =>
    obtain ⟨hd, hrest⟩ := List.forall_mem_cons.1 hscales
    obtain ⟨c, hc, hle⟩ := ih hrest
    refine ⟨d.coeff * tenPow (places - d.scale) + c, ?_, ?_⟩
    · have hpow : (10 : ℚ) ^ places = 10 ^ (places - d.scale) * 10 ^ d.scale := by
        rw [← pow_add, Nat.sub_add_cancel hd]
      rw [total_cons, hc, toRat]
      push_cast [tenPow_eq]
      rw [add_div, hpow]
      field_simp
    · rw [List.map_cons, List.sum_cons]
      have hone : (d.coeff * (tenPow (places - d.scale) : ℕ)).natAbs =
          d.magnitude * tenPow (places - d.scale) := by
        rw [Int.natAbs_mul, Scaled.natAbs_coeff, Int.natAbs_natCast]
      omega

/-- **Short decimals have sums**, whichever are summed. -/
theorem sumsHeld_of_lt (places : ℕ) (hplaces : places ≤ maxScale)
    (hscales : ∀ d ∈ ds, d.scale ≤ places)
    (hfits : (ds.map fun d => d.magnitude * tenPow (places - d.scale)).sum < coeffLimit) :
    SumsHeld ds := by
  rintro part ⟨some, hperm, hsome⟩
  obtain ⟨c, hc, hle⟩ := exists_total_eq fun d hd => hscales d (hsome.mem hd)
  have hpart := (hsome.map fun d => d.magnitude * tenPow (places - d.scale)).sum_le_sum
    fun _ _ => Nat.zero_le _
  obtain ⟨z, -, hz⟩ := exists_ofParts? (hle.trans_lt (hpart.trans_lt hfits)) hplaces
  exact ⟨z, by rw [toRat_of_toScaled hz, ← total_perm hperm, hc]⟩

/-! ## A sum on its way -/

/-- Every sum on the way from `first` through `rest` is the value of a
decimal. -/
def RunsHeld (first : Decimal) (rest : List Decimal) : Prop :=
  ∀ part, part <+: rest → IsValue (first.toRat + total part)

/-- No sum on the way from `first` through `rest` is zero, and each fits
with `places` fractional digits, as many as any of the decimals has. -/
structure RunsSteadily (places : ℕ) (first : Decimal) (rest : List Decimal) : Prop where
  scale_le : greatestScale (first :: rest) ≤ places
  toRat_ne_zero : ∀ d ∈ rest, d.toRat ≠ 0
  sums : ∀ part, part <+: rest → first.toRat + total part ≠ 0 ∧
    |first.toRat + total part| * 10 ^ places < coeffLimit

theorem SumsHeld.runsHeld (h : SumsHeld (first :: rest)) : RunsHeld first rest := by
  intro part hpart
  rw [← total_cons]
  exact h _ (hpart.sublist.cons_cons first).subperm

theorem SumsSteady.runsSteadily (h : SumsSteady (first :: rest)) :
    RunsSteadily (greatestScale (first :: rest)) first rest where
  scale_le := le_rfl
  toRat_ne_zero d hd := by
    have hmem : [d].Subperm (first :: rest) :=
      (List.singleton_sublist.2 (List.mem_cons_of_mem first hd)).subperm
    have hsingle := (h [d] hmem (List.cons_ne_nil _ _)).1
    rwa [total_cons, total_nil, add_zero] at hsingle
  sums part hpart := by
    rw [← total_cons]
    exact h _ (hpart.sublist.cons_cons first).subperm (List.cons_ne_nil _ _)

/-- The first sum on the way. -/
theorem RunsHeld.head (h : RunsHeld first (d :: rest)) : IsValue (first.toRat + d.toRat) := by
  have hone := h [d] ⟨rest, rfl⟩
  rwa [total_cons, total_nil, add_zero] at hone

theorem RunsHeld.tail (h : RunsHeld first (d :: rest)) (hnext : next.toRat = first.toRat + d.toRat) :
    RunsHeld next rest := by
  intro part hpart
  have hmore := h (d :: part) (List.prefix_cons_inj d |>.2 hpart)
  rwa [total_cons, ← add_assoc, ← hnext] at hmore

/-- **A steady sum takes on the greater scale.** -/
theorem RunsSteadily.scale_eq {places : ℕ} (h : RunsSteadily places first (d :: rest))
    (hadd : first.add? d = some next) : next.scale = max first.scale d.scale := by
  have hfirst := (h.sums [] List.nil_prefix).1
  obtain ⟨-, hfits⟩ := h.sums [d] ⟨rest, rfl⟩
  rw [total_nil, add_zero] at hfirst
  rw [total_cons, total_nil, add_zero] at hfits
  have hplaces : max first.scale d.scale ≤ places := by
    have hle := h.scale_le
    simp only [greatestScale_cons] at hle
    omega
  have hpow : (10 : ℚ) ^ max first.scale d.scale ≤ 10 ^ places :=
    pow_le_pow_right₀ (by norm_num) hplaces
  exact scale_of_add? hfirst (h.toRat_ne_zero d List.mem_cons_self)
    ((mul_le_mul_of_nonneg_left hpow (abs_nonneg _)).trans_lt hfits) hadd

theorem RunsSteadily.tail {places : ℕ} (h : RunsSteadily places first (d :: rest))
    (hadd : first.add? d = some next) (hnext : next.toRat = first.toRat + d.toRat) :
    RunsSteadily places next rest where
  scale_le := by
    have hle := h.scale_le
    simp only [greatestScale_cons, h.scale_eq hadd] at hle ⊢
    omega
  toRat_ne_zero e he := h.toRat_ne_zero e (List.mem_cons_of_mem d he)
  sums part hpart := by
    have hmore := h.sums (d :: part) (List.prefix_cons_inj d |>.2 hpart)
    rwa [total_cons, ← add_assoc, ← hnext] at hmore

end Decimal

namespace AggregateFunction

open Decimal

variable {f : AggregateFunction} {column : String} {precision : ℕ} {nullHandling : Bool}

/-- Merge cells from the left, as they come. -/
def mergeAll (f : AggregateFunction) : List Cell → Except QueryError Cell
  | [] => .ok .null
  | first :: rest => rest.foldlM f.merge first

/-! ## The sum of a list -/

/-- **Decimals are merged to their exact sum**, which has the greatest
scale if it is steady. -/
theorem exists_foldlM_merge {scale : Option ℕ} {first : Decimal} {rest : List Decimal}
    (hheld : RunsHeld first rest) : ∃ sum,
      (rest.map Cell.bigDecimal).foldlM (sumPrecision column precision scale nullHandling).merge
        (.bigDecimal first) = .ok (.bigDecimal sum) ∧ sum.toRat = first.toRat + total rest ∧
      ∀ places, RunsSteadily places first rest → sum.scale = greatestScale (first :: rest) := by
  induction rest generalizing first with
  | nil => exact ⟨first, rfl, (add_zero _).symm, fun _ _ => (Nat.max_zero _).symm⟩
  | cons d rest ih =>
    obtain ⟨next, hadd, hnext⟩ := add?_of_isValue hheld.head
    obtain ⟨sum, hsum, hvalue, hscale⟩ := ih (hheld.tail hnext)
    refine ⟨sum, ?_, ?_, fun places hsteady => ?_⟩
    · rw [List.map_cons, List.foldlM_cons, merge_decimals hadd]
      exact hsum
    · rw [hvalue, hnext, total_cons, add_assoc]
    · rw [hscale places (hsteady.tail hadd hnext), greatestScale_cons, hsteady.scale_eq hadd,
        greatestScale_cons, greatestScale_cons, max_assoc]

/-- **A list of decimals** is merged to its exact sum. -/
theorem exists_mergeAll (column : String) (precision : ℕ) (scale : Option ℕ) (nullHandling : Bool)
    {ds : List Decimal} (hne : ds ≠ []) (hheld : SumsHeld ds) :
    ∃ sum, (sumPrecision column precision scale nullHandling).mergeAll (ds.map Cell.bigDecimal) =
        .ok (.bigDecimal sum) ∧ sum.toRat = total ds ∧
      (SumsSteady ds → sum.scale = greatestScale ds) := by
  cases ds with
  | nil => exact absurd rfl hne
  | cons first rest =>
    obtain ⟨sum, hsum, hvalue, hscale⟩ := exists_foldlM_merge hheld.runsHeld
    exact ⟨sum, hsum, hvalue.trans (total_cons _ _).symm, fun h => hscale _ h.runsSteadily⟩

/-! ## Its text -/

/-- The result of a sum without a scale is read off the rounded sum. -/
theorem finalize_decimal (d : Decimal) :
    (sumPrecision column precision none nullHandling).finalize (.bigDecimal d) =
      (sumText (d.toPrecision precision)).map Cell.string := by
  show (do return Cell.string (← sumText (d.toPrecision precision))) = _
  cases sumText (d.toPrecision precision) <;> rfl

/-- A sum that is not rounded is shown as it is. -/
theorem finalize_unrounded (d : Decimal) :
    (sumPrecision column 0 none nullHandling).finalize (.bigDecimal d) = .ok (.string d.text) := by
  have htext : d.text? = some d.text := if_pos (d.scale_le.trans (by decide))
  rw [finalize_decimal, show d.toPrecision 0 = d.toScaled from rfl, sumText, htext]
  rfl

/-- How the texts of two sums of one value compare. -/
structure ShownAlike (column : String) (precision : ℕ) (nullHandling : Bool) (d e : Decimal) :
    Prop where
  /-- Rounded to a precision they are one. -/
  rounded : precision ≠ 0 →
    (sumPrecision column precision none nullHandling).finalize (.bigDecimal d) =
      (sumPrecision column precision none nullHandling).finalize (.bigDecimal e)
  /-- Else they are the texts of the sums themselves. -/
  unrounded : precision = 0 →
    (sumPrecision column precision none nullHandling).finalize (.bigDecimal d) =
        .ok (.string d.text) ∧
      (sumPrecision column precision none nullHandling).finalize (.bigDecimal e) =
        .ok (.string e.text) ∧
      (d.text = e.text ↔ d.scale = e.scale ∧ d.negative = e.negative)

/-- **Sums of one value** are shown alike but for scale and sign. -/
theorem shownAlike_of_toRat {d e : Decimal} (h : d.toRat = e.toRat) :
    ShownAlike column precision nullHandling d e where
  rounded hprecision := by
    rw [finalize_decimal, finalize_decimal,
      Scaled.toPrecision_eq_of_toRat d.magnitude_lt e.magnitude_lt h hprecision]
  unrounded hnone := by
    subst hnone
    refine ⟨finalize_unrounded d, finalize_unrounded e, ?_⟩
    rw [text, text, Scaled.text_inj]
    constructor
    · intro heq
      rw [heq]
      exact ⟨rfl, rfl⟩
    · rintro ⟨hscale, hnegative⟩
      exact Scaled.eq_of_toRat h hscale fun _ => hnegative

/-- **The text of a sum in two orders.** Both orders make a sum of the
exact value. A precision hides how they got there; without one the texts
agree if and only if scale and sign do, and surely while the sums are
steady. -/
theorem finalize_mergeAll_of_perm (column : String) (precision : ℕ) (nullHandling : Bool)
    {ds es : List Decimal} (hne : ds ≠ []) (hperm : ds.Perm es) (hheld : SumsHeld ds) :
    let f : AggregateFunction := sumPrecision column precision none nullHandling
    ∃ d e, f.mergeAll (ds.map Cell.bigDecimal) = .ok (.bigDecimal d) ∧
      f.mergeAll (es.map Cell.bigDecimal) = .ok (.bigDecimal e) ∧
      d.toRat = total ds ∧ e.toRat = total ds ∧ ShownAlike column precision nullHandling d e ∧
      (SumsSteady ds → f.finalize (.bigDecimal d) = f.finalize (.bigDecimal e)) := by
  intro f
  have hne' : es ≠ [] := fun hnil => hne (hnil ▸ hperm).eq_nil
  obtain ⟨d, hd, hvalue, hscale⟩ := exists_mergeAll column precision none nullHandling hne hheld
  obtain ⟨e, he, hvalue', hscale'⟩ := exists_mergeAll column precision none nullHandling hne'
    (hheld.perm hperm)
  rw [← total_perm hperm] at hvalue'
  have halike : ShownAlike column precision nullHandling d e :=
    shownAlike_of_toRat (hvalue.trans hvalue'.symm)
  refine ⟨d, e, hd, he, hvalue, hvalue', halike, fun hsteady => ?_⟩
  have hsame : d.scale = e.scale := by
    rw [hscale hsteady, hscale' (hsteady.perm hperm), greatestScale_perm hperm]
  have hnonzero : d.magnitude ≠ 0 := fun hzero =>
    (hsteady ds (List.Subperm.refl ds) hne).1 (hvalue.symm.trans (Scaled.toRat_eq_zero_iff.2 hzero))
  have heq : d.toScaled = e.toScaled :=
    Scaled.eq_of_toRat (hvalue.trans hvalue'.symm) hsame fun hzero => absurd hzero hnonzero
  rw [finalize_decimal, finalize_decimal, heq]

/-- Through a zero the sum loses its two places, and its text changes. -/
theorem finalize_mergeAll_through_zero :
    let f : AggregateFunction := sumPrecision "v" 0 none false
    let ds := [credit, debit, deposit]
    let es := [credit, deposit, debit]
    ds ≠ [] ∧ ds.Perm es ∧ SumsHeld ds ∧
      ∃ d e, f.mergeAll (ds.map Cell.bigDecimal) = .ok (.bigDecimal d) ∧
        f.mergeAll (es.map Cell.bigDecimal) = .ok (.bigDecimal e) ∧ d.toRat = 2 ∧ e.toRat = 2 ∧
        f.finalize (.bigDecimal d) = .ok (.string "2") ∧
        f.finalize (.bigDecimal e) = .ok (.string "2.00") ∧ ShownAlike "v" 0 false d e := by
  intro f ds es
  have hne : ds ≠ [] := List.cons_ne_nil _ _
  have hperm : ds.Perm es := List.Perm.cons _ (List.Perm.swap _ _ _)
  have hheld : SumsHeld ds := sumsHeld_of_lt 2 (by decide) (by decide) (by decide)
  obtain ⟨d, e, hd, he, hvalue, hvalue', halike, -⟩ :=
    finalize_mergeAll_of_perm "v" 0 false hne hperm hheld
  have htotal : total ds = 2 := by
    norm_num [ds, toRat_credit, toRat_debit, toRat_deposit]
  have hd' : f.mergeAll (ds.map Cell.bigDecimal) = .ok (.bigDecimal deposit) := by decide
  have he' : f.mergeAll (es.map Cell.bigDecimal) =
    .ok (.bigDecimal ⟨.ofCoeff 200 2, by decide, by decide⟩) := by decide
  obtain rfl : deposit = d := Cell.bigDecimal.inj (Except.ok.inj (hd'.symm.trans hd))
  obtain rfl := Cell.bigDecimal.inj (Except.ok.inj (he'.symm.trans he))
  exact ⟨hne, hperm, hheld, _, _, hd, he, hvalue.trans htotal, hvalue'.trans htotal, by decide,
    by decide, halike⟩

end AggregateFunction

end SegmentQuery
