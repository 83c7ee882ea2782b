import SegmentQuery.Proofs.Number.Numerals
import SegmentQuery.Proofs.Wire.Views
/-!
# Cells read back

A cell travels as itself, floats bit for bit and decimals with their
scale, but for what the forms of its value do not tell apart: every NaN
comes back as the quiet one, and a decimal zero without a sign.
-/


namespace SegmentQuery

open Cbor

namespace Cell

/-- What of a cell travels. -/
def carried : Cell → Cell
  | .float v => .float v.quiet
  | .double v => .double v.quiet
  | .bigDecimal v => .bigDecimal v.unsignedZero
  | .floatArray vs => .floatArray (vs.map Single.quiet)
  | .doubleArray vs => .doubleArray (vs.map Double.quiet)
  | cell => cell

variable (depth : Nat)

theorem travels_decimal (d : Decimal) : Travels depth (.text d.text) Item.decimal? d.unsignedZero := by
  refine ⟨_, carries_text depth d.text, ?_⟩
  show (Decimal.read d.text.toList).toOption = _
  rw [d.read_text]
  rfl

/-- Values that travel as themselves do so in a list. -/
theorem travels_list_self {α : Type} {view : Item → Option α} {f : α → Item}
    (h : ∀ x, Travels depth (f x) view x) (xs : List α) :
    Travels (depth + 1) (.array (xs.map f)) (Item.list? view) xs := by
  have hlist := travels_list (g := id) depth fun x (_ : x ∈ xs) => h x
  rwa [List.map_id] at hlist

/-- **A value travels by its kind.** -/
theorem travels_content {c : Cell} {content : Item} (h : c.content? = some content) :
    Travels (depth + 1) content (ofContent? c.kind) c.carried := by
  cases c <;> cases h
  case int v => exact (travels_int32 _ v).map Cell.int
  case long v => exact (travels_int64 _ v).map Cell.long
  case float v => exact (travels_single _ v).map Cell.float
  case double v => exact (travels_double _ v).map Cell.double
  case bigDecimal v => exact (travels_decimal _ v).map Cell.bigDecimal
  case string v => exact (travels_text _ v).map Cell.string
  case bytes v => exact (travels_bytes _ v).map Cell.bytes
  case intArray vs => exact (travels_list_self _ (travels_int32 depth) vs).map Cell.intArray
  case longArray vs => exact (travels_list_self _ (travels_int64 depth) vs).map Cell.longArray
  case floatArray vs =>
    exact (travels_list _ fun v _ => travels_single depth v).map Cell.floatArray
  case doubleArray vs =>
    exact (travels_list _ fun v _ => travels_double depth v).map Cell.doubleArray
  case stringArray vs => exact (travels_list_self _ (travels_text depth) vs).map Cell.stringArray

/-- **Every cell travels.** -/
theorem travels_toItem (c : Cell) : Travels (depth + 2) c.toItem ofItem? c.carried := by
  have hnames : (CellKind.all.map CellKind.wireName).Nodup := by decide
  have hall (kind : CellKind) : kind ∈ CellKind.all := by cases kind <;> decide
  obtain ⟨place, hplace, hget⟩ := exists_place hnames (hall c.kind)
  cases hcontent : c.content? with
  | none =>
    obtain rfl : c = .null := by cases c <;> first | rfl | cases hcontent
    exact ⟨_, carries_text _ _, rfl⟩
  | some content =>
    obtain ⟨j, hj, hview⟩ := travels_content depth hcontent
    have hitem : c.toItem = .ofMembers [(.text c.kind.wireName, content)] := by
      rw [toItem, hcontent]
    have hchoice : (Item.ofMembers [(.text c.kind.wireName, j)]).choice?
        (CellKind.all.map CellKind.wireName) = some (place, some j) := by
      show ((Item.text c.kind.wireName).place? _).join.map _ = _
      rw [hplace]
      rfl
    refine ⟨.ofMembers [(.text c.kind.wireName, j)], ?_, ?_⟩
    · rw [hitem]
      exact carries_ofMembers _ (.cons ⟨carries_text _ _, hj⟩ .nil)
    · rw [ofItem?, hchoice]
      simp only [Option.bind_eq_bind, Option.bind_some]
      rw [hget]
      exact hview

end Cell

/-- A row travels cell by cell. -/
theorem Row.travels_toItem (depth : Nat) (row : Row) :
    Travels (depth + 3) (Row.toItem row) Row.ofItem? (row.map Cell.carried) :=
  travels_list _ fun c _ => c.travels_toItem depth

end SegmentQuery
