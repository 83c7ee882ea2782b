import SegmentQuery.Cbor.Read
import SegmentQuery.Proofs.Number.Patterns
import SegmentQuery.Proofs.Wire.Bytes
/-!
# Items read back

What an item writes is read back, whatever follows it, as the item: the
first byte tells its kind and how its number or its length is written. A
floating-point number comes back from whichever layout it was written in,
but every NaN as the quiet one. No length outgrows its head, since the
items are no more than the bytes that they take.
-/


namespace SegmentQuery

namespace Cbor

open Bytes (Takes)
open Number (bound32 bound64)

/-! ## Heads -/

/-- What a head announces and how its number is read. -/
theorem head_eq (major : Nat) {n : Nat} (hn : n < bound64) :
    ∃ info payload, head major n = UInt8.ofNat (32 * major + info) :: payload ∧
      info < indefinite ∧ (info < briefBound ↔ n < briefBound) ∧
      Takes (argument info) payload n := by
  -- a number that the first byte does not hold stands in the bytes behind it
  have hwide {info : Nat} {read : Reader Nat} {payload : List UInt8} (hinfo : ¬info < briefBound)
      (hread : argument info = fun bytes => if info < briefBound then some (info, bytes)
        else read bytes) (h : Takes read payload n) : Takes (argument info) payload n := by
    intro rest
    rw [hread]
    exact (if_neg hinfo).trans (h rest)
  unfold head
  by_cases hbrief : n < briefBound
  · have hdefinite : n < indefinite := Nat.lt_of_lt_of_le hbrief (by decide)
    exact ⟨n, [], if_pos hbrief, hdefinite, Iff.rfl, fun rest => if_pos hbrief⟩
  rw [if_neg hbrief]
  have hfalse {info : Nat} (hinfo : ¬info < briefBound) : info < briefBound ↔ n < briefBound :=
    iff_of_false hinfo hbrief
  by_cases h1 : n < 256
  · rw [if_pos h1]
    exact ⟨24, _, rfl, by decide, hfalse (by decide), hwide (by decide) rfl
      (Bytes.takes_bigEndian h1)⟩
  rw [if_neg h1]
  by_cases h2 : n < 65536
  · rw [if_pos h2]
    exact ⟨25, _, rfl, by decide, hfalse (by decide), hwide (by decide) rfl
      (Bytes.takes_bigEndian h2)⟩
  rw [if_neg h2]
  by_cases h4 : n < bound32
  · rw [if_pos h4]
    exact ⟨26, _, rfl, by decide, hfalse (by decide), hwide (by decide) rfl
      (Bytes.takes_bigEndian h4)⟩
  rw [if_neg h4]
  exact ⟨27, _, rfl, by decide, hfalse (by decide), hwide (by decide) rfl
    (Bytes.takes_bigEndian hn)⟩

/-- The two parts of a first byte. -/
theorem parts_first {major info : Nat} (hmajor : major < 8) (hinfo : info < 32) :
    (UInt8.ofNat (32 * major + info)).toNat / 32 = major ∧
      (UInt8.ofNat (32 * major + info)).toNat % 32 = info := by
  have hfirst : (UInt8.ofNat (32 * major + info)).toNat = 32 * major + info :=
    UInt8.toNat_ofNat_of_lt' (show 32 * major + info < 256 by omega)
  rw [hfirst]
  omega

/-- The first byte of what holds no items. -/
theorem item_scalar (depth : Nat) {major info : Nat} (hmajor : major < 4 ∨ major = 7)
    (hinfo : info < 32) (rest : List UInt8) :
    item depth (UInt8.ofNat (32 * major + info) :: rest) = scalar major info rest := by
  obtain ⟨hdiv, hmod⟩ := @parts_first major info (by omega) hinfo
  cases depth with
  | zero => rw [item, hdiv, hmod]
  | succ depth => rw [item, hdiv, hmod, if_neg (by omega)]

/-- The first byte of what holds items. -/
theorem item_container (depth : Nat) {major info : Nat} (hmajor : 4 ≤ major ∧ major ≤ 6)
    (hinfo : info < 32) (rest : List UInt8) :
    item (depth + 1) (UInt8.ofNat (32 * major + info) :: rest) =
      container (item depth) major info rest := by
  obtain ⟨hdiv, hmod⟩ := @parts_first major info (by omega) hinfo
  rw [item, hdiv, hmod, if_pos hmajor]

/-- An item of a head and no items is read as its scalar. -/
theorem takes_scalar (depth : Nat) {major n : Nat} {content : List UInt8} {i : Item}
    (hmajor : major < 4) (hn : n < bound64)
    (h : ∀ info payload, info < indefinite → Takes (argument info) payload n →
      Takes (scalar major info) (payload ++ content) i) :
    Takes (item depth) (head major n ++ content) i := by
  obtain ⟨info, payload, hhead, hinfo, -, hargument⟩ := head_eq major hn
  intro rest
  have hlt : info < 32 := by unfold indefinite at hinfo; omega
  rw [hhead, List.cons_append, List.cons_append, item_scalar depth (.inl hmajor) hlt]
  exact h info payload hinfo hargument rest

/-- A head that is a whole item is read as its number. -/
theorem takes_number (depth : Nat) {major n : Nat} (hmajor : major < 4) (hn : n < bound64)
    {make : Nat → Item} (hscalar : ∀ info, scalar major info =
      fun bytes => (argument info bytes).map fun (n, rest) => (make n, rest)) :
    Takes (item depth) (head major n) (make n) := by
  have h := @takes_scalar depth major n [] (make n) hmajor hn fun info payload _ hargument => by
    rw [hscalar, List.append_nil]
    exact hargument.map make
  rwa [List.append_nil] at h

theorem takes_definiteString {info : Nat} {payload content : List UInt8}
    (h : Takes (argument info) payload content.length) :
    Takes (definiteString info) (payload ++ content) content :=
  h.bind (Bytes.takes_take? content)

theorem takes_string (major : Nat) {info : Nat} {payload content : List UInt8}
    (hinfo : info < indefinite) (h : Takes (argument info) payload content.length) :
    Takes (string major info) (payload ++ content) content := by
  intro rest
  rw [string, if_neg hinfo.ne]
  exact takes_definiteString h rest

/-- Elements are read where their number and each one are. -/
theorem takes_elements {α : Type} {read : Reader α} {info : Nat} {payload : List UInt8}
    {pieces : List (List UInt8)} {as : List α} (hinfo : info < indefinite)
    (hargument : Takes (argument info) payload as.length)
    (h : List.Forall₂ (Takes read) pieces as) :
    Takes (elements read info) (payload ++ pieces.flatten) as := by
  intro rest
  rw [elements, if_neg hinfo.ne]
  exact hargument.bind (Bytes.takes_times h) rest

theorem takes_member {read : Reader Item} {key value : List UInt8} {k v : Item}
    (hkey : Takes read key k) (hvalue : Takes read value v) :
    Takes (member read) (key ++ value) (k, v) := by
  intro rest
  show (read (key ++ value ++ rest)).bind _ = _
  rw [List.append_assoc, hkey]
  show (read (value ++ rest)).bind _ = _
  rw [hvalue]
  rfl

/-! ## Lengths -/

theorem writeAll_eq (items : List Item) : writeAll items = (items.map Item.write).flatten := by
  induction items with
  | nil => rfl
  | cons i items ih => rw [writeAll, ih, List.map_cons, List.flatten_cons]

theorem writeMembers_eq (members : List (Item × Item)) :
    writeMembers members = (members.map fun m => m.1.write ++ m.2.write).flatten := by
  induction members with
  | nil => rfl
  | cons m members ih => rw [writeMembers, ih, List.map_cons, List.flatten_cons, writeMember]

theorem head_ne_nil (major n : Nat) : head major n ≠ [] := by
  unfold head
  dsimp only
  split_ifs <;> exact List.cons_ne_nil _ _

/-- Every item takes a byte. -/
theorem length_write_pos (i : Item) : 0 < i.write.length := by
  rw [List.length_pos_iff]
  cases i with
  | unsigned n => exact head_ne_nil 0 n
  | negative n => exact head_ne_nil 1 n
  | bool value => exact List.cons_ne_nil _ _
  | null => exact List.cons_ne_nil _ _
  | float value =>
    unfold Item.write writeFloat
    split
    · exact List.cons_ne_nil _ _
    · split <;> exact List.cons_ne_nil _ _
  | _ => exact List.append_ne_nil_of_left_ne_nil (head_ne_nil _ _) _

section Pieces

variable {α β : Type} {write : α → List UInt8}

/-- There are no more pieces than bytes when each one has a byte. -/
theorem length_le_flatten (h : ∀ x, 0 < (write x).length) (xs : List α) :
    xs.length ≤ (xs.map write).flatten.length := by
  induction xs with
  | nil => exact Nat.le_refl 0
  | cons x xs ih =>
    have := h x
    rw [List.length_cons, List.map_cons, List.flatten_cons, List.length_append]
    omega

/-- Pieces of bounded length are all read when bounded ones are. -/
theorem forall₂_takes {read : Reader β} {xs : List α} {ys : List β}
    (hlen : (xs.map write).flatten.length < bound64)
    (h : List.Forall₂ (fun x y => (write x).length < bound64 → Takes read (write x) y) xs ys) :
    List.Forall₂ (Takes read) (xs.map write) ys := by
  rw [List.forall₂_map_left_iff]
  induction h with
  | nil => exact .nil
  | cons hx _ ih =>
    rw [List.map_cons, List.flatten_cons, List.length_append] at hlen
    exact .cons (hx (by omega)) (ih (by omega))

end Pieces

/-! ## What items come back as -/

/-- The bytes of an item of bounded length are read as `j` where at most
`depth` items may still nest. -/
def Carries (depth : Nat) (i j : Item) : Prop :=
  i.write.length < bound64 → Takes (item depth) i.write j

variable (depth : Nat)

theorem carries_unsigned {n : Nat} (hn : n < bound64) : Carries depth (.unsigned n) (.unsigned n) :=
  fun _ => takes_number depth (by decide) hn fun _ => rfl

theorem carries_negative {n : Nat} (hn : n < bound64) : Carries depth (.negative n) (.negative n) :=
  fun _ => takes_number depth (by decide) hn fun _ => rfl

theorem carries_bytes (content : List UInt8) : Carries depth (.bytes content) (.bytes content) := by
  intro hlen
  rw [Item.write, List.length_append] at hlen
  exact takes_scalar depth (by decide) (by omega) fun info payload hinfo hargument =>
    (takes_string 2 hinfo hargument).map Item.bytes

theorem carries_text (content : String) : Carries depth (.text content) (.text content) := by
  intro hlen
  rw [Item.write, List.length_append] at hlen
  refine takes_scalar depth (by decide) (by omega) fun info payload hinfo hargument rest => ?_
  show (string 3 info _).bind _ = _
  rw [takes_string 3 hinfo hargument]
  show (Bytes.text? (Bytes.ofText content)).bind _ = _
  rw [Bytes.text?_ofText]
  rfl

/-- A pattern in a layout is read as the number that it stands for. -/
theorem takes_float {l : Number.Layout} {info width pattern : Nat} (hinfo : info < 32)
    (hwidth : pattern < 256 ^ width) (hscalar : scalar 7 info = float l width) :
    Takes (item depth) (UInt8.ofNat (32 * 7 + info) :: Bytes.bigEndian width pattern)
      (.float (Double.ofDatum (l.datum pattern))) := by
  intro rest
  rw [List.cons_append, item_scalar depth (.inr rfl) hinfo, hscalar]
  exact (Bytes.takes_bigEndian hwidth).map (fun pattern => Item.float (Double.ofDatum (l.datum pattern))) rest

/-- **A floating-point number comes back** from the narrowest layout that
keeps its value. -/
theorem carries_float (x : Double) : Carries depth (.float x) (.float x.quiet) := by
  intro _
  -- a layout that keeps the value gives the number that the double stands for
  have hkept {l : Number.Layout} {pattern : Nat} (h : patternIn? l x = some pattern) :
      pattern = l.pattern x.datum ∧ Double.ofDatum (l.datum pattern) = x.quiet := by
    unfold patternIn? at h
    dsimp only at h
    split at h
    · rename_i heq
      obtain rfl := Option.some.inj h
      exact ⟨rfl, heq.trans x.ofDatum_datum⟩
    · cases h
  rw [Item.write, writeFloat]
  split
  · rename_i pattern hhalf
    obtain ⟨hpattern, hvalue⟩ := hkept hhalf
    rw [← hvalue]
    refine @takes_float depth _ 25 _ _ (by decide) ?_ rfl
    exact hpattern ▸ Number.Layout.pattern_lt _ (by decide) x.datum
  · split
    · rename_i pattern hsingle
      obtain ⟨hpattern, hvalue⟩ := hkept hsingle
      rw [← hvalue]
      refine @takes_float depth _ 26 _ _ (by decide) ?_ rfl
      exact hpattern ▸ Number.Layout.pattern_lt _ (by decide) x.datum
    · rw [← x.ofDatum_datum]
      exact @takes_float depth _ 27 _ _ (by decide) x.bits.toNat_lt rfl

/-- What holds items is read as its container. -/
theorem takes_container {major n : Nat} {content : List UInt8} {i : Item}
    (hmajor : 4 ≤ major ∧ major ≤ 6) (hn : n < bound64)
    (h : ∀ info payload, info < indefinite → (info < briefBound ↔ n < briefBound) →
      Takes (argument info) payload n →
        Takes (container (item depth) major info) (payload ++ content) i) :
    Takes (item (depth + 1)) (head major n ++ content) i := by
  obtain ⟨info, payload, hhead, hinfo, hbrief, hargument⟩ := head_eq major hn
  intro rest
  have hlt : info < 32 := by unfold indefinite at hinfo; omega
  rw [hhead, List.cons_append, List.cons_append, item_container depth hmajor hlt]
  exact h info payload hinfo hbrief hargument rest

/-- **An array comes back when its items do.** -/
theorem carries_array {items js : List Item} (h : List.Forall₂ (Carries depth) items js) :
    Carries (depth + 1) (.array items) (.array js) := by
  intro hlen
  rw [Item.write, writeAll_eq, List.length_append] at hlen
  have hcount := length_le_flatten length_write_pos items
  have hpieces := forall₂_takes (by omega) h
  rw [Item.write, writeAll_eq, h.length_eq]
  rw [h.length_eq] at hcount
  refine takes_container depth (by decide) (by omega) fun info payload hinfo _ hargument => ?_
  exact (takes_elements hinfo hargument hpieces).map Item.array

/-- **A map comes back when its keys and values do.** -/
theorem carries_ofMembers {members pairs : List (Item × Item)}
    (h : List.Forall₂ (fun m p => Carries depth m.1 p.1 ∧ Carries depth m.2 p.2) members pairs) :
    Carries (depth + 1) (.ofMembers members) (.ofMembers pairs) := by
  intro hlen
  rw [Item.ofMembers, Item.write, writeMembers_eq, List.length_append] at hlen
  have hpos (m : Item × Item) : 0 < (m.1.write ++ m.2.write).length := by
    have := length_write_pos m.1
    rw [List.length_append]
    omega
  have hcount := length_le_flatten hpos members
  have hpieces : List.Forall₂ (Takes (member (item depth)))
      (members.map fun m => m.1.write ++ m.2.write) pairs := by
    refine forall₂_takes (by omega) (h.imp fun m p hmp hshort => ?_)
    rw [List.length_append] at hshort
    exact takes_member (hmp.1 (by omega)) (hmp.2 (by omega))
  rw [Item.ofMembers, Item.write, writeMembers_eq, h.length_eq]
  rw [h.length_eq] at hcount
  refine takes_container depth (by decide) (by omega) fun info payload hinfo hbrief hargument => ?_
  rw [Item.ofMembers, ← decide_eq_decide.2 hbrief]
  exact (takes_elements hinfo hargument hpieces).map (Item.map (decide (info < briefBound)))

end Cbor

end SegmentQuery
