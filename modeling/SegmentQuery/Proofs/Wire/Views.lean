import Mathlib.Data.List.Nodup
import SegmentQuery.Cbor.View
import SegmentQuery.Proofs.Except
import SegmentQuery.Proofs.Wire.Items
import SegmentQuery.Wire.Table
/-!
# What items stand for, read back

An item travels as a value when its bytes are read back as an item that
stands for the value. Numbers, texts and bytes travel as what they were
written from, lists when their elements do, and records and choices by
the names of their fields and cases, which must be different.
-/


namespace SegmentQuery

namespace Cbor

open Number (bound64)

variable {α β : Type}

/-- The bytes of an item are read back as an item that stands for
`a`. -/
def Travels (depth : Nat) (i : Item) (view : Item → Option α) (a : α) : Prop :=
  ∃ j, Carries depth i j ∧ view j = some a

/-- What an item stands for may be made into something else. -/
theorem Travels.map {depth : Nat} {i : Item} {view : Item → Option α} {a : α}
    (h : Travels depth i view a) (f : α → β) : Travels depth i (fun j => (view j).map f) (f a) := by
  obtain ⟨j, hj, hview⟩ := h
  exact ⟨j, hj, (congrArg (Option.map f) hview).trans rfl⟩

/-! ## Scalars -/

variable (depth : Nat)

theorem travels_text (s : String) : Travels depth (.text s) Item.text? s :=
  ⟨.text s, carries_text depth s, rfl⟩

theorem travels_bytes (content : List UInt8) : Travels depth (.bytes content) Item.bytes? content :=
  ⟨.bytes content, carries_bytes depth content, rfl⟩

theorem travels_double (x : Double) : Travels depth (.float x) Item.double? x.quiet :=
  ⟨.float x.quiet, carries_float depth x, rfl⟩

/-- A single travels in the double that has its value. -/
theorem travels_single (x : Single) : Travels depth (.float x.widen) Item.single? x.quiet := by
  refine ⟨_, carries_float depth x.widen, ?_⟩
  have hquiet : x.widen.quiet = x.widen := Double.quiet_ofDatum _
  show some x.widen.quiet.narrow = _
  rw [hquiet, x.narrow_widen]

theorem carries_ofInt {i : Int} (hlow : -(bound64 : Int) ≤ i) (hhigh : i < bound64) :
    Carries depth (.ofInt i) (.ofInt i) := by
  unfold Item.ofInt
  split
  · exact carries_unsigned depth (by omega)
  · exact carries_negative depth (by omega)

theorem integer?_ofInt {i : Int} (hlow : -(bound64 / 2 : Nat) ≤ i) :
    (Item.ofInt i).integer? = some i := by
  unfold Item.ofInt
  split
  · show some ((i.toNat : Nat) : Int) = _
    rw [Int.toNat_of_nonneg (by omega)]
  · show (if (-1 - i).toNat < bound64 / 2 then some (-1 - ((-1 - i).toNat : Int)) else none) = _
    rw [if_pos (by omega), Int.toNat_of_nonneg (by omega)]
    congr 1
    omega

theorem travels_int64 (v : Int64) : Travels depth (.ofInt v.toInt) Item.int64? v := by
  have hlow := v.le_toInt
  have hhigh := v.toInt_lt
  have hbound : bound64 = 18446744073709551616 := rfl
  refine ⟨_, carries_ofInt depth (by omega) (by omega), ?_⟩
  have hmin : Int64.minValue.toInt ≤ v.toInt := v.minValue_le_toInt
  have hmax : v.toInt ≤ Int64.maxValue.toInt := v.toInt_le
  rw [Item.int64?, integer?_ofInt (by omega), Option.filter_some, decide_eq_true ⟨hmin, hmax⟩,
    if_pos rfl, Option.map_some, Int64.ofInt_toInt]

theorem travels_int32 (v : Int32) : Travels depth (.ofInt v.toInt) Item.int32? v := by
  have hlow := v.le_toInt
  have hhigh := v.toInt_lt
  have hbound : bound64 = 18446744073709551616 := rfl
  refine ⟨_, carries_ofInt depth (by omega) (by omega), ?_⟩
  have hmin : Int32.minValue.toInt ≤ v.toInt := v.minValue_le_toInt
  have hmax : v.toInt ≤ Int32.maxValue.toInt := v.toInt_le
  rw [Item.int32?, integer?_ofInt (by omega), Option.filter_some, decide_eq_true ⟨hmin, hmax⟩,
    if_pos rfl, Option.map_some, Int32.ofInt_toInt]

theorem travels_natural {n bound : Nat} (hn : n < bound) (hbound : bound ≤ bound64) :
    Travels depth (.unsigned n) (Item.natural? bound) n := by
  refine ⟨_, carries_unsigned depth (Nat.lt_of_lt_of_le hn hbound), ?_⟩
  show ((some (n : Int)).filter _).map _ = _
  rw [Option.filter_some, decide_eq_true ⟨Int.natCast_nonneg n, Int.ofNat_lt.2 hn⟩, if_pos rfl,
    Option.map_some, Int.toNat_natCast]

/-! ## Lists -/

/-- Steps of which each one goes through go through. -/
theorem mapM_eq_some {f : α → Option β} {xs : List α} {ys : List β}
    (h : List.Forall₂ (fun x y => f x = some y) xs ys) : xs.mapM f = some ys := by
  induction h with
  | nil => rfl
  | cons hx _ ih =>
    rw [List.mapM_cons, hx, ih]
    rfl

/-- **A list travels when its elements do.** -/
theorem travels_list {σ : Type} {view : Item → Option α} {f : σ → Item} {g : σ → α} {xs : List σ}
    (h : ∀ x ∈ xs, Travels depth (f x) view (g x)) :
    Travels (depth + 1) (.array (xs.map f)) (Item.list? view) (xs.map g) := by
  obtain ⟨js, hjs⟩ := exists_forall₂ h
  have hcarries : List.Forall₂ (Carries depth) (xs.map f) js := by
    rw [List.forall₂_map_left_iff]
    exact hjs.imp fun _ _ hj => hj.1
  refine ⟨.array js, carries_array depth hcarries, mapM_eq_some ?_⟩
  rw [List.forall₂_map_right_iff]
  exact hjs.flip.imp fun _ _ hj => hj.2

/-! ## Names -/

/-- A name is found at its place. -/
theorem place?_text {names : List String} (hnames : names.Nodup) {place : Nat} {name : String}
    (h : names[place]? = some name) : (Item.text name).place? names = some (some place) := by
  obtain ⟨hlt, rfl⟩ := List.getElem?_eq_some_iff.1 h
  show some (names.findIdx? (· == names[place])) = _
  congr 1
  rw [List.findIdx?_eq_some_iff_getElem]
  refine ⟨hlt, beq_self_eq_true _, fun i hi => ?_⟩
  rw [Bool.not_eq_true, beq_eq_false_iff_ne]
  intro heq
  exact hi.ne ((List.Nodup.getElem_inj_iff hnames).1 heq)

/-- Of members at different places one is found by its place. -/
theorem filter_place {placed : List (Option Nat × α)} (h : (placed.map Prod.fst).Nodup)
    {place : Nat} {a : α} (hmem : (some place, a) ∈ placed) :
    placed.filter (fun p => p.1 == some place) = [(some place, a)] := by
  induction placed with
  | nil => exact absurd hmem (List.not_mem_nil)
  | cons p placed ih =>
    rw [List.map_cons, List.nodup_cons] at h
    rcases List.mem_cons.1 hmem with rfl | hmem
    · have hnone : placed.filter (fun p => p.1 == some place) = [] := by
        rw [List.filter_eq_nil_iff]
        intro q hq heq
        exact h.1 (List.mem_map.2 ⟨q, hq, eq_of_beq heq⟩)
      rw [List.filter_cons, if_pos (beq_self_eq_true (some place)), hnone]
    · have hne : (p.1 == some place) = false := by
        rw [beq_eq_false_iff_ne]
        intro heq
        exact h.1 (heq ▸ List.mem_map_of_mem hmem)
      rw [List.filter_cons, hne, if_neg Bool.false_ne_true, ih h.2 hmem]

/-- Every field of a record is at the place of its name. -/
theorem mapM_place? {fields : List (String × Item)} (h : (fields.map Prod.fst).Nodup) :
    (fields.map fun f => (Item.text f.1, f.2)).mapM (fun m : Item × Item =>
        (m.1.place? (fields.map Prod.fst)).map (·, m.2)) =
      some (fields.zipIdx.map fun f => (some f.2, f.1.2)) := by
  refine mapM_eq_some (List.forall₂_iff_get.2 ⟨by simp, fun i hi hi' => ?_⟩)
  have hlt : i < fields.length := by simpa using hi
  have hname : (fields.map Prod.fst)[i]? = some fields[i].1 := by simp [hlt]
  simp [place?_text h hname]

/-- **A record gives back its fields**, in the order of their names. -/
theorem fields?_ofFields {fields : List (String × Item)} (h : (fields.map Prod.fst).Nodup) :
    (Item.ofFields fields).fields? (fields.map Prod.fst) = some (fields.map Prod.snd) := by
  have hplaces : ((fields.zipIdx.map fun f => (some f.2, f.1.2)).map Prod.fst).Nodup := by
    have hfst : (fields.zipIdx.map fun f => (some f.2, f.1.2)).map Prod.fst =
        (fields.zipIdx.map Prod.snd).map some := by
      rw [List.map_map, List.map_map]
      rfl
    rw [hfst, List.zipIdx_map_snd]
    exact (List.nodup_range' ..).map fun _ _ => Option.some.inj
  show ((fields.map fun f => (Item.text f.1, f.2)).mapM (fun m : Item × Item =>
    (m.1.place? (fields.map Prod.fst)).map (·, m.2))).bind _ = _
  rw [mapM_place? h]
  refine mapM_eq_some (List.forall₂_iff_get.2 ⟨by simp, fun i hi hi' => ?_⟩)
  have hlt : i < fields.length := by simpa using hi'
  have hmem : (some i, fields[i].2) ∈ fields.zipIdx.map fun f => (some f.2, f.1.2) :=
    List.mem_map.2 ⟨(fields[i], i), List.mem_zipIdx_iff_getElem?.2 (by simp [hlt]), rfl⟩
  have hfound := filter_place hplaces hmem
  simp only [List.get_eq_getElem, List.getElem_range, List.getElem_map]
  rw [hfound]

/-- **A record travels by the names of its fields.** -/
theorem carries_ofFields {names : List String} (hnames : names.Nodup)
    {fields : List (String × Item)} (hfields : fields.map Prod.fst = names) {js : List Item}
    (h : List.Forall₂ (fun field j => Carries depth field.2 j) fields js) :
    ∃ i, Carries (depth + 1) (.ofFields fields) i ∧ i.fields? names = some js := by
  have hlen : names.length = js.length := by rw [← hfields, List.length_map, h.length_eq]
  have hfst : (names.zip js).map Prod.fst = names := List.map_fst_zip hlen.le
  have hread := @fields?_ofFields (names.zip js) (by rwa [hfst])
  rw [hfst, List.map_snd_zip hlen.ge] at hread
  refine ⟨.ofFields (names.zip js), carries_ofMembers depth ?_, hread⟩
  rw [List.forall₂_map_left_iff, List.forall₂_map_right_iff, ← hfields, List.zip_map_left]
  clear hfields hread hfst hlen hnames
  induction h with
  | nil => exact .nil
  | @cons field _ _ _ hfield _ ih => exact .cons ⟨carries_text depth field.1, hfield⟩ ih

/-! ## Choices -/

section Choices

variable {σ : Type} {cases : List σ} {name : σ → String}

/-- A case is found by its name. -/
theorem exists_place (hnames : (cases.map name).Nodup) {c : σ} (hc : c ∈ cases) :
    ∃ place, (Item.text (name c)).place? (cases.map name) = some (some place) ∧
      cases[place]? = some c := by
  obtain ⟨place, hplace⟩ := List.mem_iff_getElem?.1 hc
  exact ⟨place, place?_text hnames (by rw [List.getElem?_map, hplace, Option.map_some]), hplace⟩

/-- **A choice without content travels** by its name. -/
theorem travels_plainChoice (hnames : (cases.map name).Nodup) {c : σ} (hc : c ∈ cases) :
    Travels depth (.text (name c))
      (fun i => (i.plainChoice? (cases.map name)).bind (cases[·]?)) c := by
  obtain ⟨place, hplace, hget⟩ := exists_place hnames hc
  refine ⟨_, carries_text depth (name c), ?_⟩
  have hchoice : (Item.text (name c)).choice? (cases.map name) = some (place, none) := by
    show ((Item.text (name c)).place? (cases.map name)).join.map _ = _
    rw [hplace]
    rfl
  show (((Item.text (name c)).choice? (cases.map name)).bind _).bind _ = _
  rw [hchoice]
  exact hget

end Choices

end Cbor

end SegmentQuery
