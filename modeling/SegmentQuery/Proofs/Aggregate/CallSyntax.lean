import Mathlib.Data.List.DropRight
import SegmentQuery.Aggregate.Function
import SegmentQuery.Proofs.Except
/-!
# Calls as they are written

A call is a name and its arguments in parentheses, divided by commas, with
blanks anywhere around them. Reading one builds the function of the trimmed
name and the trimmed arguments without the blank ones. So arguments keep
their places where none is blank. Where one is, those behind it move up: the
call may build a function, but never the one that the arguments in their
places build.
-/


namespace SegmentQuery

namespace Text

/-- What comes before a character that is no blank is trimmed in front. -/
theorem dropWhile_isBlank_stop {c : Char} (hc : isBlank c = false) (front back : List Char) :
    (front ++ c :: back).dropWhile isBlank = front.dropWhile isBlank ++ c :: back := by
  rw [List.dropWhile_append]
  split
  · rename_i hnil
    rw [List.isEmpty_iff.1 hnil, List.nil_append, List.dropWhile_cons_of_neg (by simp [hc])]
  · rfl

/-- Behind the last character that is no blank nothing is left. -/
theorem trimEnd_stop {c : Char} (hc : isBlank c = false) (front : List Char) {blanks : List Char}
    (h : ∀ c ∈ blanks, isBlank c) : trimEnd (front ++ c :: blanks) = front ++ [c] := by
  have hback : ∀ c ∈ blanks.reverse, isBlank c := fun c hc => h c (List.mem_reverse.1 hc)
  rw [trimEnd, List.reverse_append, List.reverse_cons, List.append_assoc,
    List.dropWhile_append_of_pos hback, List.singleton_append,
    List.dropWhile_cons_of_neg (by simp [hc]), List.reverse_cons, List.reverse_reverse]

/-- Trimming in front first makes no difference. -/
theorem trimChars_dropWhile (cs : List Char) : trimChars (cs.dropWhile isBlank) = trimChars cs := by
  rw [trimChars, List.dropWhile_idempotent, trimChars]

end Text

namespace AggregateFunction

open Text

/-! ## The characters of a call -/

/-- Splitting at commas is splitting a list at an element. -/
theorem splitCommas_eq_splitOn (cs : List Char) : splitCommas cs = cs.splitOn ',' := by
  induction cs with
  | nil => rfl
  | cons c cs ih =>
    rw [splitCommas, List.splitOn_cons_eq_if_modifyHead, ih]
    by_cases hc : c = ','
    · simp [hc]
    · rw [if_neg hc, if_neg (by simpa using hc)]
      cases hs : cs.splitOn ',' with
      | nil => exact absurd hs (List.splitOn_ne_nil ',' cs)
      | cons piece pieces => rfl

/-- The pieces between commas are the pieces that were put together. -/
theorem splitCommas_intercalate {pieces : List (List Char)} (h : ∀ piece ∈ pieces, ',' ∉ piece)
    (hne : pieces ≠ []) : splitCommas ([','].intercalate pieces) = pieces := by
  rw [splitCommas_eq_splitOn, List.splitOn_intercalate ',' h hne]

/-- The arguments between the parentheses are the trimmed pieces that are
not empty. -/
theorem callArguments_intercalate {arguments : List String} (h : ∀ a ∈ arguments, ',' ∉ a.toList) :
    callArguments ([','].intercalate (arguments.map String.toList)) =
      (arguments.map trim).filter (!·.isEmpty) := by
  by_cases hne : arguments = []
  · rw [hne]
    rfl
  · have hpieces : ∀ piece ∈ arguments.map String.toList, ',' ∉ piece := by
      intro piece hpiece
      obtain ⟨a, ha, rfl⟩ := List.mem_map.1 hpiece
      exact h a ha
    have htrim : arguments.map trim =
        ((arguments.map String.toList).map trimChars).map String.ofList := by
      rw [List.map_map, List.map_map]
      rfl
    have hempty : ∀ cs : List Char, (String.ofList cs).isEmpty = cs.isEmpty := fun cs => by
      rw [Bool.eq_iff_iff, String.isEmpty_iff, List.isEmpty_iff, String.ofList_eq_empty_iff]
    rw [callArguments, splitCommas_intercalate hpieces (by simpa using hne), htrim,
      List.filter_map (f := String.ofList)]
    simp only [Function.comp_def, hempty]

/-- **A call in its parts**: the trimmed name and the arguments between the
parentheses. -/
theorem ofCall_eq {before name inner after : List Char} (hbefore : ∀ c ∈ before, isBlank c)
    (hafter : ∀ c ∈ after, isBlank c) (hname : '(' ∉ name) (nullHandling : Bool) :
    ofCall (String.ofList (before ++ name ++ '(' :: inner ++ ')' :: after)) nullHandling =
      ofArguments (String.ofList (trimChars name)) (callArguments inner) nullHandling := by
  have hopen : ∀ c ∈ name.dropWhile isBlank, decide (c ≠ '(') = true := fun c hc =>
    decide_eq_true fun h => hname (h ▸ (List.dropWhile_sublist _).mem hc)
  have htrim : trimChars (before ++ name ++ '(' :: inner ++ ')' :: after) =
      name.dropWhile isBlank ++ '(' :: (inner ++ [')']) := by
    rw [trimChars, List.append_assoc, List.append_assoc, List.cons_append,
      List.dropWhile_append_of_pos hbefore, dropWhile_isBlank_stop rfl, ← List.cons_append,
      ← List.append_assoc, trimEnd_stop rfl _ hafter, List.append_assoc, List.cons_append]
  have hrest : (trimChars (before ++ name ++ '(' :: inner ++ ')' :: after)).dropWhile (· ≠ '(') =
      '(' :: (inner ++ [')']) := by
    rw [htrim, List.dropWhile_append_of_pos hopen, List.dropWhile_cons_of_neg (by simp)]
  have hfront : (trimChars (before ++ name ++ '(' :: inner ++ ')' :: after)).takeWhile (· ≠ '(') =
      name.dropWhile isBlank := by
    rw [htrim, List.takeWhile_append_of_pos hopen, List.takeWhile_cons_of_neg (by simp),
      List.append_nil]
  simp only [ofCall, String.toList_ofList, hrest, hfront, List.getLast?_concat,
    List.dropLast_concat, if_true, trimChars_dropWhile]

/-! ## The functions that arguments build -/

theorem of_single_eq_ok {kind : AggregateKind} {make : String → AggregateFunction}
    {arguments : List String} {f : AggregateFunction} (h : single kind make arguments = .ok f) :
    ∃ column, arguments = [column] ∧ f = make column := by
  match arguments, h with
  | [column], h => exact ⟨column, rfl, (Except.ok.inj h).symm⟩

/-- An empty argument is no precision and no scale. -/
theorem ne_empty_of_literal_eq_ok {role text : String} {n : Nat} (h : literal role text = .ok n) :
    text ≠ "" := by
  rintro rfl
  have hempty : literal role "" = .error (.sumPrecisionLiteral role "") := rfl
  exact nomatch hempty.symm.trans h

/-- Arguments that build a function begin with what it is over, and none of
those behind it is empty. -/
theorem of_ofArguments_eq_ok {name : String} {arguments : List String} {nullHandling : Bool}
    {f : AggregateFunction} (h : ofArguments name arguments nullHandling = .ok f) :
    ∃ literals, arguments = f.column?.getD star :: literals ∧ ∀ text ∈ literals, text ≠ "" := by
  cases hkind : AggregateKind.ofName? name with
  | none =>
    simp only [ofArguments, hkind] at h
    exact nomatch h
  | some kind =>
    simp only [ofArguments, hkind] at h
    cases kind with
    | min | max | sum =>
      obtain ⟨column, rfl, rfl⟩ := of_single_eq_ok h
      exact ⟨[], rfl, List.forall_mem_nil _⟩
    | count =>
      obtain ⟨column, rfl, rfl⟩ := of_single_eq_ok h
      refine ⟨[], ?_, List.forall_mem_nil _⟩
      by_cases hstar : column = star <;> simp [column?, hstar]
    | sumPrecision =>
      match arguments, h with
      | [column], h =>
        obtain rfl := Except.ok.inj h
        exact ⟨[], rfl, List.forall_mem_nil _⟩
      | [column, precision], h =>
        obtain ⟨p, hp, hf⟩ := Except.bind_eq_ok.1 h
        obtain rfl := Except.ok.inj hf
        exact ⟨[precision], rfl, by simpa using ne_empty_of_literal_eq_ok hp⟩
      | [column, precision, scale], h =>
        obtain ⟨p, hp, h⟩ := Except.bind_eq_ok.1 h
        obtain ⟨s, hs, hf⟩ := Except.bind_eq_ok.1 h
        obtain rfl := Except.ok.inj hf
        exact ⟨[precision, scale], rfl,
          by simpa using ⟨ne_empty_of_literal_eq_ok hp, ne_empty_of_literal_eq_ok hs⟩⟩

/-- Where an argument is empty, the arguments without the empty ones build
no function that all of them build. -/
theorem ofArguments_filter_ne {name : String} {arguments : List String} (hempty : "" ∈ arguments)
    {nullHandling : Bool} {f : AggregateFunction}
    (h : ofArguments name (arguments.filter (!·.isEmpty)) nullHandling = .ok f) :
    ofArguments name arguments nullHandling ≠ .ok f := by
  intro hall
  obtain ⟨literals, hkept, -⟩ := of_ofArguments_eq_ok h
  obtain ⟨literals', harguments, hliterals⟩ := of_ofArguments_eq_ok hall
  -- only the first argument can be the empty one, and that one is left out
  have hfirst : "" = f.column?.getD star := by
    rw [harguments] at hempty
    exact (List.mem_cons.1 hempty).resolve_right fun h => hliterals "" h rfl
  have hmem : "" ∈ arguments.filter (!·.isEmpty) := by
    rw [hkept, ← hfirst]
    exact List.mem_cons_self
  exact absurd (List.of_mem_filter hmem) (by decide)

/-! ## Calls -/

/-- **A call reads the arguments that are not blank.** Whatever blanks
stand around its parts, it does with them what is done with the trimmed
name and the trimmed arguments without the blank ones: the very same where
no argument is blank. Where one is, no function that the call builds is the
one that the arguments in their places build. -/
theorem ofCall_written (before name after : String) (arguments : List String) (nullHandling : Bool)
    (hbefore : ∀ c ∈ before.toList, isBlank c) (hafter : ∀ c ∈ after.toList, isBlank c)
    (hname : '(' ∉ name.toList) (harguments : ∀ a ∈ arguments, ',' ∉ a.toList) :
    let call := before ++ name ++ "(" ++ ",".intercalate arguments ++ ")" ++ after
    let trimmed := arguments.map trim
    ofCall call nullHandling =
        ofArguments (trim name) (trimmed.filter (!·.isEmpty)) nullHandling ∧
      ("" ∉ trimmed → ofCall call nullHandling = ofArguments (trim name) trimmed nullHandling) ∧
      ("" ∈ trimmed → ∀ f, ofCall call nullHandling = .ok f →
        ofArguments (trim name) trimmed nullHandling ≠ .ok f) := by
  intro call trimmed
  have hcall : call = String.ofList (before.toList ++ name.toList ++
      '(' :: [','].intercalate (arguments.map String.toList) ++ ')' :: after.toList) := by
    rw [← String.toList_inj, String.toList_ofList]
    simp [call, String.toList_intercalate]
  have hread : ofCall call nullHandling =
      ofArguments (trim name) (trimmed.filter (!·.isEmpty)) nullHandling := by
    rw [hcall, ofCall_eq hbefore hafter hname, callArguments_intercalate harguments]
    rfl
  refine ⟨hread, fun hempty => ?_, fun hempty f hf => ?_⟩
  · rw [hread, List.filter_eq_self.2]
    intro a ha
    have hne : a ≠ "" := fun h => hempty (h ▸ ha)
    simpa using hne
  · exact ofArguments_filter_ne hempty (hread ▸ hf)

/-- A blank precision lets the scale take its place. -/
theorem ofCall_written_blankPrecision :
    ofCall "sumprecision(v,,2)" false = .ok (.sumPrecision "v" 2 none false) ∧
      ofArguments "sumprecision" ["v", "", "2"] false =
        .error (.sumPrecisionLiteral "precision" "") := by
  have hreads := ofCall_written "" "sumprecision" "" ["v", "", "2"] false (by simp) (by simp)
    (by decide) (by decide)
  exact ⟨hreads.1, rfl⟩

end AggregateFunction

end SegmentQuery
