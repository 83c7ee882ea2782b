import SegmentQuery.Text.Numeral
/-!
# JSON texts

A reader for option texts. Numbers are kept only as far as options need
them: a number written as plain digits is a count, any other is just a
number. A string escape may name half of a surrogate pair; such a string
is well formed but spells no text, so it has no value and can be skipped
but not used.
-/


namespace SegmentQuery

/-- A JSON value, as far as options tell values apart. -/
inductive Json
  | null
  | bool (value : Bool)
  | number (count : Option Nat)
  | string (text : Option String)
  | array (items : List Json)
  | object (members : List (Option String × Json))

namespace Json

def isSpace (c : Char) : Bool := c = ' ' || c = '\n' || c = '\t' || c = '\r'

def skipSpace (cs : List Char) : List Char := cs.dropWhile isSpace

/-! ## Strings -/

/-- The value of a hexadecimal digit. -/
def hexDigit? (c : Char) : Option Nat :=
  if '0' ≤ c ∧ c ≤ '9' then some (c.toNat - '0'.toNat)
  else if 'a' ≤ c ∧ c ≤ 'f' then some (c.toNat - 'a'.toNat + 10)
  else if 'A' ≤ c ∧ c ≤ 'F' then some (c.toNat - 'A'.toNat + 10)
  else none

/-- The character that a one-letter escape stands for. -/
def escaped? (c : Char) : Option Char :=
  if c = '"' ∨ c = '\\' ∨ c = '/' then some c
  else if c = 'b' then some '\x08'
  else if c = 'f' then some '\x0c'
  else if c = 'n' then some '\n'
  else if c = 'r' then some '\r'
  else if c = 't' then some '\t'
  else none

/-- The 16 bit units of a string's contents, up to the closing quote. A
character beyond 16 bits is one unit here, so only escapes can leave a
surrogate alone. -/
def units : List Char → Option (List Nat × List Char)
  | [] => none
  | '"' :: rest => some ([], rest)
  | '\\' :: 'u' :: a :: b :: c :: d :: rest => do
    let unit := 4096 * (← hexDigit? a) + 256 * (← hexDigit? b) + 16 * (← hexDigit? c) + (← hexDigit? d)
    let (more, rest) ← units rest
    return (unit :: more, rest)
  | '\\' :: c :: rest => do
    let unit := (← escaped? c).toNat
    let (more, rest) ← units rest
    return (unit :: more, rest)
  | c :: rest => do
    if c.toNat < 0x20 || c = '\\' then none
    let (more, rest) ← units rest
    return (c.toNat :: more, rest)

/-- Join surrogate pairs; none when half of a pair stands alone. -/
def joinUnits : List Nat → Option (List Char)
  | [] => some []
  | high :: rest =>
    if 0xd800 ≤ high ∧ high < 0xdc00 then
      match rest with
      | low :: rest =>
        if 0xdc00 ≤ low ∧ low < 0xe000 then
          (joinUnits rest).map
            (Char.ofNat (0x10000 + 1024 * (high - 0xd800) + (low - 0xdc00)) :: ·)
        else none
      | [] => none
    else if 0xdc00 ≤ high ∧ high < 0xe000 then none
    else (joinUnits rest).map (Char.ofNat high :: ·)

/-- Read the rest of a string after its opening quote. -/
def stringRest (cs : List Char) : Option (Option String × List Char) := do
  let (us, rest) ← units cs
  return ((joinUnits us).map String.ofList, rest)

/-! ## Numbers -/

def isDigit (c : Char) : Bool := (Text.digit? c).isSome

/-- Digits, at least one. -/
def digits (cs : List Char) : Option (List Char × List Char) :=
  let run := cs.takeWhile isDigit
  if run.isEmpty then none else some (run, cs.dropWhile isDigit)

/-- Drop a fraction, if one follows. -/
def skipFraction : List Char → Option (List Char)
  | '.' :: rest => (digits rest).map (·.2)
  | cs => some cs

/-- Drop an exponent, if one follows. -/
def skipExponent : List Char → Option (List Char)
  | c :: rest =>
    if c = 'e' ∨ c = 'E' then
      match rest with
      | s :: more => if s = '+' ∨ s = '-' then (digits more).map (·.2) else (digits rest).map (·.2)
      | [] => none
    else some (c :: rest)
  | [] => some []

/-- Read a number without a leading zero before other digits. -/
def numberFrom (cs : List Char) : Option (Json × List Char) := do
  let (negative, unsigned) := match cs with
    | '-' :: rest => (true, rest)
    | _ => (false, cs)
  let (run, rest) ← digits unsigned
  if run.head? = some '0' ∧ run.length ≠ 1 then none
  let afterFraction ← skipFraction rest
  let afterExponent ← skipExponent afterFraction
  let plain := !negative && afterExponent.length == rest.length
  return (.number (if plain then Text.digitsValue? 0 run else none), afterExponent)

/-! ## Values -/

/-- Read items separated by commas up to `close`, at least one. -/
def itemsFrom {α : Type} (item : List Char → Option (α × List Char)) (close : Char)
    (cs : List Char) : Option (List α × List Char) :=
  match item cs with
  | none => none
  | some (a, rest) =>
    match skipSpace rest with
    | [] => none
    | c :: more =>
      if c = close then some ([a], more)
      else if c = ',' then
        if (skipSpace more).length < cs.length then
          (itemsFrom item close (skipSpace more)).map fun (as, rest) => (a :: as, rest)
        else none
      else none
termination_by cs.length

/-- Read items after an opening bracket. -/
def items {α : Type} (item : List Char → Option (α × List Char)) (close : Char)
    (cs : List Char) : Option (List α × List Char) :=
  match skipSpace cs with
  | [] => none
  | c :: rest => if c = close then some ([], rest) else itemsFrom item close (c :: rest)

/-- Read a member of an object. -/
def member {α : Type} (value : List Char → Option (α × List Char)) :
    List Char → Option ((Option String × α) × List Char)
  | '"' :: rest => do
    let (key, rest) ← stringRest rest
    match skipSpace rest with
    | ':' :: rest =>
      let (v, rest) ← value (skipSpace rest)
      return ((key, v), rest)
    | _ => none
  | _ => none

/-- Drop a word that must come next. -/
def word (w : String) (v : Json) (cs : List Char) : Option (Json × List Char) :=
  if w.toList.isPrefixOf cs then some (v, cs.drop w.length) else none

/-- Read a value nested at most `depth` deep. -/
def value : Nat → List Char → Option (Json × List Char)
  | 0, _ => none
  | _, [] => none
  | depth + 1, c :: rest =>
    if c = '[' then (items (value depth) ']' rest).map fun (vs, rest) => (.array vs, rest)
    else if c = '\x7b' then
      (items (member (value depth)) '\x7d' rest).map fun (ms, rest) => (.object ms, rest)
    else if c = '"' then (stringRest rest).map fun (s, rest) => (.string s, rest)
    else if c = 'n' then word "null" .null (c :: rest)
    else if c = 't' then word "true" (.bool true) (c :: rest)
    else if c = 'f' then word "false" (.bool false) (c :: rest)
    else numberFrom (c :: rest)

/-- Read a whole text. A text of `n` characters nests less than `n + 1`
deep. -/
def ofText (text : String) : Option Json :=
  let cs := text.toList
  match value (cs.length + 1) (skipSpace cs) with
  | some (v, rest) => if (skipSpace rest).isEmpty then some v else none
  | none => none

end Json

end SegmentQuery
