import SegmentQuery.Decimal.Basic
import SegmentQuery.Text.Numeral
/-!
# Reading decimals

Plain text is an optional sign and ASCII digits with at most one point
among them; underscores may separate digits. Digits past the 28th place,
or past what 96 bits hold, are rounded away by looking at the first of
them alone, a half going away from zero. A zero is positive whatever its
sign. Scientific text is a plain one and a power of ten; a negative
number that a negative power rounds away stays negative. `read` tries
the plain reading first, and its error is that of the scientific one.
-/


namespace SegmentQuery

/-- Why a text is no decimal. -/
inductive NumeralError
  | empty
  | unknownCharacter
  | secondPoint
  | leadingSeparator
  | noDigits
  | tooManyDigits
  | roundingOverflow
  | notScientific
  | scaleTooLarge (scale : Nat)
  | tooLarge
  | tooSmall
  deriving DecidableEq, Repr

def NumeralError.message : NumeralError → String
  | .empty => "Invalid decimal: empty"
  | .unknownCharacter => "Invalid decimal: unknown character"
  | .secondPoint => "Invalid decimal: two decimal points"
  | .leadingSeparator => "Invalid decimal: must start lead with a number"
  | .noDigits => "Invalid decimal: no digits found"
  | .tooManyDigits => "Invalid decimal: overflow from too many digits"
  | .roundingOverflow => "Invalid decimal: overflow from mantissa after rounding"
  | .notScientific => "Failed to parse"
  | .scaleTooLarge scale =>
    s!"Scale exceeds the maximum precision allowed: {scale} > 28"
  | .tooLarge => "Number exceeds maximum value that can be represented."
  | .tooSmall => "Number less than minimum value that can be represented."

namespace Decimal

/-- The decimal of these digits, if they are within the bounds; the
scale is judged first. -/
def ofScaled (x : Scaled) : Except NumeralError Decimal :=
  if hs : x.scale ≤ maxScale then
    if hm : x.magnitude < coeffLimit then .ok ⟨x, hm, hs⟩
    else if x.negative then .error .tooSmall
    else .error .tooLarge
  else .error (.scaleTooLarge x.scale)

/-- The decimal with this coefficient and scale. -/
def ofParts (coeff : Int) (scale : Nat) : Except NumeralError Decimal :=
  ofScaled (.ofCoeff coeff scale)

/-! ## Plain text -/

/-- The fault of a character that is no digit and has no place where it
stands. -/
def strayCharacter (c : Char) : NumeralError :=
  if c = '.' then .secondPoint else if c = '_' then .leadingSeparator else .unknownCharacter

def signed (negative : Bool) (coeff : Nat) : Int := if negative then -(coeff : Int) else coeff

/-- What may follow the digits that are kept. -/
def isPlace (c : Char) : Bool := (Text.digit? c).isSome || c = '_'

/-- The kept digits with the next one rounded into them, a half going
up. A coefficient that rounding pushes past 96 bits gives up one more
place. -/
def roundUp (negative : Bool) (coeff scale next : Nat) : Except NumeralError Decimal :=
  if next < 5 then ofParts (signed negative coeff) scale
  else if coeff + 1 < coeffLimit then ofParts (signed negative (coeff + 1)) scale
  else if scale = 0 then .error .roundingOverflow
  else ofParts (signed negative ((coeff + 5) / 10)) (scale - 1)

/-- End a numeral at its first digit that does not fit: the digit rounds
the coefficient, where a separator counts as 0, and the rest need only
be digits. -/
def cut (negative : Bool) (coeff scale : Nat) (c : Char) (rest : List Char) :
    Except NumeralError Decimal :=
  if isPlace c then do
    let rounded ← roundUp negative coeff scale ((Text.digit? c).getD 0)
    match rest.find? (!isPlace ·) with
    | some stray => throw (strayCharacter stray)
    | none => return rounded
  else .error (strayCharacter c)

/-- The coefficients from which on one more digit may outgrow 64 bits,
with room to spare. -/
def longCoeff : Nat := 1844674407370954906

/-- End a numeral that has all its places. Separators in front of the
rounding digit are passed over when the digits before the last one make
a long coefficient. -/
def endPlaces (negative : Bool) (coeff scale : Nat) (cs : List Char) :
    Except NumeralError Decimal :=
  match (if longCoeff ≤ coeff / 10 then cs.dropWhile (· = '_') else cs) with
  | [] => ofParts (signed negative coeff) scale
  | c :: rest => cut negative coeff scale c rest

/-- Read on from `coeff / 10 ^ scale`. `point` tells that the point has
been passed and `started` that a digit has been seen. -/
def readPlain (negative : Bool) (coeff scale : Nat) (point started : Bool) :
    List Char → Except NumeralError Decimal
  | [] => if started then ofParts (signed negative coeff) scale else .error .noDigits
  | c :: rest =>
    if point && decide (maxScale ≤ scale) then endPlaces negative coeff scale (c :: rest)
    else match Text.digit? c with
      | some d =>
        if 10 * coeff + d < coeffLimit then
          readPlain negative (10 * coeff + d) (if point then scale + 1 else scale) point true rest
        else if point then cut negative coeff scale c rest
        else .error .tooManyDigits
      | none =>
        if c = '.' && !point then readPlain negative coeff scale true started rest
        else if c = '_' && started then readPlain negative coeff scale point started rest
        else .error (strayCharacter c)

/-- Read plain text. -/
def ofPlain : List Char → Except NumeralError Decimal
  | [] => .error .empty
  | '-' :: rest => readPlain true 0 0 false false rest
  | '+' :: rest => readPlain false 0 0 false false rest
  | cs => readPlain false 0 0 false false cs

/-! ## Scientific text -/

/-- `d · 10 ^ n`: the scale absorbs what it can, and a longer shift
leaves a whole number. -/
def shiftUp (d : Decimal) (n : Nat) : Except NumeralError Decimal :=
  if n ≤ d.scale then ofParts d.coeff (d.scale - n)
  else if maxScale < n then .error (.scaleTooLarge n)
  else match ofParts? (d.coeff * Number.tenPow (n - d.scale)) 0 with
    | some shifted => .ok shifted
    | none => .error .tooLarge

/-- `d / 10 ^ n`. The scale takes in what it can, and the digits that
would go past its end are rounded away, a half away from zero. The sign
stays even when no digit does. -/
def shiftDown (d : Decimal) (n : Nat) : Except NumeralError Decimal :=
  if maxScale < n then .error (.scaleTooLarge n)
  else
    let excess := d.scale + n - maxScale
    ofScaled ⟨d.negative, roundHalfUp d.magnitude (Number.tenPow excess), d.scale + n - excess⟩

def isExponentMark (c : Char) : Bool := c = 'e' || c = 'E'

/-- Read a plain text, an exponent mark and an exponent. -/
def ofScientific (cs : List Char) : Except NumeralError Decimal :=
  match cs.dropWhile (!isExponentMark ·) with
  | [] => .error .notScientific
  | _ :: exponent => do
    let base ← ofPlain (cs.takeWhile (!isExponentMark ·))
    let (down, digits) := match exponent with
      | '-' :: digits => (true, digits)
      | digits => (false, digits)
    match Text.natural? Number.bound32 digits with
    | none => .error .notScientific
    | some n => if down then base.shiftDown n else base.shiftUp n

/-- Read either notation. -/
def read (cs : List Char) : Except NumeralError Decimal :=
  match ofPlain cs with
  | .ok d => .ok d
  | .error _ => ofScientific cs

end Decimal

end SegmentQuery
