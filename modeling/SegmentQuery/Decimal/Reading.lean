import SegmentQuery.Error.Basic
import SegmentQuery.Text.Blank
/-!
# Decimals from texts and floating-point numbers

A text is read without the blanks around it. A floating-point number is
read from its shortest text, so `0.1` means one tenth; a single is first
widened, so it brings the digits of its exact value.
-/


namespace SegmentQuery

namespace Decimal

/-- Read a text that may have blanks around it. -/
def ofText (text : String) : Except QueryError Decimal :=
  let trimmed := Text.trim text
  (read trimmed.toList).mapError (.badDecimal trimmed)

def ofDouble (x : Double) : Except QueryError Decimal :=
  if x.isFinite then ofText x.text else .error (.nonFiniteDecimal x)

def ofSingle (x : Single) : Except QueryError Decimal := ofDouble x.widen

end Decimal

end SegmentQuery
