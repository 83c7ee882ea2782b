import SegmentQuery.Error.Basic
/-!
# Processing exceptions

A failure that a partial result or a response carries instead of
aborting the query.
-/


namespace SegmentQuery

/-- What a code says about a failure. -/
inductive ExceptionCode
  | queryExecution
  | segmentMissing
  | mergeResponse
  | unknown
  deriving DecidableEq, Repr

namespace ExceptionCode

def number : ExceptionCode → Nat
  | .queryExecution => 200
  | .segmentMissing => 235
  | .mergeResponse => 500
  | .unknown => 1000

/-- Read a code; one that is not assigned is unknown. -/
def ofNumber (n : Nat) : ExceptionCode :=
  if n = 200 then .queryExecution
  else if n = 235 then .segmentMissing
  else if n = 500 then .mergeResponse
  else .unknown

end ExceptionCode

/-- A code and a text. The code is kept as it came, assigned or not. -/
structure ProcessingException where
  code : Nat
  message : String
  deriving DecidableEq, Repr

namespace ProcessingException

def text (x : ProcessingException) : String := s!"{x.code}: {x.message}"

def ofError (code : ExceptionCode) (e : QueryError) : ProcessingException :=
  ⟨code.number, e.report⟩

end ProcessingException

end SegmentQuery
