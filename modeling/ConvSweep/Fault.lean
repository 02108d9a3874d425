/-!
# Faults

A computation on sizes and buffers stops when a size leaves the machine word, an
index leaves its buffer, or a caller breaks the stated contract of a matrix
multiply.  Such a stop is a `Fault`.  It is kept apart from the errors that the
library reports about its input: a fault is never part of a successful answer
and most faults carry no text.
-/

namespace ConvSweep

/-- The three matrices of a multiply `C := alpha * A * B + beta * C`. -/
inductive MatrixName
  | a
  | b
  | c
deriving DecidableEq, Inhabited

namespace MatrixName

def upper : MatrixName → String
  | a => "A"
  | b => "B"
  | c => "C"

def lower : MatrixName → String
  | a => "a"
  | b => "b"
  | c => "c"

end MatrixName

inductive Fault
  /-- A size, offset or duration does not fit its word. -/
  | overflow
  /-- An index or a slice lies outside its buffer. -/
  | outOfRange
  /-- The number of coordinates differs from the rank. -/
  | coordinateCount
  /-- A buffer of this length cannot be allocated. -/
  | capacity
  /-- The leading dimension is smaller than a row. -/
  | shortStride (matrix : MatrixName) (stride width : Nat)
  /-- The buffer is too short for its matrix. -/
  | shortMatrix (matrix : MatrixName)
deriving DecidableEq, Inhabited

namespace Fault

/-- The text of a fault; only a broken contract of a matrix multiply has one. -/
def message : Fault → Option String
  | shortStride matrix stride width =>
      some ("ld" ++ matrix.lower ++ " " ++ toString stride ++ " < n " ++ toString width)
  | shortMatrix matrix => some (matrix.upper ++ " dimensions mismatch")
  | _ => none

/-- Stops with `fault` unless `condition` holds. -/
def check (fault : Fault) (condition : Prop) [Decidable condition] : Except Fault Unit :=
  if condition then .ok () else .error fault

/-- The value, or a stop with `fault` when there is none. -/
def demand {α : Type} (fault : Fault) : Option α → Except Fault α
  | some x => .ok x
  | none => .error fault

end Fault

end ConvSweep
