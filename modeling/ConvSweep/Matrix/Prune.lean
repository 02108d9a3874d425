import ConvSweep.Matrix.Csr
import ConvSweep.Rounding

/-!
# Pruning

A weight matrix is made sparse by dropping, in every row, the entries at or below
the row's threshold: its `d`-th smallest entry, where `d` is the given percentage
of the row length, rounded up.  Entries are ranked by one order and compared with
the threshold by another, so ties with the threshold are always dropped, and a NaN
is never kept by a row that drops anything.
-/

namespace ConvSweep

/-! ## Percentiles -/

/-- A percentage from `0` to `100`. -/
structure Percentile where
  value : Binary32
  nonneg : Binary32.le 0 value = true
  le_hundred : value.le ⟨0x42c80000⟩ = true
deriving DecidableEq

/-- The value of a finite number; zero for the others. -/
def Binary32.toRat (x : Binary32) : Rat :=
  match Decimal.BinaryFormat.binary32.decode x.bits.toNat with
  | .finite negative significand exponent =>
      let magnitude : Rat := significand * (2 : Rat) ^ exponent
      if negative then -magnitude else magnitude
  | _ => 0

namespace Percentile

def ofNumber (x : Binary32) : Except Error Percentile :=
  if h₀ : Binary32.le 0 x = true then
    if h₁ : x.le ⟨0x42c80000⟩ = true then
      .ok ⟨x, h₀, h₁⟩
    else
      .error (.invalidPercentile x)
  else
    .error (.invalidPercentile x)

/-- The percentage as a part of one. -/
def fraction (p : Percentile) : Binary32 :=
  p.value / ⟨0x42c80000⟩

/-- A step of double-precision arithmetic on numbers that are not negative. -/
def rounded (x : Rat) : Rat :=
  Rounding.significant 53 x

/--
How many entries of a row of this length the threshold accounts for.  The
percentage of the length is taken in double precision and rounded to six decimal
places before it is rounded up, so that a percentage that single precision
represents only nearly does not add an entry.
-/
def dropCount (p : Percentile) (length : Nat) : Nat :=
  let exact := rounded (rounded (p.value.toRat * rounded length) / 100)
  let millionths := Rounding.nearestUp (rounded (exact * 1000000))
  let needed := (rounded ((millionths : Rat) / 1000000)).ceil.toNat
  min needed length

end Percentile

/-! ## Thresholds -/

/-- The orders by which entries are ranked and compared with the threshold. -/
class PruningOrder (α : Type) where
  /-- The first may stand before the second in a sorted row. -/
  ranksBefore : α → α → Bool
  /-- The first is greater than the second, as numbers. -/
  exceeds : α → α → Bool

/-- Ranks follow the total order of bit patterns, comparison the numeric order. -/
instance : PruningOrder Binary32 where
  ranksBefore x y := x.rank ≤ y.rank
  exceeds x y := y.lt x

section

variable {α : Type} [PruningOrder α]

/-- The `drop`-th smallest entry of a row; none if nothing is dropped. -/
def threshold (drop : Nat) (row : List α) : Option α :=
  if drop = 0 then none else (row.mergeSort PruningOrder.ranksBefore)[drop - 1]?

/-- The entries of a row, with their columns, that exceed the threshold. -/
def keptEntries (limit : Option α) (row : List α) : List (Nat × α) :=
  (row.zipIdx.filter fun (x, _) =>
    match limit with
    | some t => PruningOrder.exceeds x t
    | none => true).map fun (x, c) => (c, x)

def Percentile.threshold (p : Percentile) (row : List α) : Option α :=
  ConvSweep.threshold (p.dropCount row.length) row

def Percentile.pruneRow (p : Percentile) (row : List α) : List (Nat × α) :=
  keptEntries (p.threshold row) row

/-- A list of `2 ^ 60` row offsets or more cannot be stored. -/
def offsetLimit : Nat := 0x1000000000000000

/-- The sparse matrix of the entries of a row-major buffer that survive at a percentile. -/
def Percentile.prune (p : Percentile) (weights : Array α) (rows cols : Nat) :
    Outcome (CsrMatrix α) := do
  let length ← Size.checked (rows * cols)
  if weights.size ≠ length then
    throw (.error (.shapeMismatch (.matrixSize weights.size rows cols)))
  Fault.capacity.check (rows < offsetLimit)
  let row (r : Nat) : List α := (weights.extract (r * cols) ((r + 1) * cols)).toList
  return CsrMatrix.ofRows cols ((List.range rows).map fun r => p.pruneRow (row r))

/-- Prunes at a percentage that is checked first. -/
def prune (weights : Array α) (rows cols : Nat) (percentile : Binary32) :
    Outcome (CsrMatrix α) := do
  let p ← Percentile.ofNumber percentile
  p.prune weights rows cols

end

end ConvSweep
