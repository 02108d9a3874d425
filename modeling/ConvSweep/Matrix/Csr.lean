import ConvSweep.Buffer
import ConvSweep.Error

/-!
# Compressed sparse rows

A sparse matrix stores, row after row, the columns and values of its entries.
The entries of row `r` lie between `rowStart r` and `rowEnd r`.  `ofParts` accepts
parts in which every row starts where the one before it ends, the rows cover all
values, and the columns of each row are ascending and below the column count.
-/

namespace ConvSweep

open Loop

structure CsrMatrix (α : Type) where
  rows : Nat
  cols : Nat
  rowStart : Array Nat
  rowEnd : Array Nat
  columns : Array Nat
  values : Array α
deriving DecidableEq

namespace CsrMatrix

variable {α : Type}

/-! ## Construction -/

/-- Whether a row of columns is below `cols` and strictly ascending. -/
def columnsAscend (cols : Nat) : List Nat → Bool
  | [] => true
  | [c] => c < cols
  | c :: d :: rest => c < cols && c < d && columnsAscend cols (d :: rest)

/-- Checks the spans of the rows from `row` on and returns where the last one ends. -/
def checkRows (cols length : Nat) (columns : Array Nat) (row previous : Nat) :
    List (Nat × Nat) → Except Error Nat
  | [] => .ok previous
  | (first, last) :: rest =>
      if first ≠ previous ∨ last < first ∨ length < last then
        .error (.shapeMismatch (.rowSpan row first last previous))
      else if columnsAscend cols (columns.extract first last).toList then
        checkRows cols length columns (row + 1) last rest
      else
        .error (.shapeMismatch (.rowColumns row))

def ofParts (rows cols : Nat) (rowStart rowEnd columns : Array Nat) (values : Array α) :
    Except Error (CsrMatrix α) := do
  if rowStart.size ≠ rows ∨ rowEnd.size ≠ rows then
    throw (.shapeMismatch (.rowOffsets rowStart.size rowEnd.size rows))
  if columns.size ≠ values.size then
    throw (.shapeMismatch (.columnCount columns.size values.size))
  let spans := rowStart.toList.zip rowEnd.toList
  let covered ← checkRows cols values.size columns 0 0 spans
  if covered ≠ values.size then
    throw (.shapeMismatch (.rowCover covered values.size))
  return { rows, cols, rowStart, rowEnd, columns, values }

/-- Starts and ends of consecutive stretches of the given lengths. -/
def spansFrom (start : Nat) : List Nat → List (Nat × Nat)
  | [] => []
  | length :: rest => (start, start + length) :: spansFrom (start + length) rest

/-- The matrix whose rows hold the listed entries, each a column and a value. -/
def ofRows (cols : Nat) (entries : List (List (Nat × α))) : CsrMatrix α :=
  let spans := spansFrom 0 (entries.map List.length)
  let stored := entries.flatten
  { rows := entries.length
    cols := cols
    rowStart := (spans.map Prod.fst).toArray
    rowEnd := (spans.map Prod.snd).toArray
    columns := (stored.map Prod.fst).toArray
    values := (stored.map Prod.snd).toArray }

/-! ## Contents -/

def count (a : CsrMatrix α) : Nat :=
  a.values.size

def row (a : CsrMatrix α) (r : Nat) : Except Fault (Array Nat × Array α) := do
  let first ← fetch a.rowStart r
  let last ← fetch a.rowEnd r
  Fault.outOfRange.check (first ≤ last)
  let columns ← slice a.columns first (last - first)
  let values ← slice a.values first (last - first)
  return (columns, values)

def entries (a : CsrMatrix α) (r : Nat) : Except Fault (List (Nat × α)) := do
  let (columns, values) ← a.row r
  return columns.toList.zip values.toList

/-- The stored part of all places; zero for a matrix without places. -/
def density (a : CsrMatrix α) : Float :=
  let total := (UInt64.ofNat a.rows).toFloat * (UInt64.ofNat a.cols).toFloat
  if total == 0 then 0 else (UInt64.ofNat a.count).toFloat / total

/-- Writes the stored entries to their places in a row-major buffer. -/
def writeEntries (a : CsrMatrix α) {n : Nat} : BufferM α n Unit :=
  forRange 0 a.rows fun r => do
    let stored ← a.entries r
    stored.forM fun (c, x) => BufferM.write (r * a.cols + c) x

/-- The row-major buffer of all places, zero where nothing is stored. -/
def toDense [Zero α] (a : CsrMatrix α) : Except Fault (Array α) := do
  let length ← Size.checked (a.rows * a.cols)
  Size.reserve length
  let v ← a.writeEntries.run (Vector.replicate length 0)
  return v.toArray

end CsrMatrix
end ConvSweep
