import ConvSweep.Matrix.Row
import ConvSweep.Size

/-!
# Dense multiply

`C := alpha * op(A) * op(B) + beta * C` on row-major buffers with leading
dimensions, where `op` leaves its operand as it is or transposes it.  `op(A)` is
`m × k`, `op(B)` is `k × n` and `C` is `m × n`.

Without a transposed `B` the products are added to the scaled row of `C` in tiles;
with one each element is a sum of products from zero.  Either way an element takes
its `k` products in ascending order.
-/

namespace ConvSweep

open Loop

/-- A stored matrix; row `r` starts at `r * stride`. -/
structure Operand (α : Type) where
  data : Array α
  stride : Nat
  transposed : Bool

namespace Operand

variable {α : Type}

/-- The entry of the operand, transposed or not, at row `i` and column `j`. -/
def entry (x : Operand α) (i j : Nat) : Except Fault α :=
  fetch x.data (if x.transposed then j * x.stride + i else i * x.stride + j)

/-- The number of stored rows of an operand that is used as a `rows × cols` matrix. -/
def storedRows (x : Operand α) (rows cols : Nat) : Nat :=
  if x.transposed then cols else rows

/-- The buffer reaches the first element of the last stored row. -/
def checkLength (x : Operand α) (name : MatrixName) (rows cols : Nat) : Except Fault Unit := do
  let least ← Size.checked ((x.storedRows rows cols - 1) * x.stride + 1)
  (Fault.shortMatrix name).check (least ≤ x.data.size)

end Operand

/-- A multiply `C := alpha * op(A) * op(B) + beta * C`, apart from the buffer of `C`. -/
structure DenseMultiply (α : Type) where
  m : Nat
  n : Nat
  k : Nat
  alpha : α
  a : Operand α
  b : Operand α
  beta : α
  ldc : Nat

namespace DenseMultiply

variable {α : Type} [Zero α] [One α] [Add α] [Mul α] [BEq α]

/-- The contract between sizes, leading dimensions and buffers. -/
def check (mul : DenseMultiply α) (length : Nat) : Except Fault Unit := do
  (Fault.shortStride .c mul.ldc mul.n).check (mul.n ≤ mul.ldc)
  let least ← Size.checked ((mul.m - 1) * mul.ldc + mul.n)
  (Fault.shortMatrix .c).check (least ≤ length)
  if mul.k ≠ 0 then
    mul.a.checkLength .a mul.m mul.k
    mul.b.checkLength .b mul.k mul.n

/-- Row `i` of `C` when `B` is used as it is stored: tile by tile, a multiple of a row of `B`. -/
@[specialize]
def addRows (mul : DenseMultiply α) (tile i : Nat) {len : Nat} : BufferM α len Unit := do
  BufferM.scale mul.beta
  forStrided mul.k tile fun p₀ =>
    forStrided mul.n tile fun j₀ =>
      forTile mul.k tile p₀ fun p => do
        let width := min (j₀ + tile) mul.n - j₀
        let x ← mul.a.entry i p
        let row ← slice mul.b.data (p * mul.b.stride + j₀) width
        BufferM.onSlice j₀ width (BufferM.addScaled (mul.alpha * x) row)

/-- The sum of the products of row `i` of `op(A)` with a stored row of `B`. -/
@[specialize]
def rowSum (mul : DenseMultiply α) (i : Nat) (row : Array α) : Except Fault α :=
  if mul.a.transposed then
    foldRange 0 mul.k (fun acc p => do
      let x ← mul.a.entry i p
      let y ← fetch row p
      return acc + x * y) 0
  else do
    let xs ← slice mul.a.data (i * mul.a.stride) mul.k
    return dotFrom 0 xs.toList row.toList

/-- Row `i` of `C` when `B` is transposed: one sum of products per element. -/
@[specialize]
def dotRows (mul : DenseMultiply α) (i : Nat) {len : Nat} : BufferM α len Unit :=
  forRange 0 mul.n fun j => do
    let row ← slice mul.b.data (j * mul.b.stride) mul.k
    let acc ← mul.rowSum i row
    if mul.beta == 0 then
      BufferM.write j (mul.alpha * acc)
    else
      let old ← BufferM.read j
      BufferM.write j (mul.alpha * acc + mul.beta * old)

@[specialize]
def row (mul : DenseMultiply α) (tile i : Nat) {len : Nat} : BufferM α len Unit :=
  if mul.b.transposed then mul.dotRows i else mul.addRows tile i

def standardTile : Nat := 64

/--
The multiply on the buffer of `C`.  Rows without a gap are independent chunks; rows
with a gap between them run one after the other.  With `k = 0` the rows are only
scaled, and an empty `C` is left alone before any check.
-/
@[specialize]
def run (schedule : Schedule) (tile : Nat) (mul : DenseMultiply α) {len : Nat} :
    BufferM α len Unit := do
  if mul.m = 0 ∨ mul.n = 0 then
    return
  mul.check len
  let span ← Size.checked (mul.m * mul.ldc)
  BufferM.onSlice 0 (span - (mul.ldc - mul.n)) <|
    if mul.k = 0 then
      forRange 0 mul.m fun i => BufferM.onSlice (i * mul.ldc) mul.n (BufferM.scale mul.beta)
    else if mul.ldc = mul.n then
      BufferM.onChunks schedule mul.ldc fun i _ =>
        BufferM.onSlice 0 mul.n (mul.row (max tile 1) i)
    else
      forRange 0 mul.m fun i => BufferM.onSlice (i * mul.ldc) mul.n (mul.row (max tile 1) i)

end DenseMultiply
end ConvSweep
