import ConvSweep.Matrix.Csr
import ConvSweep.Matrix.Row

/-!
# Sparse multiply

`C := alpha * A * B + beta * C` with a sparse `A`.  Each row of `C` is scaled and
then receives, for the stored entries of its row of `A` in ascending column
order, a multiple of the row of `B` that the column names.
-/

namespace ConvSweep

open Loop

/-- A multiply `C := alpha * A * B + beta * C` with `n` columns, apart from the buffer of `C`. -/
structure SparseMultiply (α : Type) where
  alpha : α
  a : CsrMatrix α
  b : Array α
  ldb : Nat
  n : Nat
  beta : α
  ldc : Nat

namespace SparseMultiply

variable {α : Type} [Zero α] [One α] [Add α] [Mul α] [BEq α]

/-- The contract between sizes, leading dimensions and buffers. -/
def check (mul : SparseMultiply α) (length : Nat) : Except Fault Unit := do
  (Fault.shortMatrix .c).check (mul.n ≤ mul.ldc)
  let least ← Size.checked ((mul.a.rows - 1) * mul.ldc + mul.n)
  (Fault.shortMatrix .c).check (least ≤ length)
  (Fault.shortStride .b mul.ldb mul.n).check (mul.n ≤ mul.ldb)
  if mul.a.cols ≠ 0 then
    let least ← Size.checked ((mul.a.cols - 1) * mul.ldb + mul.n)
    (Fault.shortMatrix .b).check (least ≤ mul.b.size)

@[specialize]
def row (mul : SparseMultiply α) (r : Nat) {len : Nat} : BufferM α len Unit := do
  BufferM.scale mul.beta
  let stored ← mul.a.entries r
  stored.forM fun (c, x) => do
    let line ← slice mul.b (c * mul.ldb) mul.n
    BufferM.addScaled (mul.alpha * x) line

/-- The multiply on the buffer of `C`; rows without a gap are independent chunks. -/
@[specialize]
def run (schedule : Schedule) (mul : SparseMultiply α) {len : Nat} : BufferM α len Unit := do
  if mul.a.rows = 0 ∨ mul.n = 0 then
    return
  mul.check len
  BufferM.onSlice 0 ((mul.a.rows - 1) * mul.ldc + mul.n) <|
    if mul.ldc = mul.n then
      BufferM.onChunks schedule mul.ldc fun r _ => BufferM.onSlice 0 mul.n (mul.row r)
    else
      forRange 0 mul.a.rows fun r => BufferM.onSlice (r * mul.ldc) mul.n (mul.row r)

end SparseMultiply
end ConvSweep
