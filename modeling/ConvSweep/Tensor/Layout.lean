import ConvSweep.Tensor.Basic

/-!
# Axis orders and borders

Conversions between `(N, C, H, W)` and `(N, H, W, C)`, and the copy into a tensor
with a zero border.  Weights `(F, C, K, K)` go through the same functions: the
filter takes the place of the batch element.
-/

namespace ConvSweep
namespace Tensor

open Loop

variable {α : Type} [Zero α]

def bordered (extent pad : Nat) : Except Fault Nat :=
  Size.checked (extent + 2 * pad)

/-- `(N, C, H, W)` to `(N, H + 2 * pad, W + 2 * pad, C)`, zero in the border. -/
def toNhwcPadded (t : Tensor α) (pad : Nat) : Outcome (Tensor α) := do
  let (n, c, h, w) ← t.shape.quad
  let rows ← bordered h pad
  let cols ← bordered w pad
  build [n, rows, cols, c] fun _ =>
    forRange 0 n fun b =>
      forRange 0 c fun ch =>
        forRange 0 h fun y =>
          forRange 0 w fun x => do
            let value ← fetch t.data (((b * c + ch) * h + y) * w + x)
            BufferM.write ((((b * rows + y + pad) * cols + pad) + x) * c + ch) value

/-- `(N, C, H, W)` to `(N, H, W, C)`. -/
def toNhwc (t : Tensor α) : Outcome (Tensor α) :=
  t.toNhwcPadded 0

/-- `(N, H, W, C)` to `(N, C, H, W)`. -/
def toNchw (t : Tensor α) : Outcome (Tensor α) := do
  let (n, h, w, c) ← t.shape.quad
  build [n, c, h, w] fun _ =>
    forRange 0 n fun b =>
      forRange 0 h fun y =>
        forRange 0 w fun x =>
          forRange 0 c fun ch => do
            let value ← fetch t.data (((b * h + y) * w + x) * c + ch)
            BufferM.write (((b * c + ch) * h + y) * w + x) value

/-- `(N, C, H, W)` with a zero border around each plane; a tensor of any rank if `pad` is zero. -/
def padNchw (t : Tensor α) (pad : Nat) : Outcome (Tensor α) := do
  if pad = 0 then
    return t
  let (n, c, h, w) ← t.shape.quad
  let rows ← bordered h pad
  let cols ← bordered w pad
  build [n, c, rows, cols] fun _ =>
    forRange 0 (n * c) fun plane =>
      forRange 0 h fun y => do
        let row ← slice t.data ((plane * h + y) * w) w
        BufferM.onSlice ((plane * rows + y + pad) * cols + pad) w (BufferM.copyFrom row)

end Tensor
end ConvSweep
