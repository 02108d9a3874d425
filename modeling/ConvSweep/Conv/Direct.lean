import ConvSweep.Conv.Problem
import ConvSweep.Matrix.Row

/-!
# Direct convolution

Nested loops over the output, without a scratch buffer.  In NCHW order one task
computes one output plane and visits its pixels tile by tile; in NHWC order one
task computes one output row.  Every output element is a sum of products from
zero, taken in the order of the taps; tiles change the order of the visits only.
-/

namespace ConvSweep

open Loop

namespace Problem

variable {α : Type} [Zero α] [Add α] [Mul α]

/-! ## NCHW -/

/-- Adds the products of one kernel row to `sum`; `channel` is where the input plane starts. -/
@[specialize]
def addKernelRow (p : Problem) (input filter : Array α) (channel row oh ow kh : Nat) (sum : α) :
    Except Fault α := do
  let weights ← slice filter (row * p.kernel) p.kernel
  if p.padding = .inline then
    match source? p.halo p.inputRows oh kh with
    | none => return sum
    | some ih =>
        foldRange 0 p.kernel (fun sum kw => do
          match source? p.halo p.inputCols ow kw with
          | none => return sum
          | some iw =>
              let x ← fetch input (channel + ih * p.inputCols + iw)
              let w ← fetch weights kw
              return sum + x * w) sum
  else
    foldRange 0 p.kernel (fun sum kw => do
      let x ← fetch input (channel + (oh + kh) * p.inputCols + ow + kw)
      let w ← fetch weights kw
      return sum + x * w) sum

/-- The output element at `(oh, ow)`; `batchStart` is where the batch element starts. -/
@[specialize]
def pixelSum (p : Problem) (input filter : Array α) (batchStart oh ow : Nat) : Except Fault α :=
  foldRange 0 p.inChannels (fun sum ic =>
    foldRange 0 p.kernel (fun sum kh =>
      p.addKernelRow input filter (batchStart + ic * (p.inputRows * p.inputCols))
        (ic * p.kernel + kh) oh ow kh sum) sum) 0

/-- Output plane number `plane`, which belongs to one batch element and one filter. -/
@[specialize]
def planeTask (p : Problem) (tile : Tile) (input weights : Array α) : ChunkTask α :=
  fun plane _ => do
    let filter ← slice weights (plane % p.outChannels * p.patchSize) p.patchSize
    let batchStart := plane / p.outChannels * p.inChannels * (p.inputRows * p.inputCols)
    forStrided p.outRows (max tile.rows 1) fun oh₀ =>
      forStrided p.outCols (max tile.cols 1) fun ow₀ =>
        forTile p.outRows (max tile.rows 1) oh₀ fun oh =>
          forTile p.outCols (max tile.cols 1) ow₀ fun ow => do
            let sum ← p.pixelSum input filter batchStart oh ow
            BufferM.write (oh * p.outCols + ow) sum

/-- `(N, C, IH, IW)` with `(F, C, K, K)` to `(N, F, OH, OW)`. -/
@[specialize]
def directNchw (p : Problem) (schedule : Schedule) (tile : Tile) (input weights : Array α)
    {n : Nat} : BufferM α n Unit :=
  BufferM.onChunks schedule (p.outRows * p.outCols) (p.planeTask tile input weights)

/-! ## NHWC -/

/-- The input row or column under a tap; only an inline border leaves taps out. -/
def tap? (p : Problem) (extent o k : Nat) : Option Nat :=
  if p.padding = .inline then source? p.halo extent o k else some (o + k)

/-- Adds the products of all channels under one tap to `sum`. -/
@[specialize]
def addTap (p : Problem) (input filter : Array α) (batchStart oh ow kh kw : Nat) (sum : α) :
    Except Fault α := do
  match p.tap? p.inputRows oh kh, p.tap? p.inputCols ow kw with
  | some ih, some iw =>
      let weights ← slice filter ((kh * p.kernel + kw) * p.inChannels) p.inChannels
      let xs ← slice input (batchStart + (ih * p.inputCols + iw) * p.inChannels) p.inChannels
      return dotFrom sum xs.toList weights.toList
  | _, _ => return sum

/-- The output element of one filter at `(oh, ow)`. -/
@[specialize]
def channelSum (p : Problem) (input filter : Array α) (batchStart oh ow : Nat) :
    Except Fault α :=
  foldRange 0 p.kernel (fun sum kh =>
    foldRange 0 p.kernel (fun sum kw =>
      p.addTap input filter batchStart oh ow kh kw sum) sum) 0

/-- Output row number `row`, which belongs to one batch element. -/
@[specialize]
def rowTask (p : Problem) (input weights : Array α) : ChunkTask α :=
  fun row _ =>
    forRange 0 p.outCols fun ow =>
      forRange 0 p.outChannels fun f => do
        let filter ← slice weights (f * p.patchSize) p.patchSize
        let batchStart := row / p.outRows * p.inputRows * p.inputCols * p.inChannels
        let sum ← p.channelSum input filter batchStart (row % p.outRows) ow
        BufferM.write (ow * p.outChannels + f) sum

/-- `(N, IH, IW, C)` with `(F, K, K, C)` to `(N, OH, OW, F)`. -/
@[specialize]
def directNhwc (p : Problem) (schedule : Schedule) (input weights : Array α) {n : Nat} :
    BufferM α n Unit :=
  BufferM.onChunks schedule (p.outCols * p.outChannels) (p.rowTask input weights)

end Problem
end ConvSweep
