import ConvSweep.Conv.Problem
import ConvSweep.Tensor.Basic

/-!
# Patches

The receptive field of every output position is copied out of the input, so that
a convolution becomes a matrix multiply.  The copies fill a scratch tensor of rank
six in one of three axis orders, one task per batch element.  A tap outside the
input, which only an inline border has, is zero.
-/

namespace ConvSweep

open Loop

namespace Problem

variable {α : Type} [Zero α]

/-! ## Copies -/

/-- One `(C, K, K)` patch of an NCHW input. -/
@[specialize]
def copyPatchChw (p : Problem) (input : Array α) (batchStart oh ow : Nat) {len : Nat} :
    BufferM α len Unit :=
  forRange 0 p.inChannels fun ic => do
    let channel := batchStart + ic * (p.inputRows * p.inputCols)
    forRange 0 p.kernel fun kh => do
      let row := (ic * p.kernel + kh) * p.kernel
      if p.padding = .inline then
        forRange 0 p.kernel fun kw => do
          match source? p.halo p.inputRows oh kh, source? p.halo p.inputCols ow kw with
          | some ih, some iw =>
              let x ← fetch input (channel + ih * p.inputCols + iw)
              BufferM.write (row + kw) x
          | _, _ => BufferM.write (row + kw) 0
      else
        let xs ← slice input (channel + (oh + kh) * p.inputCols + ow) p.kernel
        BufferM.onSlice row p.kernel (BufferM.copyFrom xs)

/-- One `(K, K, C)` patch of an NHWC input. -/
@[specialize]
def copyPatchHwc (p : Problem) (input : Array α) (batchStart oh ow : Nat) {len : Nat} :
    BufferM α len Unit :=
  forRange 0 p.kernel fun kh =>
    forRange 0 p.kernel fun kw =>
      BufferM.onSlice ((kh * p.kernel + kw) * p.inChannels) p.inChannels do
        if p.padding = .inline then
          match source? p.halo p.inputRows oh kh, source? p.halo p.inputCols ow kw with
          | some ih, some iw =>
              let xs ← slice input (batchStart + (ih * p.inputCols + iw) * p.inChannels)
                p.inChannels
              BufferM.copyFrom xs
          | _, _ => BufferM.fill 0
        else
          let xs ← slice input (batchStart + ((oh + kh) * p.inputCols + ow + kw) * p.inChannels)
            p.inChannels
          BufferM.copyFrom xs

/-- Runs `copy` at every output position, on the stretch of its patch. -/
@[specialize]
def forPatches (p : Problem) {len : Nat} (copy : Nat → Nat → BufferM α p.patchSize Unit) :
    BufferM α len Unit :=
  forRange 0 p.outRows fun oh =>
    forRange 0 p.outCols fun ow =>
      BufferM.onSlice ((oh * p.outCols + ow) * p.patchSize) p.patchSize (copy oh ow)

/-- The values of one tap along one output row; `channel` is where the input plane starts. -/
@[specialize]
def copyTapRow (p : Problem) (input : Array α) (channel oh kh kw : Nat) {len : Nat} :
    BufferM α len Unit := do
  if p.padding = .inline then
    match source? p.halo p.inputRows oh kh with
    | some ih =>
        forRange 0 p.outCols fun ow => do
          match source? p.halo p.inputCols ow kw with
          | some iw =>
              let x ← fetch input (channel + ih * p.inputCols + iw)
              BufferM.write ow x
          | none => BufferM.write ow 0
    | none => BufferM.fill 0
  else
    let xs ← slice input (channel + (oh + kh) * p.inputCols + kw) p.outCols
    BufferM.copyFrom xs

/-- One matrix of a row per tap and a column per output position. -/
@[specialize]
def copyChannels (p : Problem) (input : Array α) (batchStart : Nat) {len : Nat} :
    BufferM α len Unit :=
  forRange 0 p.inChannels fun ic => do
    let channel := batchStart + ic * (p.inputRows * p.inputCols)
    forRange 0 p.kernel fun kh =>
      forRange 0 p.kernel fun kw => do
        let row := (ic * p.kernel + kh) * p.kernel + kw
        forRange 0 p.outRows fun oh =>
          BufferM.onSlice (row * p.outPixels + oh * p.outCols) p.outCols
            (p.copyTapRow input channel oh kh kw)

end Problem

/-! ## Patch buffers -/

namespace PatchOrder

def dims (order : PatchOrder) (p : Problem) : List Nat :=
  match order with
  | pixelChw => [p.batch, p.outRows, p.outCols, p.inChannels, p.kernel, p.kernel]
  | pixelHwc => [p.batch, p.outRows, p.outCols, p.kernel, p.kernel, p.inChannels]
  | channelMajor => [p.batch, p.inChannels, p.kernel, p.kernel, p.outRows, p.outCols]

/-- The extents of the prepared input that the patches are copied from. -/
def inputDims (order : PatchOrder) (p : Problem) : List Nat :=
  match order with
  | pixelHwc => [p.batch, p.inputRows, p.inputCols, p.inChannels]
  | pixelChw | channelMajor => [p.batch, p.inChannels, p.inputRows, p.inputCols]

/-- The copies of one batch element. -/
@[specialize]
def task {α : Type} [Zero α] (order : PatchOrder) (p : Problem) (input : Array α) : ChunkTask α :=
  fun b _ =>
    match order with
    | pixelChw =>
        let start := b * p.inChannels * (p.inputRows * p.inputCols)
        p.forPatches fun oh ow => p.copyPatchChw input start oh ow
    | pixelHwc =>
        let start := b * p.inputRows * p.inputCols * p.inChannels
        p.forPatches fun oh ow => p.copyPatchHwc input start oh ow
    | channelMajor =>
        p.copyChannels input (b * p.inChannels * (p.inputRows * p.inputCols))

end PatchOrder

/-- The patches of one problem in one axis order. -/
structure PatchBuffer (α : Type) where
  order : PatchOrder
  problem : Problem
  patches : Tensor α
deriving DecidableEq

namespace PatchBuffer

variable {α : Type} [Zero α]

/-- A scratch tensor of zeros. -/
def create (order : PatchOrder) (p : Problem) : Outcome (PatchBuffer α) := do
  Fault.overflow.check p.OutputFits
  let patches ← Tensor.zeros (order.dims p)
  return { order, problem := p, patches }

/-- Overwrites the scratch tensor with the patches of an input of the expected extents. -/
def expand (schedule : Schedule) (buffer : PatchBuffer α) (input : Tensor α) :
    Outcome (PatchBuffer α) := do
  let p := buffer.problem
  let expected := buffer.order.inputDims p
  if input.shape.validate (expected.map .exactly) then
    let act {n : Nat} : BufferM α n Unit :=
      BufferM.onChunks schedule (p.outPixels * p.patchSize) (buffer.order.task p input.data)
    let patches ← buffer.patches.update act
    return { buffer with patches }
  else
    throw (.error (.shapeMismatch (.patchInput buffer.order expected input.dims)))

end PatchBuffer
end ConvSweep
