import ConvSweep.Conv.Direct
import ConvSweep.Conv.Patches
import ConvSweep.Matrix.Dense
import ConvSweep.Matrix.Prune
import ConvSweep.Matrix.Sparse
import ConvSweep.Tensor.Layout

/-!
# Executors

An executor binds one variant of a convolution to one input and one weight.  Its
construction checks the pair and prepares the data: border, axis order, scratch
buffer and, for the sparse variant, the pruned weights.  A run has two phases,
`expandPatches` and `multiply`, which overwrite the scratch buffer and the result.
-/

namespace ConvSweep

open Loop

structure ExecutorConfig where
  layout : Layout
  algorithm : Algorithm
  padding : Padding
  /-- Tile of the direct loops. -/
  tile : Tile
  /-- The percentage at which the sparse variant starts. -/
  percentile : Binary32
deriving DecidableEq

def ExecutorConfig.standard : ExecutorConfig where
  layout := .nchw
  algorithm := .direct
  padding := .prepad
  tile := .standard
  percentile := 0

/-- What an algorithm keeps between runs. -/
inductive Plan (α : Type)
  | direct
  | dense (patches : PatchBuffer α)
  | sparse (patches : PatchBuffer α) (level : Percentile) (weights : CsrMatrix α)
deriving DecidableEq

structure Executor (α : Type) where
  config : ExecutorConfig
  problem : Problem
  /-- Edge of the tiles of the dense multiply. -/
  denseTile : Nat
  /-- The input with its border, in the executor's axis order. -/
  input : Tensor α
  /-- The weight in the executor's axis order. -/
  weight : Tensor α
  /-- The output in the executor's axis order. -/
  output : Tensor α
  plan : Plan α
deriving DecidableEq

namespace Executor

variable {α : Type}

/-! ## Construction -/

/-- The problem of a pair of tensors, if the variant is provided for it. -/
def checkPair (config : ExecutorConfig) (input weight : Tensor α) : Except Error Problem := do
  if config.algorithm = .sparse ∧ config.layout = .nhwc then
    throw (.unsupported .sparseNhwc)
  if input.shape.rank ≠ 4 then
    throw (.rankMismatch 4 input.shape.rank)
  if weight.shape.rank ≠ 4 then
    throw (.rankMismatch 4 weight.shape.rank)
  Problem.ofShapes input.shape weight.shape config.padding

def outputDims (layout : Layout) (p : Problem) : List Nat :=
  match layout with
  | .nchw => [p.batch, p.outChannels, p.outRows, p.outCols]
  | .nhwc => [p.batch, p.outRows, p.outCols, p.outChannels]

/-- Input and weight as the kernels read them. -/
def prepare [Zero α] (layout : Layout) (p : Problem) (input weight : Tensor α) :
    Outcome (Tensor α × Tensor α) :=
  match layout with
  | .nchw => do
      let input ← input.padNchw p.border
      return (input, weight)
  | .nhwc => do
      let input ← input.toNhwcPadded p.border
      let weight ← weight.toNhwc
      return (input, weight)

/-- The pruned form of a prepared weight at a percentage that is checked first. -/
def pruneWeight [PruningOrder α] (p : Problem) (weight : Tensor α) (percentile : Binary32) :
    Outcome (Percentile × CsrMatrix α) := do
  let level ← Percentile.ofNumber percentile
  let weights ← level.prune weight.data p.outChannels p.patchSize
  return (level, weights)

def createPlan [Zero α] [PruningOrder α] (config : ExecutorConfig) (p : Problem)
    (weight : Tensor α) : Outcome (Plan α) :=
  match config.algorithm, config.layout with
  | .direct, _ => return .direct
  | .dense, .nchw => do
      return .dense (← PatchBuffer.create .pixelChw p)
  | .dense, .nhwc => do
      return .dense (← PatchBuffer.create .pixelHwc p)
  | .sparse, _ => do
      let patches ← PatchBuffer.create .channelMajor p
      let (level, weights) ← pruneWeight p weight config.percentile
      return .sparse patches level weights

/-- An executor for an NCHW input and an `(F, C, K, K)` weight. -/
def create [Zero α] [PruningOrder α] (config : ExecutorConfig) (denseTile : Nat)
    (input weight : Tensor α) : Outcome (Executor α) := do
  let p ← checkPair config input weight
  let (input, weight) ← prepare config.layout p input weight
  let output ← Tensor.zeros (outputDims config.layout p)
  let plan ← createPlan config p weight
  return { config, problem := p, denseTile, input, weight, output, plan }

/-! ## Pruned weights -/

def sparseWeights (e : Executor α) : Option (CsrMatrix α) :=
  match e.plan with
  | .sparse _ _ weights => some weights
  | _ => none

/-- The pruned part as it appears in records; zero without pruned weights. -/
def sparsity (e : Executor α) : Binary32 :=
  match e.plan with
  | .sparse _ level _ => level.fraction
  | _ => 0

def setSparsity [PruningOrder α] (e : Executor α) (percentile : Binary32) :
    Outcome (Executor α) :=
  match e.plan with
  | .sparse patches _ _ => do
      let (level, weights) ← pruneWeight e.problem e.weight percentile
      return { e with plan := .sparse patches level weights }
  | _ => throw (.error (.unsupported (.noSparseWeights e.config.algorithm)))

/-! ## Runs -/

/-- First phase: fills the scratch buffer; nothing to do for the direct loops. -/
def expandPatches [Zero α] (schedule : Schedule) (e : Executor α) : Outcome (Executor α) :=
  match e.plan with
  | .direct => return e
  | .dense patches => do
      return { e with plan := .dense (← patches.expand schedule e.input) }
  | .sparse patches level weights => do
      return { e with plan := .sparse (← patches.expand schedule e.input) level weights }

section

variable [Zero α] [One α] [Add α] [Mul α] [BEq α]

/-- The weight matrix times the transposed patches of each batch element. -/
def multiplyNchw (schedule : Schedule) (p : Problem) (tile : Nat) (weight patches : Array α)
    {n : Nat} : BufferM α n Unit :=
  let length := p.outPixels * p.patchSize
  forRange 0 p.batch fun b => do
    let rows ← slice patches (b * p.outPixels * p.patchSize) length
    BufferM.onSlice (b * p.outChannels * p.outPixels) (p.outChannels * p.outPixels) <|
      DenseMultiply.run schedule tile
        { m := p.outChannels, n := p.outPixels, k := p.patchSize, alpha := 1, beta := 0
          a := ⟨weight, p.patchSize, false⟩, b := ⟨rows, p.patchSize, true⟩
          ldc := p.outPixels }

/-- The patches of all batch elements times the transposed weight matrix. -/
def multiplyNhwc (schedule : Schedule) (p : Problem) (tile : Nat) (weight patches : Array α)
    {n : Nat} : BufferM α n Unit :=
  DenseMultiply.run schedule tile
    { m := p.batch * p.outPixels, n := p.outChannels, k := p.patchSize, alpha := 1, beta := 0
      a := ⟨patches, p.patchSize, false⟩, b := ⟨weight, p.patchSize, true⟩
      ldc := p.outChannels }

/-- The sparse weight matrix times the patches of each batch element. -/
def multiplySparse (schedule : Schedule) (p : Problem) (weights : CsrMatrix α)
    (patches : Array α) {n : Nat} : BufferM α n Unit :=
  let length := p.patchSize * p.outPixels
  forRange 0 p.batch fun b => do
    let rows ← slice patches (b * p.patchSize * p.outPixels) length
    BufferM.onSlice (b * p.outChannels * p.outPixels) (p.outChannels * p.outPixels) <|
      SparseMultiply.run schedule
        { alpha := 1, a := weights, b := rows, ldb := p.outPixels, n := p.outPixels, beta := 0
          ldc := p.outPixels }

def outputAction (schedule : Schedule) (e : Executor α) {n : Nat} : BufferM α n Unit :=
  match e.plan, e.config.layout with
  | .direct, .nchw =>
      e.problem.directNchw schedule e.config.tile e.input.data e.weight.data
  | .direct, .nhwc => e.problem.directNhwc schedule e.input.data e.weight.data
  | .dense buffer, .nchw =>
      multiplyNchw schedule e.problem e.denseTile e.weight.data buffer.patches.data
  | .dense buffer, .nhwc =>
      multiplyNhwc schedule e.problem e.denseTile e.weight.data buffer.patches.data
  | .sparse buffer _ weights, _ =>
      multiplySparse schedule e.problem weights buffer.patches.data

/-- Second phase: computes the output from the input or the scratch buffer. -/
def multiply (schedule : Schedule) (e : Executor α) : Outcome (Executor α) := do
  return { e with output := (← e.output.update (e.outputAction schedule)) }

def run (schedule : Schedule) (e : Executor α) : Outcome (Executor α) := do
  let e ← e.expandPatches schedule
  e.multiply schedule

end

/-- The output in NCHW order. -/
def result [Zero α] (e : Executor α) : Outcome (Tensor α) :=
  match e.config.layout with
  | .nchw => return e.output
  | .nhwc => e.output.toNchw

end Executor

/-- One convolution, from an NCHW input to an NCHW result. -/
def conv2d {α : Type} [Zero α] [One α] [Add α] [Mul α] [BEq α] [PruningOrder α]
    (config : ExecutorConfig) (input weight : Tensor α) : Outcome (Tensor α) := do
  let e ← Executor.create config DenseMultiply.standardTile input weight
  let e ← e.run .serial
  e.result

end ConvSweep
