import ConvSweep.Sweep.Divergence
import ConvSweep.Sweep.Record

/-!
# One case of a sweep

A case runs every variant on one weight.  Direct NCHW is the reference: the other
dense variants are compared with it.  The sparse variant goes through the
configured percentages and is not compared, since pruning changes the result on
purpose.  Every timed run writes its record and every comparison its line.
-/

namespace ConvSweep

structure SweepConfig where
  batch : Nat
  /-- Without a fixed spatial size it is this number divided by the output channels. -/
  spatialBudget : Nat
  spatial : Option Nat
  /-- Timed runs per variant; one at least. -/
  repeats : Nat
  percentiles : List Binary32
  padding : Padding
  tile : Tile
deriving DecidableEq

namespace SweepConfig

def standard : SweepConfig where
  batch := 10
  spatialBudget := 16384
  spatial := none
  repeats := 1
  percentiles := [35, 50, 65, 80, 95].map Binary32.ofUInt32
  padding := .prepad
  tile := .standard

/-- The square spatial extent of a case; the kernel's rows fit into it. -/
def spatialFor (config : SweepConfig) (shape : FilterShape) : Nat :=
  let wanted := config.spatial.getD (config.spatialBudget / max shape.outChannels 1)
  max (max wanted shape.kernelRows) 1

def inputDims (config : SweepConfig) (shape : FilterShape) : List Nat :=
  let s := config.spatialFor shape
  [config.batch, shape.inChannels, s, s]

/-- The length of a buffer out of which the input of every case can be cut. -/
def inputLength (config : SweepConfig) (shapes : List FilterShape) : Except Fault Nat := do
  let lengths ← shapes.mapM fun shape => Size.product (config.inputDims shape)
  return lengths.foldl max 0

end SweepConfig

structure CaseReport where
  records : Array ConvRecord
  diffs : Array DiffRecord

def CaseReport.empty : CaseReport := ⟨#[], #[]⟩

namespace Sweep

variable {m : Type → Type} [Monad m] [MonadExceptOf Failure m] [MonadSweep m]

/-- Runs an executor `count` times and writes the records. -/
def runTimed (e : Executor Binary32) (report : CaseReport) :
    Nat → m (Executor Binary32 × CaseReport)
  | 0 => return (e, report)
  | count + 1 => do
      let (e, record) ← e.compute
      MonadSweep.writeLine record.text
      runTimed e { report with records := report.records.push record } count

/-- The dense variants that are compared with the reference. -/
def comparedVariants : List (Layout × Algorithm) :=
  [(.nhwc, .direct), (.nchw, .dense), (.nhwc, .dense)]

/-- Runs one dense variant and compares it with the reference. -/
def runCompared (base : ExecutorConfig) (repeats : Nat) (input weight reference : Tensor Binary32)
    (report : CaseReport) (variant : Layout × Algorithm) : m CaseReport := do
  let (layout, algorithm) := variant
  let config := { base with layout, algorithm }
  let e ← MonadExcept.ofExcept
    (Executor.create config DenseMultiply.standardTile input weight)
  let (e, report) ← runTimed e report repeats
  let result ← MonadExcept.ofExcept e.result
  let squares ← MonadExcept.ofExcept ((reference.squareDiff result).mapError Failure.error)
  let maxRelative ← MonadExcept.ofExcept
    ((reference.maxRelativeError result).mapError Failure.error)
  let diff : DiffRecord := { layout, algorithm, squares, maxRelative }
  MonadSweep.writeLine diff.text
  return { report with diffs := report.diffs.push diff }

/-- Runs a sparse executor at each percentage in turn. -/
def runPercentiles (repeats : Nat) (e : Executor Binary32) (report : CaseReport) :
    List Binary32 → m CaseReport
  | [] => return report
  | percentile :: rest => do
      let e ← MonadExcept.ofExcept (e.setSparsity percentile)
      let (e, report) ← runTimed e report repeats
      runPercentiles repeats e report rest

/-- Runs every variant on one case, whose input is the beginning of `pool`. -/
def runCase (config : SweepConfig) (shape : FilterShape) (weight : Tensor Binary32)
    (pool : Array Binary32) : m CaseReport := do
  let input ← MonadExcept.ofExcept
    ((Tensor.ofPrefix (config.inputDims shape) pool).mapError Failure.error)
  let repeats := max config.repeats 1
  let base := { ExecutorConfig.standard with padding := config.padding, tile := config.tile }
  let e ← MonadExcept.ofExcept (Executor.create base DenseMultiply.standardTile input weight)
  let (e, report) ← runTimed e .empty repeats
  let reference ← MonadExcept.ofExcept e.result
  let report ← comparedVariants.foldlM (runCompared base repeats input weight reference) report
  match config.percentiles with
  | [] => return report
  | first :: _ =>
      let sparse := { ExecutorConfig.standard with
        algorithm := .sparse, padding := config.padding, percentile := first }
      let e ← MonadExcept.ofExcept
        (Executor.create sparse DenseMultiply.standardTile input weight)
      runPercentiles repeats e report config.percentiles

end Sweep
end ConvSweep
