import ConvSweep.Conv.Executor
import ConvSweep.Decimal.Fixed
import ConvSweep.Sweep.Session

/-!
# Records

A record describes one timed run of an executor and is written as one line of
comma-separated fields.  The two phases are timed as adjacent intervals.
-/

namespace ConvSweep

structure ConvRecord where
  layout : Layout
  algorithm : Algorithm
  implementation : String
  /-- Whether the run used pruned weights. -/
  sparse : Bool
  /-- The pruned part, from zero to one. -/
  sparsity : Binary32
  filters : Nat
  spatial : Nat
  /-- Time of the first phase. -/
  convert : Duration
  /-- Time of the second phase. -/
  compute : Duration
deriving DecidableEq

namespace ConvRecord

def sparseFormat (r : ConvRecord) : String :=
  if r.sparse then "csr" else "none"

/-- Times are in milliseconds with three places. -/
def text (r : ConvRecord) : String :=
  ",".intercalate
    ["conv", r.layout.text, r.algorithm.text, r.implementation, r.sparseFormat,
      r.sparsity.text, toString r.filters, toString r.spatial,
      Decimal.fixed 3 r.convert.millis, Decimal.fixed 3 r.compute.millis]

end ConvRecord

/-- The name of the kernels behind an algorithm. -/
def Algorithm.implementation : Algorithm → String
  | direct => "raw"
  | dense | sparse => "portable"

namespace Executor

variable {m : Type → Type} [Monad m] [MonadExceptOf Failure m] [MonadSweep m]

/-- A timed run; the executor is returned with its new output. -/
def compute (e : Executor Binary32) : m (Executor Binary32 × ConvRecord) := do
  let t₁ ← MonadSweep.now
  let e ← MonadExcept.ofExcept (e.expandPatches .serial)
  let t₂ ← MonadSweep.now
  let e ← MonadExcept.ofExcept (e.multiply .serial)
  let t₃ ← MonadSweep.now
  let record : ConvRecord :=
    { layout := e.config.layout
      algorithm := e.config.algorithm
      implementation := e.config.algorithm.implementation
      sparse := e.sparseWeights.isSome
      sparsity := e.sparsity
      filters := e.problem.outChannels
      spatial := e.problem.height
      convert := t₂.sub t₁
      compute := t₃.sub t₂ }
  return (e, record)

end Executor
end ConvSweep
