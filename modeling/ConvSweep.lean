import ConvSweep.Fault
import ConvSweep.Size
import ConvSweep.Loop
import ConvSweep.Buffer
import ConvSweep.Binary32
import ConvSweep.Rounding
import ConvSweep.Decimal.Binary
import ConvSweep.Decimal.Shortest
import ConvSweep.Decimal.Fixed
import ConvSweep.Text.Hidden
import ConvSweep.Text.Word
import ConvSweep.Text.Quoted
import ConvSweep.Decimal.Parse
import ConvSweep.Variant
import ConvSweep.Filter
import ConvSweep.Error
import ConvSweep.Tensor.Shape
import ConvSweep.Tensor.Basic
import ConvSweep.Tensor.Layout
import ConvSweep.Conv.Problem
import ConvSweep.Matrix.Row
import ConvSweep.Matrix.Dense
import ConvSweep.Matrix.Csr
import ConvSweep.Matrix.Sparse
import ConvSweep.Matrix.Prune
import ConvSweep.Conv.Direct
import ConvSweep.Conv.Patches
import ConvSweep.Conv.Executor
import ConvSweep.Sweep.Clock
import ConvSweep.Sweep.Session
import ConvSweep.Sweep.Record
import ConvSweep.Sweep.Divergence
import ConvSweep.Sweep.Case
import ConvSweep.Random.ChaCha
import ConvSweep.Random.Synthesis
import ConvSweep.Descriptor
import ConvSweep.Gzip.Crc32
import ConvSweep.Gzip.Huffman
import ConvSweep.Gzip.Inflate
import ConvSweep.Gzip.Member
import ConvSweep.ByteSource
import ConvSweep.Weights
import ConvSweep.CommandLine.Options
import ConvSweep.CommandLine.Run
import ConvSweep.Main
import ConvSweep.Proofs.Cellwise
import ConvSweep.Proofs.Tensor.Cells
import ConvSweep.Proofs.Outcome
import ConvSweep.Proofs.Recorded
import ConvSweep.Proofs.Tensor.Layout
import ConvSweep.Proofs.Conv.Taps
import ConvSweep.Proofs.Conv.Direct
import ConvSweep.Proofs.Conv.Patches
import ConvSweep.Proofs.Matrix.Csr
import ConvSweep.Proofs.Matrix.Sparse
import ConvSweep.Proofs.Binary32
import ConvSweep.Proofs.Order
import ConvSweep.Proofs.Conv.Multiply
import ConvSweep.Proofs.Executor.Construction
import ConvSweep.Proofs.Executor.Run
import ConvSweep.Proofs.Executor.Settled
import ConvSweep.Proofs.Executor.Convolution
import ConvSweep.Proofs.Executor.Agreement
import ConvSweep.Proofs.Executor.Reuse
import ConvSweep.Proofs.Executor.Acceptance
import ConvSweep.Proofs.Executor.Elements
import ConvSweep.Proofs.Executor.Padding
import ConvSweep.Proofs.Executor.Planes
import ConvSweep.Proofs.Word.Offset
import ConvSweep.Proofs.Word.Problem
import ConvSweep.Proofs.Word.Direct
import ConvSweep.Proofs.Conv.Visits
import ConvSweep.Proofs.Word.Patches
import ConvSweep.Proofs.Word.Multiply
import ConvSweep.Proofs.Word.Executor
import ConvSweep.Proofs.Matrix.Product
import ConvSweep.Proofs.Matrix.Stability
import ConvSweep.Proofs.Matrix.Expanded
import ConvSweep.Proofs.Matrix.Parts
import ConvSweep.Proofs.Matrix.Pruning
import ConvSweep.Proofs.Word.Calls
import ConvSweep.Proofs.Conv.Expansion
import ConvSweep.Proofs.Sweep.Clocks
import ConvSweep.Proofs.Sweep.Sources
import ConvSweep.Proofs.Sweep.Isolation
import ConvSweep.Proofs.Sweep.Blobs
import ConvSweep.Proofs.Text.Words
import ConvSweep.Proofs.Descriptor
import ConvSweep.Proofs.Sweep.Sequence
import ConvSweep.Proofs.Tensor.Conversions
import ConvSweep.Proofs.Tensor.History
import ConvSweep.Proofs.Tensor.Offsets
import ConvSweep.Proofs.Word.Construction
import ConvSweep.Proofs.Executor.Conditions
import ConvSweep.Proofs.Sweep.Requests
import ConvSweep.Proofs.Sweep.Promises
import ConvSweep.Proofs.Matrix.Contract
import ConvSweep.Proofs.Rounding
import ConvSweep.Proofs.Binary64
import ConvSweep.Proofs.Matrix.Percentile
import ConvSweep.Proofs.Matrix.Thinning
import ConvSweep.Proofs.Matrix.Repruning
import ConvSweep.Proofs.Matrix.Tenths
import ConvSweep.Proofs.Tensor.Extents
import ConvSweep.Proofs.Sweep.Announced
import ConvSweep.Proofs.Chunks
import ConvSweep.Proofs.Executor.Chunks
import ConvSweep.Proofs.Signed
import ConvSweep.Proofs.Widening
import ConvSweep.Proofs.Sweep.Divergence
import ConvSweep.Proofs.Sweep.Comparisons
