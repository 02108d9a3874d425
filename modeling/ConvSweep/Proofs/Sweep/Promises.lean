import Mathlib
import ConvSweep.Proofs.Descriptor
import ConvSweep.Proofs.Sweep.Blobs
import ConvSweep.Proofs.Sweep.Requests

/-!
# What a descriptor promises

A case of an accepted descriptor can be counted, so a reader finds its weight or runs
out of bytes.  If the weight has a square kernel with a middle tap, the whole sweep of
the case succeeds: the spatial extent is never smaller than the kernel, the pool is
long enough for the input, and the operands match.  What is left are the percentages,
memory, the clock and the lines, which are assumed to be in order.
-/

namespace ConvSweep
namespace Sweep

/-!
## Operands of a case
-/

/-- The convolution of a case with a square kernel. -/
def problemOf (config : SweepConfig) (shape : FilterShape) : Problem where
  batch := config.batch
  inChannels := shape.inChannels
  outChannels := shape.outChannels
  height := config.spatialFor shape
  width := config.spatialFor shape
  kernel := shape.kernelRows
  padding := config.padding

/--
The buffers of a case fit memory: the input with its border, the patches, and together the weight,
its copy in the other axis order, the reference and the result of a compared variant.
-/
structure FitsMemory (p : Problem) : Prop where
  padded_lt : p.batch * p.inChannels * p.inputRows * p.inputCols < Size.bufferLimit
  scratch_lt : p.batch * (p.outPixels * p.patchSize) < Size.bufferLimit
  held_lt : 4 * (2 * (p.outChannels * p.patchSize) +
    2 * (p.batch * p.outChannels * p.outPixels)) < Size.limit

/-- A configuration and a pool that are in order for all cases of a list. -/
structure Equipped (config : SweepConfig) (shapes : List FilterShape) (pool : Array Binary32) :
    Prop where
  batch_pos : 0 < config.batch
  inRange : ∀ x ∈ config.percentiles, Percentile.InRange x
  rows_lt : config.tile.rows < Size.limit
  cols_lt : config.tile.cols < Size.limit
  pool_long : ∃ length, config.inputLength shapes = .ok length ∧ length ≤ pool.size

section

variable {config : SweepConfig} {shapes : List FilterShape} {shape : FilterShape}
  {input weight : Tensor Binary32} {pool : Array Binary32}

theorem kernelRows_le_spatialFor (config : SweepConfig) (shape : FilterShape) :
    shape.kernelRows ≤ config.spatialFor shape :=
  Nat.le_trans (Nat.le_max_right _ _) (Nat.le_max_left _ _)

/-- The spatial extent leaves room for the kernel, whatever the padding is. -/
theorem admissible_problemOf (hbatch : 0 < config.batch) (hpos : 0 ∉ shape.dims)
    (hodd : shape.kernelRows % 2 = 1) : (problemOf config shape).Admissible := by
  have hspatial : 0 < config.spatialFor shape := Nat.le_max_right _ _
  have hroom := kernelRows_le_spatialFor config shape
  simp only [FilterShape.dims, List.mem_cons, not_or] at hpos
  exact ⟨hbatch, Nat.pos_of_ne_zero (Ne.symm hpos.2.1), Nat.pos_of_ne_zero (Ne.symm hpos.1),
    hspatial, hspatial, hodd, fun _ => ⟨hroom, hroom⟩⟩

theorem Equipped.exists_input (h : Equipped config shapes pool) (hshape : shape ∈ shapes)
    (hpos : 0 ∉ shape.dims) :
    ∃ input, Tensor.ofPrefix (config.inputDims shape) pool = .ok input := by
  rcases h.pool_long with ⟨length, hlength, hpool⟩
  rcases SweepConfig.product_of_mem hlength hshape with ⟨hproduct, hle⟩
  have hspatial : 0 < config.spatialFor shape := Nat.le_max_right _ _
  have hdims : 0 ∉ config.inputDims shape := by
    simp only [FilterShape.dims, List.mem_cons, not_or] at hpos
    simp only [SweepConfig.inputDims, List.mem_cons, List.not_mem_nil, or_false, not_or]
    exact ⟨h.batch_pos.ne, hpos.2.1, hspatial.ne, hspatial.ne⟩
  exact Tensor.exists_ofPrefix (List.cons_ne_nil _ _) hdims (Size.prod_lt_of_product hproduct)
    (Nat.le_trans hle hpool)

theorem accepts_problemOf {cfg : ExecutorConfig} (hp : (problemOf config shape).Admissible)
    (hpadding : cfg.padding = config.padding) (hinput : input.dims = config.inputDims shape)
    (hweight : weight.dims = shape.dims) (hsquare : shape.kernelRows = shape.kernelCols) :
    Executor.Accepts cfg input weight (problemOf config shape) := by
  refine ⟨hp, hpadding.symm, hinput, ?_⟩
  rw [hweight, FilterShape.dims, ← hsquare]
  rfl

/-- What fits memory together allows every dense variant. -/
theorem FitsMemory.denseBuilt (h : FitsMemory (problemOf config shape))
    (hp : (problemOf config shape).Admissible) (hinput : input.dims = config.inputDims shape)
    (hweight : weight.dims = shape.dims) (hsquare : shape.kernelRows = shape.kernelCols) :
    DenseBuilt config input weight := by
  have hheld := h.held_lt
  have hlimit : Size.limit = 8 * Size.bufferLimit := by decide
  have haccepts (variant : Layout × Algorithm) :
      Executor.Accepts (dense config variant) input weight (problemOf config shape) :=
    accepts_problemOf hp rfl hinput hweight hsquare
  constructor
  · intro variant hvariant
    have hdense : variant.2 ≠ .sparse := by
      revert variant
      decide
    have hfits : (problemOf config shape).FitsMemory (dense config variant) :=
      ⟨.inr h.padded_lt, fun _ => by omega, by omega, fun _ => h.scratch_lt,
        fun hsparse => absurd hsparse hdense⟩
    exact (haccepts variant).exists_create (fun hboth => hdense hboth.1) hfits
      (fun hsparse => absurd hsparse hdense) _
  · intro e hcreate
    have hbuilt := (Executor.create_builtFrom hcreate).1
    rcases hbuilt.sizes with ⟨hsize, hturned, houtput⟩
    rw [hbuilt.accepts.problem_eq (haccepts (.nhwc, .direct)) rfl rfl] at hsize hturned houtput
    omega

theorem FitsMemory.sized (h : FitsMemory (problemOf config shape))
    (hinput : input.dims = config.inputDims shape) (hweight : weight.dims = shape.dims)
    (hsquare : shape.kernelRows = shape.kernelCols) (hequipped : Equipped config shapes pool) :
    Sized config input weight := by
  have hheld := h.held_lt
  have hlimit : Size.limit = 8 * Size.bufferLimit := by decide
  have hextent : config.spatialFor shape ≤ (problemOf config shape).inputRows :=
    Nat.le_add_right _ _
  refine ⟨?_, ?_, hequipped.rows_lt, hequipped.cols_lt⟩
  · rw [Tensor.size_quad hinput]
    exact Nat.lt_of_le_of_lt
      (Nat.mul_le_mul (Nat.mul_le_mul (Nat.le_refl _) hextent) hextent) h.padded_lt
  · have hsize : weight.data.size =
        (problemOf config shape).outChannels * (problemOf config shape).patchSize := by
      rw [Tensor.size_quad hweight, ← hsquare]
      show _ = shape.outChannels * (shape.inChannels * shape.kernelRows * shape.kernelRows)
      ring
    omega

/-- A weight of the extents of the case, with a square kernel that has a middle tap, is swept. -/
theorem Equipped.together_runCase (h : Equipped config shapes pool) (hshape : shape ∈ shapes)
    (hpos : 0 ∉ shape.dims) (hweight : weight.dims = shape.dims)
    (hsquare : shape.kernelRows = shape.kernelCols) (hodd : shape.kernelRows % 2 = 1)
    (hfits : FitsMemory (problemOf config shape)) {σ : Type} [MonadSweep (EStateM Failure σ)] :
    Together (runCase config shape weight pool : EStateM Failure σ CaseReport)
      (Word.runCase config shape weight pool) (requests config) fun _ => True := by
  rcases h.exists_input hshape hpos with ⟨input, hinput⟩
  have hp := admissible_problemOf h.batch_pos hpos hodd
  have hdims := (Tensor.data_ofPrefix hinput).1
  exact Sweep.together_runCase hinput (hfits.denseBuilt hp hdims hweight hsquare)
    (hfits.sized hdims hweight hsquare h) h.inRange

end

end Sweep

/-!
## Accepted descriptors
-/

namespace WeightReader

variable {r r' : WeightReader} {shape : FilterShape} {weight : Tensor Binary32}

theorem dims_of_readCase (h : r.readCase shape = .ok weight r') : weight.dims = shape.dims := by
  rw [readCase] at h
  split at h
  · split at h
    · cases h
    · split at h
      · cases h
      · dsimp only at h
        split at h
        · rename_i htensor
          cases h
          exact (Tensor.data_ofArray htensor).1
        · cases h
  · cases h

/-- Bytes in memory that are enough give a weight, wherever the reader stands. -/
theorem exists_readCase (h : Descriptor.Countable shape)
    (henough : 4 * shape.dims.prod ≤ r.remaining) :
    ∃ weight r', r.readCase shape = .ok weight r' := by
  rcases Option.isSome_iff_exists.mp h.2 with ⟨length, hlength⟩
  rcases h.exists_ofArray (size_weightData shape (r.source.data.extract r.source.position
    (r.source.position + 4 * shape.dims.prod))) with ⟨weight, hweight⟩
  refine ⟨weight, r.past shape, ?_⟩
  rw [readCase_past hlength henough, hweight]

end WeightReader

namespace Descriptor

/-- What an accepted descriptor promises of one of its cases. -/
structure Promises (shapes : List FilterShape) (shape : FilterShape) : Prop where
  counted : ∃ n, shape.size = .ok n ∧ shape.size? = some n
  /-- From bytes in memory the weight is read, unless they are too few. -/
  read : ∀ r : WeightReader, r.source.failure = none →
    (4 * shape.dims.prod ≤ r.remaining ∧ ∃ weight r', r.readCase shape = .ok weight r') ∨
      (r.remaining < 4 * shape.dims.prod ∧ ∃ r', r.readCase shape =
        .error (.truncated shape.dims.prod (r.remaining / 4)) r')
  /-- A weight that was read and has a square kernel with a middle tap is swept to the end, also
  with all size operations checked. -/
  swept : ∀ (r r' : WeightReader) (weight : Tensor Binary32),
    r.readCase shape = .ok weight r' → ∀ filters channels kernel : Nat,
    weight.dims = [filters, channels, kernel, kernel] → kernel % 2 = 1 →
    ∀ (config : SweepConfig) (pool : Array Binary32), Sweep.Equipped config shapes pool →
    Sweep.FitsMemory (Sweep.problemOf config shape) →
    ∀ (σ : Type) [MonadSweep (EStateM Failure σ)] (s : σ), Serves (Sweep.requests config) s →
    ∃ report s',
      (Sweep.runCase config shape weight pool : EStateM Failure σ CaseReport) s =
        .ok report s' ∧
      (Word.runCase config shape weight pool : EStateM Failure σ CaseReport) s = .ok report s'

/-- Every case of an accepted descriptor keeps the promises. -/
theorem promises_of_decode {bytes : ByteArray} {shapes : List FilterShape}
    (hdecode : decode bytes = .ok shapes) {shape : FilterShape} (hshape : shape ∈ shapes) :
    Promises shapes shape := by
  have hcase := of_decode hdecode shape hshape
  rcases Option.isSome_iff_exists.mp hcase.2 with ⟨length, hlength⟩
  rcases WeightReader.of_byteSize hlength with ⟨hsize, rfl, _⟩
  constructor
  · refine ⟨_, ?_, hsize⟩
    have hproduct : Size.product? shape.dims = some shape.dims.prod := hsize
    rw [FilterShape.size, Size.product, hproduct]
    rfl
  · intro r hfailure
    rcases Nat.lt_or_ge r.remaining (4 * shape.dims.prod) with hshort | henough
    · exact .inr ⟨hshort, _, WeightReader.readCase_truncated hfailure
        (FilterShape.not_overflows_iff.mpr hlength) hshort⟩
    · exact .inl ⟨henough, WeightReader.exists_readCase hcase henough⟩
  · intro r r' weight hread filters channels kernel hsquare hodd config pool hequipped hfits σ _ s
      hs
    have hweight := WeightReader.dims_of_readCase hread
    have hdims := hsquare.symm.trans hweight
    simp only [FilterShape.dims, List.cons.injEq, and_true] at hdims
    rcases hdims with ⟨_, _, hrows, hcols⟩
    rcases hequipped.together_runCase hshape hcase.1 hweight (hrows.symm.trans hcols)
      (hrows ▸ hodd) hfits s 0 hs with ⟨report, s', hrun, hchecked, _⟩
    exact ⟨report, s', hrun, hchecked⟩

/-- Without a border and with a budget for no pixels, the kernel alone decides the extent. -/
def snug : SweepConfig :=
  { Sweep.hasty with padding := .valid, spatial := none, spatialBudget := 0 }

/-- The bytes of nine zeros. -/
def nineZeros : ByteArray := ⟨Array.replicate 36 0⟩

theorem promises_of_decode_snug :
    ∃ weight r' report s',
      (WeightReader.ofBytes nineZeros).readCase ⟨1, 1, 3, 3⟩ = .ok weight r' ∧
      (Sweep.runCase snug ⟨1, 1, 3, 3⟩ weight (Array.replicate 9 1) : SessionM CaseReport)
        (.start ⟨1000⟩ []) = .ok report s' := by
  have hdecode : decode "1 1 1 3 3".toUTF8 = .ok [⟨1, 1, 3, 3⟩] := by
    rw [decode_toUTF8]
    rfl
  have hpromises := promises_of_decode hdecode List.mem_cons_self
  have hequipped : Sweep.Equipped snug [⟨1, 1, 3, 3⟩] (Array.replicate 9 1) :=
    ⟨by decide, by decide, by decide, by decide, 9, rfl, by simp⟩
  have hfits : Sweep.FitsMemory (Sweep.problemOf snug ⟨1, 1, 3, 3⟩) := by
    constructor <;> decide
  have hallows : (Session.start ⟨1000⟩ []).Allows (Sweep.requests snug) := by
    unfold Session.Allows
    decide
  rcases hpromises.read (.ofBytes nineZeros) rfl with ⟨_, weight, r', hread⟩ | ⟨hshort, _⟩
  · have hdims : weight.dims = [1, 1, 3, 3] := WeightReader.dims_of_readCase hread
    rcases hpromises.swept _ _ weight hread 1 1 3 hdims rfl snug _ hequipped hfits _ _
      hallows.serves with ⟨report, s', hrun, _⟩
    exact ⟨weight, r', report, s', hread, hrun⟩
  · exact absurd hshort (by decide)

end Descriptor
end ConvSweep
