import Mathlib
import ConvSweep.Proofs.Executor.Acceptance
import ConvSweep.Proofs.Word.Direct
import ConvSweep.Proofs.Word.Multiply
import ConvSweep.Proofs.Word.Patches

/-!
# Executors in machine words

The operations of an executor with every size operation checked, down to the
kernels.  An executor that was built from operands that fit memory has a bounded
problem, since its own buffers were allocated; so the checked operations are the
operations of the library.
-/

namespace ConvSweep

open Loop

variable {α : Type}

/-!
## Checked operations
-/

namespace Word

section

variable [Zero α]

def expandPatches (schedule : Schedule) (e : Executor α) : Outcome (Executor α) :=
  match e.plan with
  | .direct => return e
  | .dense patches => do
      return { e with plan := .dense (← expand schedule patches e.input) }
  | .sparse patches level weights => do
      return { e with plan := .sparse (← expand schedule patches e.input) level weights }

/-- `(N, H, W, C)` to `(N, C, H, W)`. -/
def toNchw (t : Tensor α) : Outcome (Tensor α) := do
  let (n, h, w, c) ← t.shape.quad
  Tensor.build [n, c, h, w] fun _ =>
    forRange 0 n fun b =>
      forRange 0 h fun y =>
        forRange 0 w fun x => do
          let pixel ← (((b * h + y) * w + x) * c : Offset).eval
          forRange 0 c fun ch => do
            let value ← fetchAt t.data (pixel + ch)
            writeAt (((b * c + ch) * h + y) * w + x) value

def result (e : Executor α) : Outcome (Tensor α) :=
  match e.config.layout with
  | .nchw => return e.output
  | .nhwc => toNchw e.output

variable [One α] [Add α] [Mul α] [BEq α]

def multiplyNchw (schedule : Schedule) (p : Problem) (tile : Nat) (weight patches : Array α)
    {n : Nat} : BufferM α n Unit :=
  forRange 0 p.batch fun b => do
    let rows ← span patches (b * p.outPixels * p.patchSize) ((b + 1) * p.outPixels * p.patchSize)
    onSpan (b * p.outChannels * p.outPixels) ((b + 1) * p.outChannels * p.outPixels) fun _ =>
      runDense schedule tile (.ofRows p.outChannels p.outPixels p.patchSize weight rows)

def multiplyNhwc (schedule : Schedule) (p : Problem) (tile : Nat) (weight patches : Array α)
    {n : Nat} : BufferM α n Unit := do
  let pixels ← (p.batch * p.outPixels : Offset).eval
  runDense schedule tile (.ofRows pixels p.outChannels p.patchSize patches weight)

def multiplySparse (schedule : Schedule) (p : Problem) (weights : CsrMatrix α)
    (patches : Array α) {n : Nat} : BufferM α n Unit :=
  forRange 0 p.batch fun b => do
    let rows ← span patches (b * p.patchSize * p.outPixels) ((b + 1) * p.patchSize * p.outPixels)
    onSpan (b * p.outChannels * p.outPixels) ((b + 1) * p.outChannels * p.outPixels) fun _ =>
      runSparse schedule (.ofRows p.outPixels weights rows)

def outputAction (schedule : Schedule) (e : Executor α) {n : Nat} : BufferM α n Unit :=
  match e.plan, e.config.layout with
  | .direct, .nchw => directNchw e.problem schedule e.config.tile e.input.data e.weight.data
  | .direct, .nhwc => directNhwc e.problem schedule e.input.data e.weight.data
  | .dense buffer, .nchw =>
      multiplyNchw schedule e.problem e.denseTile e.weight.data buffer.patches.data
  | .dense buffer, .nhwc =>
      multiplyNhwc schedule e.problem e.denseTile e.weight.data buffer.patches.data
  | .sparse buffer _ weights, _ =>
      multiplySparse schedule e.problem weights buffer.patches.data

def multiply (schedule : Schedule) (e : Executor α) : Outcome (Executor α) := do
  let _ ← patchSize e.problem
  let _ ← outPixels e.problem
  return { e with output := (← e.output.update (outputAction schedule e)) }

end

def setSparsity [PruningOrder α] (e : Executor α) (percentile : Binary32) :
    Outcome (Executor α) :=
  match e.plan with
  | .sparse patches _ _ => do
      let level ← Percentile.ofNumber percentile
      let columns ← patchSize e.problem
      let weights ← prune level e.weight.data e.problem.outChannels columns
      return { e with plan := .sparse patches level weights }
  | _ => throw (.error (.unsupported (.noSparseWeights e.config.algorithm)))

end Word

/-!
## Built executors are bounded
-/

namespace Executor

/-- The operands fit memory, and the extents of the tile are words. -/
structure Sized (config : ExecutorConfig) (input weight : Tensor α) : Prop where
  input_lt : input.data.size < Size.bufferLimit
  weight_lt : weight.data.size < Size.bufferLimit
  rows_lt : config.tile.rows < Size.limit
  cols_lt : config.tile.cols < Size.limit

namespace BuiltFrom

variable [Zero α] [PruningOrder α] {config : ExecutorConfig} {denseTile : Nat}
  {input weight : Tensor α} {e : Executor α}

theorem bounded (h : BuiltFrom config denseTile input weight e)
    (hsize : Sized config input weight) : e.problem.Bounded where
  admissible := h.accepts.admissible
  input_lt := by
    rcases h.fitsMemory.input_lt with ⟨_, hborder⟩ | hlt
    · have htotal := Shape.total_quad h.accepts.input_dims
      have hlt := hsize.input_lt
      rw [input.size_eq, htotal] at hlt
      rw [Problem.inputRows, Problem.inputCols, hborder]
      exact hlt
    · exact hlt
  weight_lt := by
    have htotal := Shape.total_quad h.accepts.weight_dims
    have hlt := hsize.weight_lt
    rw [weight.size_eq, htotal] at hlt
    rw [Problem.patchSize, ← Nat.mul_assoc, ← Nat.mul_assoc]
    exact hlt
  output_lt := h.fitsMemory.output_lt

end BuiltFrom
end Executor

/-!
## The checks do not show
-/

namespace Word

section

variable {p : Problem} {n : Nat}

theorem outputs_lt (h : p.Bounded) : p.outChannels * p.outPixels < Size.limit := by
  have hlt := Nat.lt_trans h.output_lt Size.bufferLimit_lt_limit
  rw [Nat.mul_assoc] at hlt
  exact Nat.lt_of_le_of_lt (Nat.le_mul_of_pos_left _ h.admissible.batch_pos) hlt

theorem pixels_lt (h : p.Bounded) : p.batch * p.outPixels * p.outChannels < Size.limit := by
  rw [Nat.mul_right_comm]
  exact Nat.lt_trans h.output_lt Size.bufferLimit_lt_limit

theorem counts_pixels (h : p.Bounded) : Offset.Counts (p.batch * p.outPixels) := by
  constructor
  · exact Nat.mul_pos h.admissible.batch_pos h.admissible.expandable.outPixels_pos
  · exact Nat.lt_of_le_of_lt (Nat.le_mul_of_pos_right _ h.admissible.outChannels_pos) (pixels_lt h)

theorem onSpan_outputs (h : p.Bounded) {b : Nat} (hb : b < p.batch)
    (act : (length : Nat) → BufferM α length Unit) :
    (onSpan (b * p.outChannels * p.outPixels) ((b + 1) * p.outChannels * p.outPixels) act :
        BufferM α n Unit) =
      BufferM.onSlice (b * p.outChannels * p.outPixels) (p.outChannels * p.outPixels) (act _) := by
  apply onSpan_block hb h.counts_outChannels h.contained.counts_outPixels
  rw [← Nat.mul_assoc]
  exact Nat.lt_trans h.output_lt Size.bufferLimit_lt_limit

variable [Zero α] [One α] [Add α] [Mul α] [BEq α] {weight patches : Array α}
  (hpatches : p.batch * (p.outPixels * p.patchSize) < Size.bufferLimit)
include hpatches

theorem multiplyNchw_eq (h : p.Bounded) (schedule : Schedule) (tile : Nat) :
    (multiplyNchw schedule p tile weight patches : BufferM α n Unit) =
      Executor.multiplyNchw schedule p tile weight patches := by
  apply forRange_zero_congr
  intro b hb
  have hlt := Nat.lt_trans hpatches Size.bufferLimit_lt_limit
  have hweight := Nat.lt_trans h.weight_lt Size.bufferLimit_lt_limit
  rw [span_block hb h.contained.counts_outPixels h.contained.counts_patchSize hlt]
  congr 1
  funext rows
  rw [onSpan_outputs h hb, runDense_ofRows h.counts_outChannels.1
    h.contained.counts_outPixels.1 hweight (patches_lt hpatches h.contained) (outputs_lt h)]
  rfl

theorem multiplyNhwc_eq (h : p.Bounded) (schedule : Schedule) (tile : Nat) :
    (multiplyNhwc schedule p tile weight patches : BufferM α n Unit) =
      Executor.multiplyNhwc schedule p tile weight patches := by
  have hlt := Nat.lt_trans hpatches Size.bufferLimit_lt_limit
  have hweight := Nat.lt_trans h.weight_lt Size.bufferLimit_lt_limit
  have hpixels : (p.batch * p.outPixels : Offset).eval = .ok (p.batch * p.outPixels) :=
    Offset.eval_of_rises (by simp [h.contained.counts_outPixels]) (counts_pixels h).2
  rw [← Nat.mul_assoc] at hlt
  rw [multiplyNhwc, BufferM.lift_bind hpixels, runDense_ofRows (counts_pixels h).1
    h.counts_outChannels.1 hlt hweight (pixels_lt h)]
  rfl

theorem multiplySparse_eq (h : p.Bounded) {matrix : CsrMatrix α} {keep : Nat → Nat → Bool}
    {A : Nat → Nat → α} (hmatrix : matrix.Stores p.outChannels p.patchSize keep A)
    (schedule : Schedule) :
    (multiplySparse schedule p matrix patches : BufferM α n Unit) =
      Executor.multiplySparse schedule p matrix patches := by
  apply forRange_zero_congr
  intro b hb
  have hlt := Nat.lt_trans hpatches Size.bufferLimit_lt_limit
  rw [Nat.mul_comm p.outPixels] at hlt
  rw [span_block hb h.contained.counts_patchSize h.contained.counts_outPixels hlt]
  congr 1
  funext rows
  rw [onSpan_outputs h hb, runSparse_ofRows h.counts_outChannels h.contained.counts_outPixels
    h.contained.counts_patchSize hmatrix]
  rfl

end

/-!
## Axis orders
-/

theorem toNchw_eq [Zero α] {t : Tensor α} {n h w c : Nat} (hdims : t.dims = [n, h, w, c])
    (hh : Offset.Counts h) (hw : Offset.Counts w) (hc : Offset.Counts c)
    (hlt : n * h * w * c < Size.limit) : toNchw t = t.toNchw := by
  have hlt' : n * c * h * w < Size.limit := by
    convert hlt using 1
    ring
  unfold toNchw Tensor.toNchw
  rw [Shape.quad_eq hdims, error_ok_bind, error_ok_bind]
  dsimp only
  congr 1
  funext size
  apply forRange_zero_congr
  intro b hb
  apply forRange_zero_congr
  intro y hy
  apply forRange_zero_congr
  intro x hx
  have hend := mul_add_le c (add_mul_lt (add_mul_lt hb hy) hx)
  have hpixel : (((b * h + y) * w + x) * c : Offset).eval = .ok (((b * h + y) * w + x) * c) :=
    Offset.eval_of_rises (by simp [hh, hw, hc])
      (Nat.lt_of_le_of_lt (Nat.le_add_right _ c) (Nat.lt_of_le_of_lt hend hlt))
  rw [BufferM.lift_bind hpixel]
  apply forRange_zero_congr
  intro ch hch
  have hplace : ((b * h + y) * w + x) * c + ch < n * h * w * c := rowMajor_lt hb hy hx hch
  have hplace' : ((b * c + ch) * h + y) * w + x < n * c * h * w := rowMajor_lt hb hch hy hx
  rw [fetchAt_add (Nat.lt_trans hplace hlt)]
  congr 1
  funext value
  exact writeAt_eq (by simp [hc, hh, hw]) (Nat.lt_trans hplace' hlt')

/-!
## Operations
-/

section

variable [Zero α] [PruningOrder α] {config : ExecutorConfig} {denseTile : Nat}
  {input weight : Tensor α} {e : Executor α}

theorem expand_eq_of_fits (h : e.BuiltFrom config denseTile input weight)
    (hsize : Executor.Sized config input weight) {buffer : PatchBuffer α} {order : PatchOrder}
    (hbuffer : buffer.Fits order e.problem) (schedule : Schedule) :
    expand schedule buffer e.input = buffer.expand schedule e.input :=
  expand_eq hbuffer (h.bounded hsize).contained schedule e.input

theorem expandPatches_eq (h : e.BuiltFrom config denseTile input weight)
    (hsize : Executor.Sized config input weight) (schedule : Schedule) :
    expandPatches schedule e = e.expandPatches schedule := by
  have hfits := h.plan_fits
  unfold expandPatches Executor.expandPatches
  cases hplan : e.plan with
  | direct =>
      rfl
  | dense buffer =>
      rw [hplan] at hfits
      dsimp only
      rw [expand_eq_of_fits h hsize hfits.2]
  | sparse buffer level weights =>
      rw [hplan] at hfits
      dsimp only
      rw [expand_eq_of_fits h hsize hfits.2.2.1]

theorem outputAction_eq [One α] [Add α] [Mul α] [BEq α]
    (h : e.BuiltFrom config denseTile input weight) (hsize : Executor.Sized config input weight)
    (schedule : Schedule) :
    (outputAction schedule e : BufferM α e.output.shape.total Unit) = e.outputAction schedule := by
  have hbounded := h.bounded hsize
  have hfits := h.plan_fits
  have htotal := h.total_eq
  have hconfig := h.config_eq
  subst hconfig
  unfold outputAction Executor.outputAction
  cases hplan : e.plan with
  | direct =>
      cases e.config.layout with
      | nchw =>
          apply directNchw_eq hbounded schedule hsize.rows_lt hsize.cols_lt
          exact htotal
      | nhwc =>
          apply directNhwc_eq hbounded schedule
          rw [htotal, Problem.outPixels]
          ring
  | dense buffer =>
      rw [hplan] at hfits
      cases e.config.layout with
      | nchw =>
          exact multiplyNchw_eq hfits.2.fits_memory hbounded schedule e.denseTile
      | nhwc =>
          exact multiplyNhwc_eq hfits.2.fits_memory hbounded schedule e.denseTile
  | sparse buffer level weights =>
      rw [hplan] at hfits
      exact multiplySparse_eq hfits.2.2.1.fits_memory hbounded (h.stores hplan) schedule

theorem multiply_eq [One α] [Add α] [Mul α] [BEq α]
    (h : e.BuiltFrom config denseTile input weight) (hsize : Executor.Sized config input weight)
    (schedule : Schedule) : multiply schedule e = e.multiply schedule := by
  have hbounded := h.bounded hsize
  rw [multiply, patchSize_ok hbounded.contained, fault_ok_bind, outPixels_ok hbounded.contained,
    fault_ok_bind, outputAction_eq h hsize]
  rfl

theorem result_eq (h : e.BuiltFrom config denseTile input weight)
    (hsize : Executor.Sized config input weight) : result e = e.result := by
  have hbounded := h.bounded hsize
  have hdims := h.output_dims
  unfold result Executor.result
  rw [h.config_eq]
  cases hlayout : config.layout with
  | nchw =>
      rfl
  | nhwc =>
      rw [hlayout] at hdims
      apply toNchw_eq hdims hbounded.contained.counts_outRows hbounded.contained.counts_outCols
        hbounded.counts_outChannels
      rw [Nat.mul_assoc e.problem.batch]
      exact pixels_lt hbounded

theorem setSparsity_eq (h : e.BuiltFrom config denseTile input weight)
    (hsize : Executor.Sized config input weight) (percentile : Binary32) :
    setSparsity e percentile = e.setSparsity percentile := by
  have hbounded := h.bounded hsize
  unfold setSparsity Executor.setSparsity
  cases hplan : e.plan with
  | direct =>
      rfl
  | dense buffer =>
      rfl
  | sparse buffer old csr =>
      dsimp only
      rw [patchSize_ok hbounded.contained, Executor.pruneWeight]
      cases hlevel : Percentile.ofNumber percentile with
      | error error =>
          rfl
      | ok level =>
          rw [error_ok_bind, error_ok_bind, fault_ok_bind,
            prune_eq level _ hbounded.counts_outChannels.2 hbounded.contained.counts_patchSize.2]
          cases level.prune e.weight.data e.problem.outChannels e.problem.patchSize with
          | error failure =>
              rfl
          | ok weights =>
              rfl

end

end Word
end ConvSweep
