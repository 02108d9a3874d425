import Mathlib
import ConvSweep.Proofs.Executor.Settled

/-!
# Acceptance

A variant accepts a pair of tensors when the pair passes the checks and the buffers
that the variant makes of it fit memory.  The memory that is needed grows with the
extents of the problem, so whoever accepts a problem accepts every problem within
it: another treatment of the border, an inner part of the output, one batch element
or one filter.
-/

namespace ConvSweep

open Loop

variable {α : Type}

/-!
## Checks
-/

namespace Executor

variable {config : ExecutorConfig} {input weight : Tensor α} {p : Problem}

theorem Accepts.check_eq (hp : Accepts config input weight p) : p.check = .ok () := by
  have hodd := hp.admissible.odd
  have hvalid : ¬ (p.padding = .valid ∧ (p.height < p.kernel ∨ p.width < p.kernel)) := by
    rintro ⟨hpadding, hlt⟩
    have hfits := hp.admissible.fits hpadding
    omega
  rw [Problem.check, if_neg (by omega), if_neg hvalid]

/-- The checks accept what is admissible and not sparse in the axis order that has no sparse
multiply. -/
theorem checkPair_eq_ok_iff : checkPair config input weight = .ok p ↔
    ¬ (config.algorithm = .sparse ∧ config.layout = .nhwc) ∧ Accepts config input weight p := by
  constructor
  · intro h
    exact ⟨not_sparse_nhwc h, accepts_of_checkPair h⟩
  · rintro ⟨hlayout, hp⟩
    have hinput : input.shape.dims = [p.batch, p.inChannels, p.height, p.width] := hp.input_dims
    have hweight : weight.shape.dims = [p.outChannels, p.inChannels, p.kernel, p.kernel] :=
      hp.weight_dims
    have hproblem : (⟨p.batch, p.inChannels, p.outChannels, p.height, p.width, p.kernel,
        config.padding⟩ : Problem) = p := by
      rw [← hp.padding_eq]
    rw [checkPair, if_neg hlayout, if_neg (by simp [Shape.rank, hinput]),
      if_neg (by simp [Shape.rank, hweight])]
    show Problem.ofShapes input.shape weight.shape config.padding = .ok p
    rw [Problem.ofShapes_quad hinput hweight, if_pos ⟨rfl, rfl⟩, hproblem, hp.check_eq]
    rfl

end Executor

/-!
## Memory
-/

/-- The buffers that a variant makes of a problem fit memory. -/
structure Problem.FitsMemory (p : Problem) (config : ExecutorConfig) : Prop where
  /-- Without a border an NCHW input is used as it is. -/
  input_lt : config.layout = .nchw ∧ p.border = 0 ∨
    p.batch * p.inChannels * p.inputRows * p.inputCols < Size.bufferLimit
  weight_lt : config.layout = .nhwc → p.outChannels * p.patchSize < Size.bufferLimit
  output_lt : p.batch * p.outChannels * p.outPixels < Size.bufferLimit
  patches_lt : config.algorithm ≠ .direct →
    p.batch * (p.outPixels * p.patchSize) < Size.bufferLimit
  rows_lt : config.algorithm = .sparse → p.outChannels < offsetLimit

/-- A problem that is no larger than another in any extent. -/
structure Problem.Within (q p : Problem) : Prop where
  batch_le : q.batch ≤ p.batch
  inChannels_le : q.inChannels ≤ p.inChannels
  outChannels_le : q.outChannels ≤ p.outChannels
  kernel_le : q.kernel ≤ p.kernel
  inputRows_le : q.inputRows ≤ p.inputRows
  inputCols_le : q.inputCols ≤ p.inputCols
  outRows_le : q.outRows ≤ p.outRows
  outCols_le : q.outCols ≤ p.outCols
  border_le : q.border ≤ p.border

namespace Problem.Within

variable {p q : Problem}

theorem patchSize_le (h : q.Within p) : q.patchSize ≤ p.patchSize :=
  Nat.mul_le_mul (Nat.mul_le_mul h.inChannels_le h.kernel_le) h.kernel_le

theorem outPixels_le (h : q.Within p) : q.outPixels ≤ p.outPixels :=
  Nat.mul_le_mul h.outRows_le h.outCols_le

theorem fitsMemory (h : q.Within p) {config config' : ExecutorConfig}
    (hlayout : config'.layout = config.layout) (halgorithm : config'.algorithm = config.algorithm)
    (hp : p.FitsMemory config) : q.FitsMemory config' where
  input_lt := by
    rw [hlayout]
    have hle : q.batch * q.inChannels * q.inputRows * q.inputCols ≤
        p.batch * p.inChannels * p.inputRows * p.inputCols :=
      Nat.mul_le_mul (Nat.mul_le_mul (Nat.mul_le_mul h.batch_le h.inChannels_le) h.inputRows_le)
        h.inputCols_le
    rcases hp.input_lt with ⟨hl, hborder⟩ | hlt
    · left
      exact ⟨hl, Nat.le_zero.mp (hborder ▸ h.border_le)⟩
    · right
      exact Nat.lt_of_le_of_lt hle hlt
  weight_lt hl := by
    rw [hlayout] at hl
    exact Nat.lt_of_le_of_lt (Nat.mul_le_mul h.outChannels_le h.patchSize_le) (hp.weight_lt hl)
  output_lt :=
    Nat.lt_of_le_of_lt (Nat.mul_le_mul (Nat.mul_le_mul h.batch_le h.outChannels_le) h.outPixels_le)
      hp.output_lt
  patches_lt hne := by
    rw [halgorithm] at hne
    exact Nat.lt_of_le_of_lt
      (Nat.mul_le_mul h.batch_le (Nat.mul_le_mul h.outPixels_le h.patchSize_le))
      (hp.patches_lt hne)
  rows_lt hsparse := by
    rw [halgorithm] at hsparse
    exact Nat.lt_of_le_of_lt h.outChannels_le (hp.rows_lt hsparse)

end Problem.Within

namespace Executor

section

variable [Zero α] {config : ExecutorConfig} {input weight : Tensor α} {p : Problem}

/-- The operands can be prepared when their prepared forms fit memory. -/
theorem Accepts.exists_prepare (hp : Accepts config input weight p) (hfits : p.FitsMemory config) :
    ∃ operands, prepare config.layout p input weight = .ok operands := by
  have hinput := Tensor.holds_cell hp.input_dims
  have hweight := Tensor.holds_cell hp.weight_dims
  have hrows : p.inputRows = p.height + 2 * p.border := rfl
  have hcols : p.inputCols = p.width + 2 * p.border := rfl
  cases hl : config.layout with
  | nchw =>
      by_cases hborder : p.border = 0
      · refine ⟨(input, weight), ?_⟩
        rw [prepare, Tensor.padNchw, if_pos hborder]
        rfl
      · have hlt : p.batch * p.inChannels * p.inputRows * p.inputCols < Size.bufferLimit :=
          hfits.input_lt.resolve_left fun h => hborder h.2
        rw [hrows, hcols] at hlt
        rcases Tensor.padNchw_ok hborder hp.input_dims hinput hlt with ⟨padded, hpadded, _⟩
        refine ⟨(padded, weight), ?_⟩
        rw [prepare, hpadded]
        rfl
  | nhwc =>
      have hlt : p.batch * p.inChannels * p.inputRows * p.inputCols < Size.bufferLimit := by
        refine hfits.input_lt.resolve_left ?_
        rintro ⟨hnchw, _⟩
        rw [hl] at hnchw
        cases hnchw
      have hinputLt : p.batch * (p.height + 2 * p.border) * (p.width + 2 * p.border) *
          p.inChannels < Size.bufferLimit := by
        rw [← hrows, ← hcols]
        convert hlt using 1
        ring
      have hweightLt : p.outChannels * (p.kernel + 2 * 0) * (p.kernel + 2 * 0) * p.inChannels <
          Size.bufferLimit := by
        convert hfits.weight_lt hl using 1
        rw [Problem.patchSize]
        ring
      rcases Tensor.toNhwcPadded_ok hp.input_dims hinput hinputLt with ⟨padded, hpadded, _⟩
      rcases Tensor.toNhwcPadded_ok hp.weight_dims hweight hweightLt with ⟨turned, hturned, _⟩
      refine ⟨(padded, turned), ?_⟩
      have hturned' : weight.toNhwc = .ok turned := hturned
      rw [prepare, hpadded, ok_bind, hturned', ok_bind]
      rfl

theorem prepare_input_lt {config : ExecutorConfig} {input weight : Tensor α} {p : Problem}
    {operands : Tensor α × Tensor α} (hp : Accepts config input weight p)
    (h : prepare config.layout p input weight = .ok operands) :
    config.layout = .nchw ∧ p.border = 0 ∨
      p.batch * p.inChannels * p.inputRows * p.inputCols < Size.bufferLimit := by
  cases hl : config.layout with
  | nchw =>
      rw [hl] at h
      rcases bind_eq_ok h with ⟨padded, hpadded, _⟩
      by_cases hborder : p.border = 0
      · left
        exact ⟨rfl, hborder⟩
      · right
        exact Tensor.prod_lt_of_padNchw hborder hp.input_dims hpadded
  | nhwc =>
      rw [hl] at h
      rcases bind_eq_ok h with ⟨padded, hpadded, _⟩
      right
      have hlt := Tensor.prod_lt_of_toNhwcPadded hp.input_dims hpadded
      convert hlt using 1
      rw [Problem.inputRows, Problem.inputCols]
      ring

theorem prepare_weight_lt {config : ExecutorConfig} {input weight : Tensor α} {p : Problem}
    {operands : Tensor α × Tensor α} (hp : Accepts config input weight p)
    (h : prepare config.layout p input weight = .ok operands) (hl : config.layout = .nhwc) :
    p.outChannels * p.patchSize < Size.bufferLimit := by
  rw [hl] at h
  rcases bind_eq_ok h with ⟨padded, _, h⟩
  rcases bind_eq_ok h with ⟨turned, hturned, _⟩
  have hlt := Tensor.prod_lt_of_toNhwcPadded hp.weight_dims hturned
  convert hlt using 1
  rw [Problem.patchSize]
  ring

/-!
## Construction
-/

variable [PruningOrder α] {denseTile : Nat} {e : Executor α}

theorem BuiltFrom.fitsMemory (h : BuiltFrom config denseTile input weight e) :
    e.problem.FitsMemory config where
  input_lt := prepare_input_lt h.accepts h.prepared
  weight_lt := prepare_weight_lt h.accepts h.prepared
  output_lt := by
    rw [← prod_outputDims config.layout]
    exact h.output_lt
  patches_lt hne := by
    have hfits := h.plan_fits
    cases hplan : e.plan with
    | direct =>
        rw [hplan] at hfits
        exact absurd hfits hne
    | dense buffer =>
        rw [hplan] at hfits
        exact hfits.2.fits_memory
    | sparse buffer level csr =>
        rw [hplan] at hfits
        exact hfits.2.2.1.fits_memory
  rows_lt hsparse := by
    have hfits := h.plan_fits
    rcases hfits.eq_sparse hsparse with ⟨buffer, level, csr, hplan⟩
    rw [hplan] at hfits
    exact (Percentile.of_prune hfits.2.2.2).2.2

/-- The scratch buffer and the pruned weights can be made when they fit memory. -/
theorem Accepts.exists_createPlan (hp : Accepts config input weight p)
    (hlayout : ¬ (config.algorithm = .sparse ∧ config.layout = .nhwc))
    (hfits : p.FitsMemory config)
    (hpercentile : config.algorithm = .sparse →
      ∃ level, Percentile.ofNumber config.percentile = .ok level)
    {input' weight' : Tensor α} (h : prepare config.layout p input weight = .ok (input', weight')) :
    ∃ plan, createPlan config p weight' = .ok plan := by
  have hbuffer (hne : config.algorithm ≠ .direct) (order : PatchOrder) :
      ∃ buffer : PatchBuffer α, PatchBuffer.create order p = .ok buffer :=
    PatchBuffer.exists_create order hp.admissible.expandable hp.outputFits
      (hfits.patches_lt hne)
  unfold createPlan
  cases halgorithm : config.algorithm with
  | direct =>
      exact ⟨_, rfl⟩
  | dense =>
      have hne : config.algorithm ≠ .direct := by simp [halgorithm]
      cases config.layout with
      | nchw =>
          rcases hbuffer hne .pixelChw with ⟨buffer, hcreate⟩
          refine ⟨.dense buffer, ?_⟩
          simp [hcreate]
      | nhwc =>
          rcases hbuffer hne .pixelHwc with ⟨buffer, hcreate⟩
          refine ⟨.dense buffer, ?_⟩
          simp [hcreate]
  | sparse =>
      have hne : config.algorithm ≠ .direct := by simp [halgorithm]
      have hl : config.layout = .nchw := by
        cases hl : config.layout with
        | nchw =>
            rfl
        | nhwc =>
            exact absurd ⟨halgorithm, hl⟩ hlayout
      have hweight := (of_prepare hp h).2.2
      rw [hl] at hweight
      rcases hbuffer hne .channelMajor with ⟨buffer, hcreate⟩
      rcases hpercentile halgorithm with ⟨level, hlevel⟩
      rcases level.prune_ok hweight.rows weight'.size_lt_limit (hfits.rows_lt halgorithm) with
        ⟨csr, hprune, _⟩
      refine ⟨.sparse buffer level csr, ?_⟩
      simp [hcreate, pruneWeight, hlevel, hprune, ok_bind, error_ok_bind]

/-- What passes the checks and fits memory is accepted. -/
theorem Accepts.exists_create (hp : Accepts config input weight p)
    (hlayout : ¬ (config.algorithm = .sparse ∧ config.layout = .nhwc))
    (hfits : p.FitsMemory config)
    (hpercentile : config.algorithm = .sparse →
      ∃ level, Percentile.ofNumber config.percentile = .ok level) (denseTile : Nat) :
    ∃ e, create config denseTile input weight = .ok e := by
  rcases hp.exists_prepare hfits with ⟨⟨input', weight'⟩, hprepare⟩
  rcases hp.exists_createPlan hlayout hfits hpercentile hprepare with ⟨plan, hplan⟩
  have houtput : (outputDims config.layout p).prod < Size.bufferLimit := by
    rw [prod_outputDims]
    exact hfits.output_lt
  exact Executor.exists_create (checkPair_eq_ok_iff.mpr ⟨hlayout, hp⟩) hprepare houtput hplan

/-- The percentage of a configuration that was accepted is one. -/
theorem percentile_of_create (h : create config denseTile input weight = .ok e)
    (hsparse : config.algorithm = .sparse) :
    ∃ level, Percentile.ofNumber config.percentile = .ok level := by
  rcases create_builtFrom h with ⟨hbuilt, hpercentile⟩
  rcases hbuilt.plan_fits.eq_sparse hsparse with ⟨buffer, level, csr, hplan⟩
  rw [hplan, if_pos hsparse] at hpercentile
  have hvalue : level.value = config.percentile := Option.some.inj hpercentile
  rw [← hvalue]
  exact ⟨level, level.ofNumber_value⟩

/-- A problem within an accepted one is accepted. -/
theorem Accepts.exists_create_within {config' : ExecutorConfig} {input' weight' : Tensor α}
    {q : Problem} (h : create config denseTile input weight = .ok e)
    (hq : Accepts config' input' weight' q) (hwithin : q.Within e.problem)
    (hlayout : config'.layout = config.layout) (halgorithm : config'.algorithm = config.algorithm)
    (hpercentile : config'.percentile = config.percentile) (denseTile' : Nat) :
    ∃ e', create config' denseTile' input' weight' = .ok e' := by
  have hbuilt := (create_builtFrom h).1
  apply hq.exists_create
  · rw [halgorithm, hlayout]
    exact not_sparse_nhwc hbuilt.checked
  · exact hwithin.fitsMemory hlayout halgorithm hbuilt.fitsMemory
  · intro hsparse
    rw [halgorithm] at hsparse
    rw [hpercentile]
    exact percentile_of_create h hsparse

end

end Executor
end ConvSweep
