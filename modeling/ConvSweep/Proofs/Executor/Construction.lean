import Mathlib
import ConvSweep.Conv.Executor
import ConvSweep.Proofs.Conv.Patches
import ConvSweep.Proofs.Matrix.Sparse

/-!
# Construction of executors

A constructed executor is determined by its configuration and its pair of tensors:
the problem, the prepared operands, the extents of the output and of the scratch
buffer, and the pruned weights.  `BuiltFrom` lists these facts.  They do not
mention what the output and the scratch buffer hold.
-/

namespace ConvSweep

open Loop

variable {α : Type}

def Layout.pixelOrder : Layout → PatchOrder
  | nchw => .pixelChw
  | nhwc => .pixelHwc

theorem Percentile.value_of_ofNumber {x : Binary32} {level : Percentile}
    (h : ofNumber x = .ok level) : level.value = x := by
  rw [ofNumber] at h
  split at h
  · split at h
    · cases h
      rfl
    · cases h
  · cases h

theorem Percentile.ofNumber_value (level : Percentile) : ofNumber level.value = .ok level := by
  rw [ofNumber, dif_pos level.nonneg, dif_pos level.le_hundred]

/-- The plan belongs to a variant and a problem, and stores the weights pruned at its level. -/
def Plan.Fits [PruningOrder α] (config : ExecutorConfig) (p : Problem) (weight : Array α) :
    Plan α → Prop
  | .direct => config.algorithm = .direct
  | .dense buffer => config.algorithm = .dense ∧ buffer.Fits config.layout.pixelOrder p
  | .sparse buffer level weights =>
      config.algorithm = .sparse ∧ config.layout = .nchw ∧ buffer.Fits .channelMajor p ∧
        level.prune weight p.outChannels p.patchSize = .ok weights

/-- The percentage at which the weights of a plan are pruned. -/
def Plan.percentile? : Plan α → Option Binary32
  | .sparse _ level _ => some level.value
  | _ => none

namespace Plan.Fits

variable [PruningOrder α] {config : ExecutorConfig} {p : Problem} {weight : Array α}
  {plan : Plan α}

theorem eq_direct (h : plan.Fits config p weight) (halgorithm : config.algorithm = .direct) :
    plan = .direct := by
  cases plan with
  | direct =>
      rfl
  | dense buffer =>
      exact absurd (halgorithm.symm.trans h.1) (by simp)
  | sparse buffer level csr =>
      exact absurd (halgorithm.symm.trans h.1) (by simp)

theorem eq_dense (h : plan.Fits config p weight) (halgorithm : config.algorithm = .dense) :
    ∃ buffer, plan = .dense buffer := by
  cases plan with
  | direct =>
      exact absurd (halgorithm.symm.trans h) (by simp)
  | dense buffer =>
      exact ⟨buffer, rfl⟩
  | sparse buffer level csr =>
      exact absurd (halgorithm.symm.trans h.1) (by simp)

theorem eq_sparse (h : plan.Fits config p weight) (halgorithm : config.algorithm = .sparse) :
    ∃ buffer level csr, plan = .sparse buffer level csr := by
  cases plan with
  | direct =>
      exact absurd (halgorithm.symm.trans h) (by simp)
  | dense buffer =>
      exact absurd (halgorithm.symm.trans h.1) (by simp)
  | sparse buffer level csr =>
      exact ⟨buffer, level, csr, rfl⟩

/-- Only the sparse variant has a percentage. -/
theorem algorithm_eq (h : plan.Fits config p weight) {x : Binary32}
    (hx : plan.percentile? = some x) : config.algorithm = .sparse := by
  cases plan with
  | direct =>
      cases hx
  | dense buffer =>
      cases hx
  | sparse buffer level csr =>
      exact h.1

theorem percentile?_eq_none (h : plan.Fits config p weight)
    (halgorithm : config.algorithm ≠ .sparse) : plan.percentile? = none := by
  cases hx : plan.percentile? with
  | none =>
      rfl
  | some x =>
      exact absurd (h.algorithm_eq hx) halgorithm

end Plan.Fits

namespace Executor

/-- What the construction fixes, apart from the contents of the output and the scratch buffer. -/
structure BuiltFrom [Zero α] [PruningOrder α] (config : ExecutorConfig) (denseTile : Nat)
    (input weight : Tensor α) (e : Executor α) : Prop where
  config_eq : e.config = config
  denseTile_eq : e.denseTile = denseTile
  checked : checkPair config input weight = .ok e.problem
  prepared : prepare config.layout e.problem input weight = .ok (e.input, e.weight)
  output_dims : e.output.dims = outputDims config.layout e.problem
  output_lt : (outputDims config.layout e.problem).prod < Size.bufferLimit
  plan_fits : e.plan.Fits config e.problem e.weight.data

section

variable [Zero α] [PruningOrder α] {config : ExecutorConfig} {denseTile : Nat}
  {input weight : Tensor α} {e : Executor α}

omit [Zero α] [PruningOrder α] in
theorem not_sparse_nhwc {p : Problem} (h : checkPair config input weight = .ok p) :
    ¬ (config.algorithm = .sparse ∧ config.layout = .nhwc) := by
  intro hboth
  rw [checkPair, if_pos hboth] at h
  cases h

omit [Zero α] in
theorem pruneWeight_ok {p : Problem} {percentile : Binary32} {level : Percentile}
    {csr : CsrMatrix α} (h : pruneWeight p weight percentile = .ok (level, csr)) :
    Percentile.ofNumber percentile = .ok level ∧
      level.prune weight.data p.outChannels p.patchSize = .ok csr := by
  rw [pruneWeight] at h
  rcases error_step h with ⟨level', hlevel, h⟩
  rcases bind_eq_ok h with ⟨csr', hcsr, h⟩
  cases h
  exact ⟨hlevel, hcsr⟩

theorem createPlan_ok {p : Problem} {plan : Plan α}
    (hlayout : ¬ (config.algorithm = .sparse ∧ config.layout = .nhwc))
    (h : createPlan config p weight = .ok plan) :
    plan.Fits config p weight.data ∧
      plan.percentile? = if config.algorithm = .sparse then some config.percentile else none := by
  rw [createPlan] at h
  cases halgorithm : config.algorithm with
  | direct =>
      rw [halgorithm] at h
      cases h
      exact ⟨halgorithm, rfl⟩
  | dense =>
      rw [halgorithm] at h
      cases hl : config.layout with
      | nchw =>
          rw [hl] at h
          rcases bind_eq_ok h with ⟨buffer, hbuffer, h⟩
          cases h
          refine ⟨⟨halgorithm, ?_⟩, rfl⟩
          rw [hl]
          exact PatchBuffer.fits_of_create hbuffer
      | nhwc =>
          rw [hl] at h
          rcases bind_eq_ok h with ⟨buffer, hbuffer, h⟩
          cases h
          refine ⟨⟨halgorithm, ?_⟩, rfl⟩
          rw [hl]
          exact PatchBuffer.fits_of_create hbuffer
  | sparse =>
      rw [halgorithm] at h
      have hl : config.layout = .nchw := by
        cases hl : config.layout with
        | nchw =>
            rfl
        | nhwc =>
            exact absurd ⟨halgorithm, hl⟩ hlayout
      rcases bind_eq_ok h with ⟨buffer, hbuffer, h⟩
      rcases bind_eq_ok h with ⟨⟨level, csr⟩, hprune, h⟩
      cases h
      rcases pruneWeight_ok hprune with ⟨hlevel, hcsr⟩
      refine ⟨⟨halgorithm, hl, PatchBuffer.fits_of_create hbuffer, hcsr⟩, ?_⟩
      rw [if_pos rfl, Plan.percentile?, Percentile.value_of_ofNumber hlevel]

theorem create_builtFrom (h : create config denseTile input weight = .ok e) :
    BuiltFrom config denseTile input weight e ∧
      e.plan.percentile? =
        if config.algorithm = .sparse then some config.percentile else none := by
  rw [create] at h
  rcases error_step h with ⟨p, hp, h⟩
  rcases bind_eq_ok h with ⟨⟨input', weight'⟩, hprepared, h⟩
  rcases bind_eq_ok h with ⟨output, houtput, h⟩
  rcases bind_eq_ok h with ⟨plan, hplan, h⟩
  cases h
  rcases createPlan_ok (not_sparse_nhwc hp) hplan with ⟨hfits, hpercentile⟩
  rcases Tensor.zeros_ok houtput with ⟨hdims, hlt⟩
  exact ⟨⟨rfl, rfl, hp, hprepared, hdims, hlt, hfits⟩, hpercentile⟩

theorem prod_outputDims (layout : Layout) (p : Problem) :
    (outputDims layout p).prod = p.batch * p.outChannels * p.outPixels := by
  cases layout <;> simp only [outputDims, List.prod_cons, List.prod_nil, Problem.outPixels] <;> ring

/-!
## Operands
-/

/-- The problem and the views of the tensors of an accepted pair. -/
structure Accepts (config : ExecutorConfig) (input weight : Tensor α) (p : Problem) : Prop where
  admissible : p.Admissible
  padding_eq : p.padding = config.padding
  input_dims : input.dims = [p.batch, p.inChannels, p.height, p.width]
  weight_dims : weight.dims = [p.outChannels, p.inChannels, p.kernel, p.kernel]

omit [Zero α] [PruningOrder α] in
theorem accepts_of_checkPair {p : Problem} (h : checkPair config input weight = .ok p) :
    Accepts config input weight p := by
  rw [checkPair, if_neg (not_sparse_nhwc h)] at h
  by_cases hinput : input.shape.rank ≠ 4
  · rw [if_pos hinput] at h
    cases h
  · rw [if_neg hinput] at h
    by_cases hweight : weight.shape.rank ≠ 4
    · rw [if_pos hweight] at h
      cases h
    · rw [if_neg hweight] at h
      rcases Problem.of_ofShapes h with ⟨hp, hinput, hweight, hpadding⟩
      exact ⟨hp, hpadding, hinput, hweight⟩

omit [Zero α] [PruningOrder α] in
theorem Accepts.extents {p : Problem} (hp : Accepts config input weight p) {n c h w f k : Nat}
    (hinput : input.dims = [n, c, h, w]) (hweight : weight.dims = [f, c, k, k]) :
    p.batch = n ∧ p.inChannels = c ∧ p.height = h ∧ p.width = w ∧ p.outChannels = f ∧
      p.kernel = k := by
  rw [hp.input_dims] at hinput
  rw [hp.weight_dims] at hweight
  simp only [List.cons.injEq] at hinput hweight
  exact ⟨hinput.1, hinput.2.1, hinput.2.2.1, hinput.2.2.2.1, hweight.1, hweight.2.2.1⟩

omit [Zero α] [PruningOrder α] in
theorem Accepts.problem_eq {config' : ExecutorConfig} {weight' : Tensor α} {p p' : Problem}
    (hp : Accepts config input weight p) (hp' : Accepts config' input weight' p')
    (hweight : weight.dims = weight'.dims) (hpadding : config.padding = config'.padding) :
    p = p' := by
  rw [hp'.weight_dims] at hweight
  rcases hp.extents hp'.input_dims hweight with ⟨hbatch, hin, hheight, hwidth, hout, hkernel⟩
  rw [← hp.padding_eq, ← hp'.padding_eq] at hpadding
  cases p
  cases p'
  simp_all

omit [Zero α] [PruningOrder α] in
theorem Accepts.outputFits {p : Problem} (hp : Accepts config input weight p) :
    p.OutputFits := by
  rcases Tensor.extents_lt hp.input_dims with ⟨_, _, hheight, hwidth⟩
  exact ⟨hp.admissible.fits, Nat.lt_of_le_of_lt hp.admissible.expandable.outRows_le hheight,
    Nat.lt_of_le_of_lt hp.admissible.expandable.outCols_le hwidth⟩

/-- The prepared input, given by batch, channel, row and column. -/
def preparedView (p : Problem) (input : Tensor α) : Nat → Nat → Nat → Nat → α :=
  Tensor.bordering p.border p.height p.width input.cell

omit [PruningOrder α] in
theorem of_prepare {layout : Layout} {p : Problem} {input' weight' : Tensor α}
    (hp : Accepts config input weight p)
    (h : prepare layout p input weight = .ok (input', weight')) :
    input'.dims = layout.pixelOrder.inputDims p ∧
      p.HoldsInput layout input'.data (preparedView p input) ∧
      p.HoldsWeight layout weight'.data weight.cell := by
  have hinput := Tensor.holds_cell hp.input_dims
  have hweight := Tensor.holds_cell hp.weight_dims
  cases layout with
  | nchw =>
      rcases bind_eq_ok h with ⟨padded, hpadded, h⟩
      cases h
      rcases Tensor.of_padNchw hp.input_dims hinput hpadded with ⟨hdims, hholds⟩
      exact ⟨hdims, hholds, hweight⟩
  | nhwc =>
      rcases bind_eq_ok h with ⟨padded, hpadded, h⟩
      rcases bind_eq_ok h with ⟨turned, hturned, h⟩
      cases h
      rcases Tensor.of_toNhwcPadded hp.input_dims hinput hpadded with ⟨hdims, hholds⟩
      rcases Tensor.of_toNhwcPadded hp.weight_dims hweight hturned with ⟨_, hholds'⟩
      refine ⟨hdims, hholds, hholds'.congr ?_⟩
      intro f _ kh hkh kw hkw c _
      exact Tensor.bordering_zero hkh hkw

namespace BuiltFrom

theorem accepts (h : BuiltFrom config denseTile input weight e) :
    Accepts config input weight e.problem :=
  accepts_of_checkPair h.checked

theorem input_dims (h : BuiltFrom config denseTile input weight e) :
    e.input.dims = config.layout.pixelOrder.inputDims e.problem :=
  (of_prepare h.accepts h.prepared).1

theorem holdsInput (h : BuiltFrom config denseTile input weight e) :
    e.problem.HoldsInput config.layout e.input.data (preparedView e.problem input) :=
  (of_prepare h.accepts h.prepared).2.1

theorem holdsWeight (h : BuiltFrom config denseTile input weight e) :
    e.problem.HoldsWeight config.layout e.weight.data weight.cell :=
  (of_prepare h.accepts h.prepared).2.2

theorem outputFits (h : BuiltFrom config denseTile input weight e) : e.problem.OutputFits :=
  h.accepts.outputFits

/-- The lengths of the weight, of its prepared form and of the output. -/
theorem sizes (h : BuiltFrom config denseTile input weight e) :
    weight.data.size = e.problem.outChannels * e.problem.patchSize ∧
      e.weight.data.size = e.problem.outChannels * e.problem.patchSize ∧
      e.output.data.size = e.problem.batch * e.problem.outChannels * e.problem.outPixels := by
  refine ⟨?_, h.holdsWeight.rows.size_eq, ?_⟩
  · rw [Tensor.size_quad h.accepts.weight_dims, Problem.patchSize]
    ring
  · rw [e.output.size_eq, Shape.total_eq_prod, ← prod_outputDims config.layout]
    exact congrArg List.prod h.output_dims

end BuiltFrom

/-!
## Further constructions
-/

theorem exists_createPlan {p : Problem} {plan : Plan α} (hp : p.Admissible)
    (houtput : p.OutputFits) (hfits : plan.Fits config p weight.data)
    (hpercentile : ∀ x, plan.percentile? = some x → config.percentile = x) :
    ∃ plan', createPlan config p weight = .ok plan' := by
  unfold createPlan
  cases plan with
  | direct =>
      have halgorithm : config.algorithm = .direct := hfits
      rw [halgorithm]
      exact ⟨_, rfl⟩
  | dense buffer =>
      rcases hfits with ⟨halgorithm, hbuffer⟩
      rw [halgorithm]
      cases config.layout with
      | nchw =>
          rcases PatchBuffer.exists_create (α := α) .pixelChw hp.expandable houtput
            hbuffer.fits_memory with ⟨buffer', hcreate⟩
          refine ⟨.dense buffer', ?_⟩
          dsimp only
          rw [hcreate]
          rfl
      | nhwc =>
          rcases PatchBuffer.exists_create (α := α) .pixelHwc hp.expandable houtput
            hbuffer.fits_memory with ⟨buffer', hcreate⟩
          refine ⟨.dense buffer', ?_⟩
          dsimp only
          rw [hcreate]
          rfl
  | sparse buffer level csr =>
      rcases hfits with ⟨halgorithm, _, hbuffer, hprune⟩
      rcases PatchBuffer.exists_create (α := α) .channelMajor hp.expandable houtput
        hbuffer.fits_memory with ⟨buffer', hcreate⟩
      refine ⟨.sparse buffer' level csr, ?_⟩
      rw [halgorithm]
      dsimp only
      rw [hcreate, pruneWeight, hpercentile _ rfl, Percentile.ofNumber_value, error_ok_bind, hprune]
      rfl

omit [PruningOrder α] in
theorem exists_output {layout : Layout} {p : Problem} (hp : p.Admissible)
    (houtput : (outputDims layout p).prod < Size.bufferLimit) :
    ∃ output : Tensor α, Tensor.zeros (outputDims layout p) = .ok output := by
  have hbatch := hp.batch_pos
  have hchannels := hp.outChannels_pos
  have hrows := hp.expandable.outRows_pos
  have hcols := hp.expandable.outCols_pos
  have hnil : outputDims layout p ≠ [] := by
    cases layout <;> simp [outputDims]
  have hpos : 0 ∉ outputDims layout p := by
    cases layout <;> simp [outputDims] <;> omega
  rcases Tensor.zeros_of_prod (α := α) hnil hpos houtput with ⟨shape, _, hzeros⟩
  exact ⟨_, hzeros⟩

/-- An executor exists for every operand pair that passes the checks and fits memory. -/
theorem exists_create {p : Problem} {input' weight' : Tensor α} {plan : Plan α}
    (hcheck : checkPair config input weight = .ok p)
    (hprepare : prepare config.layout p input weight = .ok (input', weight'))
    (houtput : (outputDims config.layout p).prod < Size.bufferLimit)
    (hplan : createPlan config p weight' = .ok plan) :
    ∃ e, create config denseTile input weight = .ok e := by
  rcases exists_output (α := α) (accepts_of_checkPair hcheck).admissible houtput with
    ⟨output, hzeros⟩
  rw [create, hcheck, error_ok_bind, hprepare, ok_bind]
  dsimp only
  rw [hzeros, ok_bind, hplan]
  exact ⟨_, rfl⟩

/-- Where a sparse executor was built, a dense one can be, for any weight of the same extents. -/
theorem BuiltFrom.exists_dense (h : BuiltFrom config denseTile input weight e)
    (hsparse : config.algorithm = .sparse) {weight' : Tensor α} (hdims : weight'.dims = weight.dims)
    (denseTile' : Nat) :
    ∃ e', create { config with algorithm := .dense } denseTile' input weight' = .ok e' := by
  have hshape : weight'.shape = weight.shape := Shape.ext_dims hdims
  have hchecked := h.checked
  have hprepared := h.prepared
  have houtput := h.output_lt
  have hplan := h.plan_fits
  have hguard : ¬ (Algorithm.dense = .sparse ∧ config.layout = .nhwc) := by
    rintro ⟨hne, _⟩
    cases hne
  have hcheck : checkPair { config with algorithm := .dense } input weight' = .ok e.problem := by
    rw [checkPair, if_neg (not_sparse_nhwc hchecked)] at hchecked
    rw [checkPair, if_neg hguard, hshape]
    exact hchecked
  rcases hplan.eq_sparse hsparse with ⟨buffer, level, csr, hEq⟩
  rw [hEq] at hplan
  rcases hplan with ⟨_, hl, hfits, _⟩
  rcases PatchBuffer.exists_create (α := α) .pixelChw h.accepts.admissible.expandable h.outputFits
    hfits.fits_memory with ⟨buffer, hbuffer⟩
  rw [hl] at hprepared
  rcases bind_eq_ok hprepared with ⟨padded, hpadded, hprepared⟩
  have hprepare : prepare config.layout e.problem input weight' = .ok (padded, weight') := by
    rw [hl, prepare, hpadded]
    rfl
  have hcreate : createPlan { config with algorithm := .dense } e.problem weight' =
      .ok (.dense buffer) := by
    unfold createPlan
    rw [hl]
    dsimp only
    rw [hbuffer]
    rfl
  exact exists_create hcheck hprepare houtput hcreate

end
end Executor
end ConvSweep
