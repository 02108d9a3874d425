import Mathlib
import ConvSweep.Proofs.Binary32
import ConvSweep.Proofs.Executor.Settled

/-!
# Variants agree in single precision

All variants add the products of an output element in the order of the taps, so
their results have the same bits where they add the same products.  They differ in
the products with zero: the direct loops leave out the taps outside of the input
and the sparse multiply the dropped weights.  A product of zero and a finite number
is a zero, and adding a zero to a sum changes nothing, as a sum that starts from
zero never becomes a negative zero.
-/

namespace ConvSweep

open Loop

/-!
## Sums of products
-/

namespace Binary32

/-- Dropped entries count as zeros next to finite numbers. -/
theorem keptProduct_eq_rowProduct {length : Nat} {keep : Nat → Bool} {u v : Nat → Binary32}
    (h : ∀ i < length, keep i = false → (v i).isFinite = true) :
    keptProduct length keep u v = rowProduct length (fun i => if keep i then u i else 0) v := by
  refine (foldl_eq_rowProduct ?_).1
  intro i hi acc hacc
  cases hkeep : keep i with
  | true =>
      rw [if_pos rfl, if_pos rfl, one_mul_mul]
  | false =>
      -- the dense row multiplies a zero here, the sparse row has no entry
      rw [if_neg Bool.false_ne_true, if_neg Bool.false_ne_true, Binary32.mul_comm,
        hacc.add_zero (isZero_mul_zero (h i hi hkeep))]

/-- Left-out taps count as products of zeros and finite weights. -/
theorem directSum_eq_rowProduct {p : Problem} {layout : Layout}
    {x w : Nat → Nat → Nat → Nat → Binary32} {b f oh ow : Nat} (hp : p.Admissible)
    (hoh : oh < p.outRows) (how : ow < p.outCols)
    (hw : p.padding = .inline →
      ∀ i < p.patchSize, ((p.tapAt layout i).weight w f).isFinite = true) :
    p.directSum layout x w b f oh ow =
      rowProduct p.patchSize (fun i => (p.tapAt layout i).weight w f)
        (p.patch layout x b oh ow) := by
  refine (foldl_eq_rowProduct ?_).1
  intro i hi acc hacc
  cases hsample : p.sample? x b oh ow (p.tapAt layout i) with
  | some v =>
      rw [Problem.addProduct_of_some hsample, Problem.patch, hsample, Option.getD_some,
        Binary32.mul_comm]
  | none =>
      -- only an inline border leaves a tap out
      by_cases hpadding : p.padding = .inline
      · rw [Problem.addProduct_of_none hsample, Problem.patch, hsample, Option.getD_none,
          hacc.add_zero (isZero_mul_zero (hw hpadding i hi))]
      · have htap := Problem.hasTap_tapAt layout hi
        rw [hp.expandable.sample?_eq hpadding x b hoh how htap.2.1 htap.2.2] at hsample
        cases hsample

/-!
## Finite operands
-/

theorem isFinite_cell {t : Tensor Binary32} (h : ∀ x ∈ t.data, x.isFinite = true)
    (a b c d : Nat) : (t.cell a b c d).isFinite = true := by
  rcases t.cell_mem_or_zero a b c d with hmem | hzero
  · exact h _ hmem
  · rw [hzero]
    decide

theorem isFinite_patch {p : Problem} {layout : Layout} {input : Tensor Binary32}
    (h : ∀ x ∈ input.data, x.isFinite = true) (b oh ow i : Nat) :
    (p.patch layout (Executor.preparedView p input) b oh ow i).isFinite = true := by
  rw [Problem.patch, Executor.preparedView, Problem.sample?_bordering, Tensor.bordering]
  split
  · exact isFinite_cell h _ _ _ _
  · decide

end Binary32

/-!
## Elements
-/

namespace Executor

open Binary32

variable {config : ExecutorConfig} {denseTile : Nat} {input weight : Tensor Binary32}
  {e : Executor Binary32}

/-- The products of a filter and a patch, added in the order of the taps. -/
def patchProduct (layout : Layout) (p : Problem) (input weight : Tensor Binary32)
    (b f oh ow : Nat) : Binary32 :=
  rowProduct p.patchSize (fun i => (p.tapAt layout i).weight weight.cell f)
    (p.patch layout (preparedView p input) b oh ow)

theorem BuiltFrom.elements_direct (h : BuiltFrom config denseTile input weight e)
    (halgorithm : config.algorithm = .direct)
    (hfinite : config.padding = .inline → ∀ x ∈ weight.data, x.isFinite = true) {b f oh ow : Nat}
    (hoh : oh < e.problem.outRows) (how : ow < e.problem.outCols) :
    e.elements input weight b f oh ow =
      patchProduct config.layout e.problem input weight b f oh ow := by
  rw [elements, h.config_eq, h.plan_fits.eq_direct halgorithm]
  apply directSum_eq_rowProduct h.accepts.admissible hoh how
  intro hpadding i _
  rw [h.accepts.padding_eq] at hpadding
  exact isFinite_cell (hfinite hpadding) _ _ _ _

theorem BuiltFrom.elements_dense (h : BuiltFrom config denseTile input weight e)
    (halgorithm : config.algorithm = .dense) (b f oh ow : Nat) :
    e.elements input weight b f oh ow =
      patchProduct config.layout e.problem input weight b f oh ow := by
  rcases h.plan_fits.eq_dense halgorithm with ⟨buffer, hplan⟩
  rw [elements, h.config_eq, hplan]
  cases config.layout with
  | nchw =>
      exact (isSum_rowProduct _ _ _).one_mul
  | nhwc =>
      -- the operands are swapped: the patches stand on the left
      rw [patchProduct, rowProduct_comm]
      exact (isSum_rowProduct _ _ _).one_mul

section

variable {buffer : PatchBuffer Binary32} {level : Percentile} {csr : CsrMatrix Binary32}

theorem BuiltFrom.elements_sparse (h : BuiltFrom config denseTile input weight e)
    (hplan : e.plan = .sparse buffer level csr) (b f oh ow : Nat) :
    e.elements input weight b f oh ow =
      keptProduct e.problem.patchSize
        (level.keeps e.problem.patchSize (filterRows e.problem weight) f)
        (filterRows e.problem weight f)
        (e.problem.patch .nchw (preparedView e.problem input) b oh ow) := by
  have hfits := h.plan_fits
  rw [hplan] at hfits
  rw [elements, h.config_eq, hplan, hfits.2.1]
  rfl

/-- With finite inputs the sparse variant multiplies with the dense form of its weights. -/
theorem BuiltFrom.elements_pruned (h : BuiltFrom config denseTile input weight e)
    (hplan : e.plan = .sparse buffer level csr) (hfinite : ∀ x ∈ input.data, x.isFinite = true)
    {pruned : Tensor Binary32} (hdims : pruned.dims = weight.dims)
    (hdense : csr.toDense = .ok pruned.data) {f : Nat} (hf : f < e.problem.outChannels)
    (b oh ow : Nat) :
    e.elements input weight b f oh ow = patchProduct .nchw e.problem input pruned b f oh ow := by
  rw [h.elements_sparse hplan, keptProduct_eq_rowProduct]
  · apply rowProduct_congr
    · intro i hi
      exact h.masked_eq hplan hdims hdense hf hi
    · intro i _
      rfl
  · intro i _ _
    exact isFinite_patch hfinite b oh ow i

/-- A level that drops nothing multiplies with the weight itself. -/
theorem BuiltFrom.elements_unpruned (h : BuiltFrom config denseTile input weight e)
    (hplan : e.plan = .sparse buffer level csr) (hdrop : level.dropCount e.problem.patchSize = 0)
    (b f oh ow : Nat) :
    e.elements input weight b f oh ow = patchProduct .nchw e.problem input weight b f oh ow := by
  have hkeeps := Percentile.keeps_of_dropCount hdrop (filterRows e.problem weight) f
  rw [h.elements_sparse hplan, keptProduct_eq_rowProduct]
  · apply rowProduct_congr
    · intro i _
      rw [if_pos (hkeeps i)]
      rfl
    · intro i _
      rfl
  · intro i _ hdropped
    rw [hkeeps i] at hdropped
    cases hdropped

end

/-!
## Results
-/

/-- The direct loops and the dense multiply give the same bits.  With an inline border the weights
have to be finite, as the direct loops leave out products that the multiply computes. -/
theorem direct_result_eq_dense {directConfig denseConfig : ExecutorConfig} {tile₁ tile₂ : Nat}
    {e₁ e₂ : Executor Binary32} (h₁ : Reached directConfig tile₁ input weight e₁)
    (h₂ : Reached denseConfig tile₂ input weight e₂) (hdirect : directConfig.algorithm = .direct)
    (hdense : denseConfig.algorithm = .dense) (hlayout : directConfig.layout = denseConfig.layout)
    (hpadding : directConfig.padding = denseConfig.padding)
    (hfinite : directConfig.padding = .inline → ∀ x ∈ weight.data, x.isFinite = true)
    (first₁ second₁ first₂ second₂ : Schedule) :
    ∃ e₁' e₂' r, e₁.runPhases first₁ second₁ = .ok e₁' ∧ e₂.runPhases first₂ second₂ = .ok e₂' ∧
      e₁'.result = .ok r ∧ e₂'.result = .ok r := by
  have hbuilt₁ := h₁.builtFrom
  have hbuilt₂ := h₂.builtFrom
  have hproblem := hbuilt₁.accepts.problem_eq hbuilt₂.accepts rfl hpadding
  apply hbuilt₁.same_result hbuilt₂ hproblem
  intro b f _ oh hoh ow how
  rw [hbuilt₁.elements_direct hdirect hfinite hoh how, hbuilt₂.elements_dense hdense, hlayout,
    hproblem]

/-- The column of `1`, `∞`, `-0` and `NaN`. -/
def irregularInput : Tensor Binary32 where
  shape := ⟨[1, 1, 4, 1], [4, 4, 1, 1], 4, by decide, by decide, by decide⟩
  data := #[1, ⟨0x7f800000⟩, ⟨0x80000000⟩, ⟨0x7fc00000⟩]
  size_eq := rfl

/-- Two `3 × 3` filters: the rows `1 2 -0`, `-1 1 1` and `1 1 5`, and nine ones. -/
def mixedWeight : Tensor Binary32 where
  shape := ⟨[2, 1, 3, 3], [9, 9, 3, 1], 18, by decide, by decide, by decide⟩
  data := #[1, ⟨0x40000000⟩, ⟨0x80000000⟩, ⟨0xbf800000⟩, 1, 1, 1, 1, ⟨0x40a00000⟩,
    1, 1, 1, 1, 1, 1, 1, 1, 1]
  size_eq := rfl

theorem direct_result_eq_dense_irregular :
    ∃ e₁ e₂ e₁' e₂' r,
      create { ExecutorConfig.standard with padding := .inline } 1 irregularInput mixedWeight =
        .ok e₁ ∧
      create { ExecutorConfig.standard with padding := .inline, algorithm := .dense } 1
        irregularInput mixedWeight = .ok e₂ ∧
      e₁.runPhases .serial .serial = .ok e₁' ∧ e₂.runPhases .serial .serial = .ok e₂' ∧
      e₁'.result = .ok r ∧ e₂'.result = .ok r := by
  have h₁ : (create { ExecutorConfig.standard with padding := .inline } 1 irregularInput
      mixedWeight).isOk = true := by
    decide
  have h₂ : (create { ExecutorConfig.standard with padding := .inline, algorithm := .dense } 1
      irregularInput mixedWeight).isOk = true := by
    decide
  rcases exists_of_isOk h₁ with ⟨e₁, hcreate₁⟩
  rcases exists_of_isOk h₂ with ⟨e₂, hcreate₂⟩
  have hfinite : ∀ x ∈ mixedWeight.data, x.isFinite = true := by
    decide
  rcases direct_result_eq_dense (.create hcreate₁) (.create hcreate₂) rfl rfl rfl rfl
    (fun _ => hfinite) .serial .serial .serial .serial with
    ⟨e₁', e₂', r, hrun₁, hrun₂, hresult₁, hresult₂⟩
  exact ⟨e₁, e₂, e₁', e₂', r, hcreate₁, hcreate₂, hrun₁, hrun₂, hresult₁, hresult₂⟩

/-- What a dense executor computes for a pair of tensors, with any tile and in any order. -/
def DenseResult (config : ExecutorConfig) (input weight r : Tensor Binary32) : Prop :=
  ∀ (tile : Nat) (first second : Schedule), ∃ e e',
    create { config with algorithm := .dense } tile input weight = .ok e ∧
      e.runPhases first second = .ok e' ∧ e'.result = .ok r

theorem BuiltFrom.denseResult (h : BuiltFrom config denseTile input weight e)
    (hsparse : config.algorithm = .sparse) {weight' : Tensor Binary32}
    (hdims : weight'.dims = weight.dims)
    (helements : ∀ b f oh ow, f < e.problem.outChannels → e.elements input weight b f oh ow =
      patchProduct config.layout e.problem input weight' b f oh ow)
    {first second : Schedule} {e' : Executor Binary32} {r : Tensor Binary32}
    (hrun : e.runPhases first second = .ok e') (hresult : e'.result = .ok r) :
    DenseResult config input weight' r := by
  intro tile first₂ second₂
  rcases h.exists_dense hsparse hdims tile with ⟨e₂, hcreate⟩
  have h₂ := (create_builtFrom hcreate).1
  have hproblem := h.accepts.problem_eq h₂.accepts hdims.symm rfl
  have hsame : ∀ b, ∀ f < e.problem.outChannels, ∀ oh < e.problem.outRows,
      ∀ ow < e.problem.outCols,
        e.elements input weight b f oh ow = e₂.elements input weight' b f oh ow := by
    intro b f hf oh _ ow _
    rw [helements b f oh ow hf, h₂.elements_dense rfl, hproblem]
  rcases h.same_result h₂ hproblem hsame first second first₂ second₂ with
    ⟨e'', e₂', r', hrun', hrun₂, hresult', hresult₂⟩
  rw [hrun] at hrun'
  cases hrun'
  rw [hresult] at hresult'
  cases hresult'
  exact ⟨e₂, e₂', hcreate, hrun₂, hresult₂⟩

/-- The sparse variant gives the bits of the dense variant with the dense form of its weights if
the inputs are finite, and with the weight itself, for all inputs, if nothing is dropped. -/
theorem sparse_result_eq_dense (h : Reached config denseTile input weight e)
    (hsparse : config.algorithm = .sparse) (first second : Schedule) :
    ∃ buffer level csr e' r, e.plan = .sparse buffer level csr ∧
      e.runPhases first second = .ok e' ∧ e'.result = .ok r ∧
      (weight.data.size < Size.bufferLimit →
        ∃ pruned : Tensor Binary32, pruned.dims = weight.dims ∧ csr.toDense = .ok pruned.data) ∧
      ((∀ x ∈ input.data, x.isFinite = true) →
        ∀ pruned : Tensor Binary32, pruned.dims = weight.dims → csr.toDense = .ok pruned.data →
          DenseResult config input pruned r) ∧
      (level.dropCount e.problem.patchSize = 0 → DenseResult config input weight r) ∧
      (level.value.toRat = 0 → level.dropCount e.problem.patchSize = 0) := by
  have hbuilt := h.builtFrom
  have hfits := hbuilt.plan_fits
  rcases hfits.eq_sparse hsparse with ⟨buffer, level, csr, hplan⟩
  rw [hplan] at hfits
  have hl := hfits.2.1
  rcases hbuilt.result_of_runPhases first second with ⟨e', r, hrun, hresult, _, _⟩
  refine ⟨buffer, level, csr, e', r, hplan, hrun, hresult, hbuilt.exists_toDense hplan, ?_, ?_, ?_⟩
  · intro hfinite pruned hdims hdense
    apply hbuilt.denseResult hsparse hdims ?_ hrun hresult
    intro b f oh ow hf
    rw [hl]
    exact hbuilt.elements_pruned hplan hfinite hdims hdense hf b oh ow
  · intro hdrop
    apply hbuilt.denseResult hsparse rfl ?_ hrun hresult
    intro b f oh ow _
    rw [hl]
    exact hbuilt.elements_unpruned hplan hdrop b f oh ow
  · intro hzero
    exact Percentile.dropCount_zero hzero _

/-- The column of `1`, `1`, `-0` and `2`. -/
def finiteInput : Tensor Binary32 where
  shape := ⟨[1, 1, 4, 1], [4, 4, 1, 1], 4, by decide, by decide, by decide⟩
  data := #[1, 1, ⟨0x80000000⟩, ⟨0x40000000⟩]
  size_eq := rfl

theorem sparse_result_eq_dense_half :
    ∃ e e' r csr pruned,
      create { ExecutorConfig.standard with algorithm := .sparse, percentile := ⟨0x42480000⟩ } 1
        finiteInput mixedWeight = .ok e ∧
      e.sparseWeights = some csr ∧ csr.toDense = .ok pruned.data ∧
      e.runPhases .serial .serial = .ok e' ∧ e'.result = .ok r ∧
      DenseResult { ExecutorConfig.standard with
        algorithm := .sparse, percentile := ⟨0x42480000⟩ } finiteInput pruned r := by
  have hok : (create { ExecutorConfig.standard with
      algorithm := .sparse, percentile := ⟨0x42480000⟩ } 1 finiteInput mixedWeight).isOk = true := by
    decide +kernel
  rcases exists_of_isOk hok with ⟨e, hcreate⟩
  have hfinite : ∀ x ∈ finiteInput.data, x.isFinite = true := by
    decide
  rcases sparse_result_eq_dense (.create hcreate) rfl .serial .serial with
    ⟨buffer, level, csr, e', r, hplan, hrun, hresult, hdense, hequal, _⟩
  rcases hdense (by decide) with ⟨pruned, hdims, hpruned⟩
  refine ⟨e, e', r, csr, pruned, hcreate, ?_, hpruned, hrun, hresult, ?_⟩
  · rw [sparseWeights, hplan]
  · exact hequal hfinite pruned hdims hpruned

end Executor
end ConvSweep
