import Mathlib
import ConvSweep.Proofs.Executor.Settled

/-!
# Executors compute convolutions

Over a commutative ring the order of additions does not matter and a product with
zero adds nothing.  Then every variant, with every treatment of the border,
computes the same sums over channels, kernel rows and kernel columns.  The sparse
variant computes them with the dense form of its pruned weights.
-/

namespace ConvSweep

open Finset Loop

/-!
## Convolutions
-/

/-- How far the first tap of an output position lies before that position. -/
def Padding.shift (padding : Padding) (kernel : Nat) : Nat :=
  match padding with
  | .valid => 0
  | .prepad | .inline => (kernel - 1) / 2

def Padding.outExtent (padding : Padding) (extent kernel : Nat) : Nat :=
  match padding with
  | .valid => extent - kernel + 1
  | .prepad | .inline => extent

section

variable {R : Type} [CommRing R]

/-- The input at integer coordinates, zero outside of its planes. -/
def zeroExtended (height width : Nat) (x : Nat → Nat → Nat → Nat → R) (n c : Nat) (i j : Int) : R :=
  if 0 ≤ i ∧ i < height ∧ 0 ≤ j ∧ j < width then x n c i.toNat j.toNat else 0

/-- The convolution of an input and a weight at one output position. -/
def convolution (padding : Padding) (channels height width kernel : Nat)
    (x w : Nat → Nat → Nat → Nat → R) (n f oh ow : Nat) : R :=
  ∑ c ∈ range channels, ∑ kh ∈ range kernel, ∑ kw ∈ range kernel,
    zeroExtended height width x n c (oh + kh - padding.shift kernel : Int)
      (ow + kw - padding.shift kernel : Int) * w f c kh kw

/-!
## Folds as sums
-/

/-- A sum over the numbered taps is a sum over channels, rows and columns. -/
theorem sum_taps (p : Problem) (layout : Layout) (g : Tap → R) :
    ∑ i ∈ range p.patchSize, g (p.tapAt layout i) =
      ∑ c ∈ range p.inChannels, ∑ kh ∈ range p.kernel, ∑ kw ∈ range p.kernel, g ⟨c, kh, kw⟩ := by
  cases layout with
  | nchw =>
      have hfold := p.foldl_taps_nchw (fun acc t => acc + g t) 0
      simp only [foldl_add_eq_sum, zero_add] at hfold
      exact hfold.symm
  | nhwc =>
      have hfold := p.foldl_taps_nhwc (fun acc t => acc + g t) 0
      simp only [foldl_add_eq_sum, zero_add] at hfold
      rw [← hfold]
      -- the channel is the innermost loop here and moves outwards past both others
      calc
        ∑ kh ∈ range p.kernel, ∑ kw ∈ range p.kernel, ∑ c ∈ range p.inChannels, g ⟨c, kh, kw⟩ =
            ∑ kh ∈ range p.kernel, ∑ c ∈ range p.inChannels, ∑ kw ∈ range p.kernel,
              g ⟨c, kh, kw⟩ := by
          apply sum_congr rfl
          intro kh _
          rw [sum_comm]
        _ = ∑ c ∈ range p.inChannels, ∑ kh ∈ range p.kernel, ∑ kw ∈ range p.kernel,
              g ⟨c, kh, kw⟩ := by
          rw [sum_comm]

namespace Problem

variable {p : Problem} {x w : Nat → Nat → Nat → Nat → R} {b f oh ow : Nat}

/-- A left-out tap counts as a product with zero. -/
theorem addProduct_eq (acc : R) (t : Tap) :
    p.addProduct x w b f oh ow acc t =
      acc + (p.sample? x b oh ow t).getD 0 * t.weight w f := by
  cases hsample : p.sample? x b oh ow t with
  | none =>
      rw [addProduct_of_none hsample, Option.getD_none, zero_mul, add_zero]
  | some v =>
      rw [addProduct_of_some hsample, Option.getD_some]

theorem directSum_eq_sum (layout : Layout) :
    p.directSum layout x w b f oh ow =
      ∑ i ∈ range p.patchSize, p.patch layout x b oh ow i * (p.tapAt layout i).weight w f := by
  rw [directSum]
  simp only [addProduct_eq]
  rw [foldl_add_eq_sum, zero_add]
  rfl

end Problem

theorem rowProduct_eq_sum (length : Nat) (u v : Nat → R) :
    rowProduct length u v = ∑ i ∈ range length, u i * v i := by
  rw [rowProduct, foldl_add_eq_sum, zero_add]

theorem keptProduct_eq_sum (length : Nat) (keep : Nat → Bool) (u v : Nat → R) :
    keptProduct length keep u v =
      ∑ i ∈ range length, (if keep i then u i else 0) * v i := by
  have hstep : ∀ (acc : R) (i : Nat), (if keep i then acc + 1 * u i * v i else acc) =
      acc + (if keep i then u i else 0) * v i := by
    intro acc i
    by_cases hkeep : keep i = true
    · rw [if_pos hkeep, if_pos hkeep, one_mul]
    · rw [if_neg hkeep, if_neg hkeep, zero_mul, add_zero]
  rw [keptProduct]
  simp only [hstep]
  rw [foldl_add_eq_sum, zero_add]

/-!
## Elements as convolutions
-/

section

variable {p : Problem} {x w : Nat → Nat → Nat → Nat → R}

theorem reach_eq_shift (p : Problem) : p.reach = p.padding.shift p.kernel := by
  unfold Problem.reach Problem.border Problem.halo Padding.shift
  cases p.padding with
  | prepad =>
      rfl
  | inline =>
      exact Nat.zero_add _
  | valid =>
      rfl

/-- A border is a shift of the coordinates. -/
theorem bordering_eq_zeroExtended (pad height width : Nat) (n c y z : Nat) :
    Tensor.bordering pad height width x n c y z =
      zeroExtended height width x n c (y - pad : Int) (z - pad : Int) := by
  rw [Tensor.bordering, zeroExtended]
  by_cases hin : pad ≤ y ∧ y < pad + height ∧ pad ≤ z ∧ z < pad + width
  · have hy : ((y : Int) - pad).toNat = y - pad := by omega
    have hz : ((z : Int) - pad).toNat = z - pad := by omega
    rw [if_pos hin, if_pos (by omega), hy, hz]
  · rw [if_neg hin, if_neg (by omega)]

/-- The sum over the numbered taps of the prepared input is the convolution of the input. -/
theorem sum_patch_eq_convolution (p : Problem) (layout : Layout)
    (x w : Nat → Nat → Nat → Nat → R) (b f oh ow : Nat) :
    ∑ i ∈ range p.patchSize,
        p.patch layout (Tensor.bordering p.border p.height p.width x) b oh ow i *
          (p.tapAt layout i).weight w f =
      convolution p.padding p.inChannels p.height p.width p.kernel x w b f oh ow := by
  have hsum := sum_taps p layout fun t =>
    (p.sample? (Tensor.bordering p.border p.height p.width x) b oh ow t).getD 0 * t.weight w f
  have hpatch : ∀ i, p.patch layout (Tensor.bordering p.border p.height p.width x) b oh ow i =
      (p.sample? (Tensor.bordering p.border p.height p.width x) b oh ow
        (p.tapAt layout i)).getD 0 :=
    fun _ => rfl
  simp only [hpatch]
  rw [hsum, convolution]
  apply sum_congr rfl
  intro c _
  apply sum_congr rfl
  intro kh _
  apply sum_congr rfl
  intro kw _
  rw [Problem.sample?_bordering, bordering_eq_zeroExtended, reach_eq_shift, Tap.weight]
  push_cast
  rfl

theorem element_eq_convolution [PruningOrder R] {plan : Plan R} (hplan : plan.percentile? = none)
    (layout : Layout) (b f oh ow : Nat) :
    plan.element layout p (Tensor.bordering p.border p.height p.width x) w
        (p.patch layout (Tensor.bordering p.border p.height p.width x)) b f oh ow =
      convolution p.padding p.inChannels p.height p.width p.kernel x w b f oh ow := by
  rw [← sum_patch_eq_convolution p layout]
  cases plan with
  | direct =>
      exact Problem.directSum_eq_sum layout
  | dense buffer =>
      cases layout with
      | nchw =>
          show 1 * rowProduct _ _ _ = _
          rw [one_mul, rowProduct_eq_sum]
          apply sum_congr rfl
          intro i _
          rw [mul_comm]
      | nhwc =>
          show 1 * rowProduct _ _ _ = _
          rw [one_mul, rowProduct_eq_sum]
  | sparse buffer level csr =>
      cases hplan

theorem outRows_eq (p : Problem) : p.outRows = p.padding.outExtent p.height p.kernel := by
  unfold Problem.outRows Padding.outExtent
  cases p.padding <;> rfl

theorem outCols_eq (p : Problem) : p.outCols = p.padding.outExtent p.width p.kernel := by
  unfold Problem.outCols Padding.outExtent
  cases p.padding <;> rfl

end

/-!
## Results
-/

/-- The tensor has the extents of an output and shows the convolution everywhere. -/
structure ShowsConvolution (padding : Padding) (n c h w f k : Nat)
    (x y : Nat → Nat → Nat → Nat → R) (r : Tensor R) : Prop where
  dims_eq : r.dims = [n, f, padding.outExtent h k, padding.outExtent w k]
  get_eq : ∀ i < n, ∀ j < f, ∀ oh < padding.outExtent h k, ∀ ow < padding.outExtent w k,
    r.get [i, j, oh, ow] = .ok (convolution padding c h w k x y i j oh ow)

theorem ShowsConvolution.unique {padding : Padding} {n c h w f k : Nat}
    {x y : Nat → Nat → Nat → Nat → R} {r s : Tensor R}
    (hr : ShowsConvolution padding n c h w f k x y r)
    (hs : ShowsConvolution padding n c h w f k x y s) : r = s := by
  apply Tensor.ext_data
  · rw [hr.dims_eq, hs.dims_eq]
  · apply (Tensor.holds_cell hr.dims_eq).unique (Tensor.holds_cell hs.dims_eq)
    intro i hi j hj oh hoh ow how
    rw [Tensor.cell, Tensor.cell, hr.get_eq i hi j hj oh hoh ow how,
      hs.get_eq i hi j hj oh hoh ow how]

namespace Executor

variable [PruningOrder R] {config : ExecutorConfig} {denseTile : Nat} {input weight : Tensor R}
  {e : Executor R}

theorem BuiltFrom.elements_eq_convolution (h : BuiltFrom config denseTile input weight e)
    (halgorithm : config.algorithm ≠ .sparse) (b f oh ow : Nat) :
    e.elements input weight b f oh ow =
      convolution config.padding e.problem.inChannels e.problem.height e.problem.width
        e.problem.kernel input.cell weight.cell b f oh ow := by
  rw [← h.accepts.padding_eq]
  have hnone := h.plan_fits.percentile?_eq_none halgorithm
  exact element_eq_convolution hnone e.config.layout b f oh ow

/-- The sparse variant computes the convolution with the dense form of its weights. -/
theorem BuiltFrom.elements_eq_pruned (h : BuiltFrom config denseTile input weight e)
    {buffer : PatchBuffer R} {level : Percentile} {csr : CsrMatrix R}
    (hplan : e.plan = .sparse buffer level csr) {pruned : Tensor R}
    (hdims : pruned.dims = weight.dims) (hdense : csr.toDense = .ok pruned.data) {f : Nat}
    (hf : f < e.problem.outChannels) (b oh ow : Nat) :
    e.elements input weight b f oh ow =
      convolution config.padding e.problem.inChannels e.problem.height e.problem.width
        e.problem.kernel input.cell pruned.cell b f oh ow := by
  have hfits := h.plan_fits
  rw [hplan] at hfits
  have hl : e.config.layout = .nchw := by
    rw [h.config_eq]
    exact hfits.2.1
  rw [← h.accepts.padding_eq, ← sum_patch_eq_convolution e.problem .nchw, elements, hplan, hl]
  show keptProduct _ _ (filterRows e.problem weight f) _ = _
  rw [keptProduct_eq_sum]
  apply sum_congr rfl
  intro i hi
  have hmasked := h.masked_eq hplan hdims hdense hf (mem_range.mp hi)
  rw [mul_comm]
  exact congrArg _ hmasked

theorem BuiltFrom.showsConvolution (h : BuiltFrom config denseTile input weight e)
    {y : Nat → Nat → Nat → Nat → R} {r : Tensor R}
    (hdims : r.dims = [e.problem.batch, e.problem.outChannels, e.problem.outRows,
      e.problem.outCols])
    (hholds : Holds r.data e.problem.batch e.problem.outChannels e.problem.outRows
      e.problem.outCols (e.elements input weight))
    (hy : ∀ b f oh ow, f < e.problem.outChannels → e.elements input weight b f oh ow =
      convolution config.padding e.problem.inChannels e.problem.height e.problem.width
        e.problem.kernel input.cell y b f oh ow) :
    ShowsConvolution config.padding e.problem.batch e.problem.inChannels e.problem.height
      e.problem.width e.problem.outChannels e.problem.kernel input.cell y r := by
  have hpadding := h.accepts.padding_eq
  constructor
  · rw [hdims, outRows_eq, outCols_eq, hpadding]
  · intro b hb f hf oh hoh ow how
    rw [← hpadding, ← outRows_eq] at hoh
    rw [← hpadding, ← outCols_eq] at how
    rw [Tensor.get_of_holds hdims hholds hb hf hoh how, hy b f oh ow hf]

variable [BEq R] [ReflBEq R] {n c h w f k : Nat}

/-- The result of a dense variant in any state that it can be in. -/
theorem Reached.dense_result (hinput : input.dims = [n, c, h, w])
    (hweight : weight.dims = [f, c, k, k]) (he : Reached config denseTile input weight e)
    (halgorithm : config.algorithm ≠ .sparse) (first second : Schedule) :
    ∃ e' r, e.runPhases first second = .ok e' ∧ e'.result = .ok r ∧
      ShowsConvolution config.padding n c h w f k input.cell weight.cell r := by
  have hbuilt := he.builtFrom
  rcases hbuilt.accepts.extents hinput hweight with ⟨rfl, rfl, rfl, rfl, rfl, rfl⟩
  rcases hbuilt.result_of_runPhases first second with ⟨e', r, hrun, hresult, hdims, hholds⟩
  refine ⟨e', r, hrun, hresult, hbuilt.showsConvolution hdims hholds ?_⟩
  intro b f oh ow _
  exact hbuilt.elements_eq_convolution halgorithm b f oh ow

/-- The result of the sparse variant in any state that it can be in. -/
theorem Reached.sparse_result (hinput : input.dims = [n, c, h, w])
    (hweight : weight.dims = [f, c, k, k]) (he : Reached config denseTile input weight e)
    (halgorithm : config.algorithm = .sparse) (first second : Schedule) :
    ∃ e' r csr, e.runPhases first second = .ok e' ∧ e'.result = .ok r ∧
      r.dims = [n, f, config.padding.outExtent h k, config.padding.outExtent w k] ∧
      e.sparseWeights = some csr ∧
      (weight.data.size < Size.bufferLimit →
        ∃ pruned : Tensor R, pruned.dims = weight.dims ∧ csr.toDense = .ok pruned.data) ∧
      ∀ pruned : Tensor R, pruned.dims = weight.dims → csr.toDense = .ok pruned.data →
        ShowsConvolution config.padding n c h w f k input.cell pruned.cell r := by
  have hbuilt := he.builtFrom
  have hpadding := hbuilt.accepts.padding_eq
  rcases hbuilt.accepts.extents hinput hweight with ⟨rfl, rfl, rfl, rfl, rfl, rfl⟩
  rcases hbuilt.result_of_runPhases first second with ⟨e', r, hrun, hresult, hdims, hholds⟩
  rcases hbuilt.plan_fits.eq_sparse halgorithm with ⟨buffer, level, csr, hplan⟩
  refine ⟨e', r, csr, hrun, hresult, ?_, ?_, hbuilt.exists_toDense hplan, ?_⟩
  · rw [hdims, outRows_eq, outCols_eq, hpadding]
  · rw [sparseWeights, hplan]
  · intro pruned hpruned hdense
    apply hbuilt.showsConvolution hdims hholds
    intro b f oh ow hf
    exact hbuilt.elements_eq_pruned hplan hpruned hdense hf b oh ow

/-- In every state that an executor can reach, both phases and the result succeed.  The result of
a dense variant is the convolution of the input and the weight, hence the same for all of them;
the result of the sparse variant is the convolution with the dense form of its pruned weights. -/
theorem reached_result_eq_convolution (hinput : input.dims = [n, c, h, w])
    (hweight : weight.dims = [f, c, k, k]) (he : Reached config denseTile input weight e)
    (first second : Schedule) :
    ∃ e' r, e.runPhases first second = .ok e' ∧ e'.result = .ok r ∧
      r.dims = [n, f, config.padding.outExtent h k, config.padding.outExtent w k] ∧
      (config.algorithm ≠ .sparse →
        ShowsConvolution config.padding n c h w f k input.cell weight.cell r) ∧
      (config.algorithm = .sparse → ∃ csr, e.sparseWeights = some csr ∧
        (weight.data.size < Size.bufferLimit →
          ∃ pruned : Tensor R, pruned.dims = weight.dims ∧ csr.toDense = .ok pruned.data) ∧
        ∀ pruned : Tensor R, pruned.dims = weight.dims → csr.toDense = .ok pruned.data →
          ShowsConvolution config.padding n c h w f k input.cell pruned.cell r) ∧
      (config.algorithm ≠ .sparse → ∀ (config₂ : ExecutorConfig) (denseTile₂ : Nat)
        (e₂ : Executor R) (first₂ second₂ : Schedule), config₂.algorithm ≠ .sparse →
          config₂.padding = config.padding → Reached config₂ denseTile₂ input weight e₂ →
          ∃ e₂', e₂.runPhases first₂ second₂ = .ok e₂' ∧ e₂'.result = .ok r) := by
  by_cases halgorithm : config.algorithm = .sparse
  · rcases he.sparse_result hinput hweight halgorithm first second with
      ⟨e', r, csr, hrun, hresult, hdims, hcsr, hdense, hshows⟩
    refine ⟨e', r, hrun, hresult, hdims, ?_, ?_, ?_⟩
    · intro hne
      exact absurd halgorithm hne
    · intro _
      exact ⟨csr, hcsr, hdense, hshows⟩
    · intro hne
      exact absurd halgorithm hne
  · rcases he.dense_result hinput hweight halgorithm first second with
      ⟨e', r, hrun, hresult, hshows⟩
    refine ⟨e', r, hrun, hresult, hshows.dims_eq, ?_, ?_, ?_⟩
    · intro _
      exact hshows
    · intro hsparse
      exact absurd hsparse halgorithm
    · intro _ config₂ denseTile₂ e₂ first₂ second₂ halgorithm₂ hpadding he₂
      rcases he₂.dense_result hinput hweight halgorithm₂ first₂ second₂ with
        ⟨e₂', r₂, hrun₂, hresult₂, hshows₂⟩
      rw [hpadding] at hshows₂
      rw [hshows₂.unique hshows] at hresult₂
      exact ⟨e₂', hrun₂, hresult₂⟩

end Executor
end

/-!
## A result over the integers
-/

instance : PruningOrder Int where
  ranksBefore x y := x ≤ y
  exceeds x y := y < x

namespace Executor

/-- The `2 × 2` plane with rows `1 2` and `3 4`. -/
def countingInput : Tensor Int where
  shape := ⟨[1, 1, 2, 2], [4, 4, 2, 1], 4, by decide, by decide, by decide⟩
  data := #[1, 2, 3, 4]
  size_eq := rfl

/-- The `3 × 3` kernel with rows `1 2 3`, `4 5 6` and `7 8 9`. -/
def countingWeight : Tensor Int where
  shape := ⟨[1, 1, 3, 3], [9, 9, 3, 1], 9, by decide, by decide, by decide⟩
  data := #[1, 2, 3, 4, 5, 6, 7, 8, 9]
  size_eq := rfl

/-- At the corner five taps lie outside, the others give `1 * 5 + 2 * 6 + 3 * 8 + 4 * 9`. -/
theorem counting_result_corner :
    ∃ e e' r, create { ExecutorConfig.standard with padding := .inline, tile := ⟨0, 0⟩ } 4
        countingInput countingWeight = .ok e ∧
      e.runPhases .serial .serial = .ok e' ∧ e'.result = .ok r ∧ r.dims = [1, 1, 2, 2] ∧
      r.get [0, 0, 0, 0] = .ok 77 := by
  have hok : (create { ExecutorConfig.standard with padding := .inline, tile := ⟨0, 0⟩ } 4
      countingInput countingWeight).isOk = true := by
    decide
  rcases exists_of_isOk hok with ⟨e, hcreate⟩
  rcases reached_result_eq_convolution (n := 1) (c := 1) (h := 2) (w := 2) (f := 1) (k := 3) rfl
    rfl (.create hcreate) .serial .serial with ⟨e', r, hrun, hresult, hdims, hshows, _⟩
  refine ⟨e, e', r, hcreate, hrun, hresult, hdims, ?_⟩
  rw [(hshows (by decide)).get_eq 0 (by decide) 0 (by decide) 0 (by decide) 0 (by decide)]
  decide

end Executor
end ConvSweep
