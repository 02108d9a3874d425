import Mathlib
import ConvSweep.Proofs.Executor.Acceptance
import ConvSweep.Proofs.Executor.Agreement
import ConvSweep.Proofs.Executor.Elements

/-!
# Planes of a convolution

Plane `(n, f)` of a result depends on batch element `n` of the input and on filter
`f` of the weight.  It is the only plane of the convolution of these two, and every
other convolution that has them in the same places shows the same plane, whatever
its other batch elements and filters are.
-/

namespace ConvSweep

open Loop

variable {α : Type}

/-!
## Parts of tensors
-/

/-- The shape of one part along the leading axis. -/
def Shape.single (shape : Shape) : Shape where
  dims := 1 :: shape.dims.tail
  strides := shape.strides
  total := shape.strides.headD 1
  dims_ne_nil := List.cons_ne_nil _ _
  dims_ne_zero := by
    have hzero := shape.dims_ne_zero
    cases hdims : shape.dims with
    | nil =>
        simp
    | cons d rest =>
        simp_all
  measured := by
    have hm := shape.measured
    cases hdims : shape.dims with
    | nil =>
        exact absurd hdims shape.dims_ne_nil
    | cons d rest =>
        have hd : d ≠ 0 := by
          intro hzero
          apply shape.dims_ne_zero
          simp [hdims, hzero]
        rw [hdims] at hm
        rcases measure?_cons hm with ⟨strides, size, hrest, hfits, hstrides, _⟩
        have hsize : Size.Fits size :=
          Nat.lt_of_le_of_lt (Nat.le_mul_of_pos_right size (Nat.pos_of_ne_zero hd)) hfits
        rw [hstrides]
        simp [measure?, hrest, Size.mul?, hsize]

namespace Tensor

variable [Zero α]

/-- Part `i` along the leading axis: one batch element, or one filter. -/
def part (t : Tensor α) (i : Nat) : Tensor α :=
  ofCells t.shape.single fun j => t.data.getD (i * t.shape.single.total + j) 0

variable {t : Tensor α} {d₀ d₁ d₂ d₃ i : Nat}

theorem dims_part (h : t.dims = [d₀, d₁, d₂, d₃]) : (t.part i).dims = [1, d₁, d₂, d₃] := by
  have hdims : t.shape.dims = [d₀, d₁, d₂, d₃] := h
  show 1 :: t.shape.dims.tail = _
  rw [hdims]
  rfl

theorem cell_part (h : t.dims = [d₀, d₁, d₂, d₃]) (hi : i < d₀) {b c d : Nat} (hb : b < d₁)
    (hc : c < d₂) (hd : d < d₃) : (t.part i).cell 0 b c d = t.cell i b c d := by
  have hdims : (t.part i).dims = [1, d₁, d₂, d₃] := dims_part h
  have hpart := holds_cell hdims
  have htotal : t.shape.single.total = d₁ * d₂ * d₃ := by
    have hquad : (t.part i).shape.total = 1 * d₁ * d₂ * d₃ := Shape.total_quad hdims
    rwa [Nat.one_mul] at hquad
  have hplace := rowMajor_lt Nat.zero_lt_one hb hc hd
  have hsource := (holds_cell h).getElem?_eq i hi b hb c hc d hd
  have hshift : i * t.shape.single.total + rowMajor d₁ d₂ d₃ 0 b c d =
      rowMajor d₁ d₂ d₃ i b c d := by
    rw [htotal, rowMajor, rowMajor]
    ring
  rw [Nat.one_mul, ← htotal] at hplace
  have hcell : (t.part i).data[rowMajor d₁ d₂ d₃ 0 b c d]? = some (t.cell i b c d) := by
    rw [← hshift] at hsource
    rw [part, ofCells]
    simp [hplace, hsource]
  rw [hpart.getElem?_eq 0 Nat.zero_lt_one b hb c hc d hd] at hcell
  exact Option.some.inj hcell

end Tensor
/-!
## Elements
-/

namespace Problem

theorem Within.refl (p : Problem) : p.Within p := by
  constructor <;> exact Nat.le_refl _

/-- One batch element and one filter of a problem. -/
def single (p : Problem) : Problem :=
  { p with batch := 1, outChannels := 1 }

theorem Admissible.single_within {p : Problem} (hp : p.Admissible) : p.single.Within p := by
  constructor
  · exact hp.batch_pos
  · exact Nat.le_refl p.inChannels
  · exact hp.outChannels_pos
  · exact Nat.le_refl p.kernel
  · exact Nat.le_refl p.inputRows
  · exact Nat.le_refl p.inputCols
  · exact Nat.le_refl p.outRows
  · exact Nat.le_refl p.outCols
  · exact Nat.le_refl p.border

end Problem

namespace Executor

section

variable [Zero α] {config : ExecutorConfig} {input weight : Tensor α} {p : Problem}

theorem Accepts.part (hp : Accepts config input weight p) (b f : Nat) :
    Accepts config (input.part b) (weight.part f) p.single where
  admissible :=
    ⟨Nat.zero_lt_one, hp.admissible.inChannels_pos, Nat.zero_lt_one, hp.admissible.height_pos,
      hp.admissible.width_pos, hp.admissible.odd, hp.admissible.fits⟩
  padding_eq := hp.padding_eq
  input_dims := Tensor.dims_part hp.input_dims
  weight_dims := Tensor.dims_part hp.weight_dims

omit [Zero α] in
theorem Accepts.of_dims (hp : Accepts config input weight p) {input' weight' : Tensor α}
    (hinput : input'.dims = input.dims) (hweight : weight'.dims = weight.dims) :
    Accepts config input' weight' p :=
  ⟨hp.admissible, hp.padding_eq, hinput.trans hp.input_dims, hweight.trans hp.weight_dims⟩

end

section

variable [Zero α] [One α] [Add α] [Mul α] [PruningOrder α] {config : ExecutorConfig}
  {denseTile₁ denseTile₂ : Nat} {input₁ input₂ weight₁ weight₂ : Tensor α} {e₁ e₂ : Executor α}
  {b₁ b₂ f₁ f₂ : Nat}

/-- The elements of a plane depend on its batch element and its filter. -/
theorem BuiltFrom.elements_eq_of_cells (h₁ : BuiltFrom config denseTile₁ input₁ weight₁ e₁)
    (h₂ : BuiltFrom config denseTile₂ input₂ weight₂ e₂) (hvariant : e₁.SameVariant e₂)
    (hproblem : e₁.problem.single = e₂.problem.single)
    (hinput : ∀ c < e₁.problem.inChannels, ∀ y < e₁.problem.height, ∀ z < e₁.problem.width,
      input₁.cell b₁ c y z = input₂.cell b₂ c y z)
    (hweight : ∀ t, e₁.problem.HasTap t → t.weight weight₁.cell f₁ = t.weight weight₂.cell f₂)
    (oh ow : Nat) :
    e₁.elements input₁ weight₁ b₁ f₁ oh ow = e₂.elements input₂ weight₂ b₂ f₂ oh ow := by
  have hview : ∀ c < e₁.problem.inChannels, ∀ y z,
      preparedView e₁.problem input₁ b₁ c y z = preparedView e₁.problem input₂ b₂ c y z := by
    intro c hc y z
    rw [preparedView, preparedView, Tensor.bordering, Tensor.bordering]
    by_cases hin : e₁.problem.border ≤ y ∧ y < e₁.problem.border + e₁.problem.height ∧
        e₁.problem.border ≤ z ∧ z < e₁.problem.border + e₁.problem.width
    · rw [if_pos hin, if_pos hin]
      exact hinput c hc _ (by omega) _ (by omega)
    · rw [if_neg hin, if_neg hin]
  have hsample : ∀ t, e₁.problem.HasTap t →
      e₁.problem.sample? (preparedView e₁.problem input₁) b₁ oh ow t =
        e₂.problem.sample? (preparedView e₂.problem input₂) b₂ oh ow t := by
    intro t ht
    -- neither side mentions the number of batch elements or of filters
    have hsingle : e₂.problem.sample? (preparedView e₂.problem input₂) b₂ oh ow t =
        e₂.problem.single.sample? (preparedView e₂.problem.single input₂) b₂ oh ow t := rfl
    rw [hsingle, ← hproblem]
    show _ = e₁.problem.sample? (preparedView e₁.problem input₂) b₂ oh ow t
    unfold Problem.sample?
    split
    · rw [hview _ ht.1]
    · rfl
  have hinChannels : e₁.problem.single.inChannels = e₂.problem.single.inChannels := by
    rw [hproblem]
  have hkernel : e₁.problem.single.kernel = e₂.problem.single.kernel := by
    rw [hproblem]
  apply h₁.elements_eq h₂ hvariant
  · exact ⟨hinChannels, hkernel⟩
  · exact hweight
  · intro _
    exact hsample
  · intro _ t ht
    rw [hsample t ht]

end

/-!
## Convolutions
-/

section

variable [Zero α] [One α] [Add α] [Mul α] [BEq α] [ZeroTest α] [PruningOrder α]
  {config : ExecutorConfig} {input weight : Tensor α} {e : Executor α}

/-- A convolution whose operands are accepted succeeds and shows the elements. -/
theorem conv2d_ok (h : create config DenseMultiply.standardTile input weight = .ok e) :
    ∃ r, conv2d config input weight = .ok r ∧
      r.dims = [e.problem.batch, e.problem.outChannels, e.problem.outRows, e.problem.outCols] ∧
      Holds r.data e.problem.batch e.problem.outChannels e.problem.outRows e.problem.outCols
        (e.elements input weight) := by
  have hbuilt := (create_builtFrom h).1
  rcases hbuilt.result_of_runPhases .serial .serial with ⟨e', r, hrun, hresult, hdims, hholds⟩
  refine ⟨r, ?_, hdims, hholds⟩
  have hrun' : e.run .serial = .ok e' := hrun
  rw [conv2d, h, ok_bind, hrun', ok_bind, hresult]

/-- Two convolutions show the same plane where their batch elements and their filters agree. -/
theorem conv2d_same_plane {input₁ input₂ weight₁ weight₂ r₁ r₂ : Tensor α} {e₁ e₂ : Executor α}
    {b₁ b₂ f₁ f₂ : Nat} (h₁ : create config DenseMultiply.standardTile input₁ weight₁ = .ok e₁)
    (h₂ : create config DenseMultiply.standardTile input₂ weight₂ = .ok e₂)
    (hproblem : e₁.problem.single = e₂.problem.single)
    (hinput : ∀ c < e₁.problem.inChannels, ∀ y < e₁.problem.height, ∀ z < e₁.problem.width,
      input₁.cell b₁ c y z = input₂.cell b₂ c y z)
    (hweight : ∀ t, e₁.problem.HasTap t → t.weight weight₁.cell f₁ = t.weight weight₂.cell f₂)
    (hb₁ : b₁ < e₁.problem.batch) (hf₁ : f₁ < e₁.problem.outChannels)
    (hb₂ : b₂ < e₂.problem.batch) (hf₂ : f₂ < e₂.problem.outChannels)
    (hr₁ : conv2d config input₁ weight₁ = .ok r₁) (hr₂ : conv2d config input₂ weight₂ = .ok r₂) :
    ∀ oh < e₁.problem.outRows, ∀ ow < e₁.problem.outCols, ∃ x,
      r₁.get [b₁, f₁, oh, ow] = .ok x ∧ r₂.get [b₂, f₂, oh, ow] = .ok x := by
  intro oh hoh ow how
  rcases conv2d_ok h₁ with ⟨r, hr, hdims₁, hholds₁⟩
  rw [hr₁] at hr
  cases hr
  rcases conv2d_ok h₂ with ⟨r, hr, hdims₂, hholds₂⟩
  rw [hr₂] at hr
  cases hr
  have helements := (create_builtFrom h₁).1.elements_eq_of_cells (create_builtFrom h₂).1
    (sameVariant_of_create h₁ h₂ rfl rfl rfl) hproblem hinput hweight oh ow
  have hrows : e₁.problem.single.outRows = e₂.problem.single.outRows := by
    rw [hproblem]
  have hcols : e₁.problem.single.outCols = e₂.problem.single.outCols := by
    rw [hproblem]
  refine ⟨e₁.elements input₁ weight₁ b₁ f₁ oh ow, ?_, ?_⟩
  · exact Tensor.get_of_holds hdims₁ hholds₁ hb₁ hf₁ hoh how
  · rw [helements]
    apply Tensor.get_of_holds hdims₂ hholds₂ hb₂ hf₂
    · exact hrows ▸ hoh
    · exact hcols ▸ how

/-- Plane `(b, g)` of a convolution is the plane of the convolution of batch element `b` with filter
`g`.  Convolutions of equal extents that have the two in common have the plane in common. -/
theorem conv2d_plane_eq {n c height width f k b g : Nat}
    (h : create config DenseMultiply.standardTile input weight = .ok e)
    (hinput : input.dims = [n, c, height, width]) (hweight : weight.dims = [f, c, k, k])
    (hb : b < n) (hg : g < f) :
    ∃ r part, conv2d config input weight = .ok r ∧
      conv2d config (input.part b) (weight.part g) = .ok part ∧
      r.dims = [n, f, e.problem.outRows, e.problem.outCols] ∧
      part.dims = [1, 1, e.problem.outRows, e.problem.outCols] ∧
      (∀ oh < e.problem.outRows, ∀ ow < e.problem.outCols, ∃ x,
        r.get [b, g, oh, ow] = .ok x ∧ part.get [0, 0, oh, ow] = .ok x) ∧
      ∀ input' weight' : Tensor α, input'.dims = input.dims → weight'.dims = weight.dims →
        input'.part b = input.part b → weight'.part g = weight.part g →
        ∃ r', conv2d config input' weight' = .ok r' ∧ r'.dims = r.dims ∧
          ∀ oh < e.problem.outRows, ∀ ow < e.problem.outCols, ∃ x,
            r.get [b, g, oh, ow] = .ok x ∧ r'.get [b, g, oh, ow] = .ok x := by
  have hp := (create_builtFrom h).1.accepts
  rcases hp.extents hinput hweight with ⟨rfl, rfl, rfl, rfl, rfl, rfl⟩
  rcases conv2d_ok h with ⟨r, hr, hdims, _⟩
  rcases (hp.part b g).exists_create_within h hp.admissible.single_within rfl rfl rfl
    DenseMultiply.standardTile with ⟨e₁, h₁⟩
  have hproblem₁ : e₁.problem = e.problem.single :=
    (create_builtFrom h₁).1.accepts.problem_eq (hp.part b g) rfl rfl
  rcases conv2d_ok h₁ with ⟨part, hpart, hdims₁, _⟩
  rw [hproblem₁] at hdims₁
  refine ⟨r, part, hr, hpart, hdims, hdims₁, ?_, ?_⟩
  · refine conv2d_same_plane h h₁ ?_ ?_ ?_ hb hg ?_ ?_ hr hpart
    · rw [hproblem₁]
      rfl
    · intro c hc y hy z hz
      exact (Tensor.cell_part hinput hb hc hy hz).symm
    · rintro t ⟨hchannel, hrow, hcol⟩
      exact (Tensor.cell_part hweight hg hchannel hrow hcol).symm
    · rw [hproblem₁]
      exact Nat.zero_lt_one
    · rw [hproblem₁]
      exact Nat.zero_lt_one
  · intro input' weight' hinput' hweight' hbatch hfilter
    rcases (hp.of_dims hinput' hweight').exists_create_within h (.refl _) rfl rfl rfl
      DenseMultiply.standardTile with ⟨e₂, h₂⟩
    have hproblem₂ : e₂.problem = e.problem :=
      (create_builtFrom h₂).1.accepts.problem_eq (hp.of_dims hinput' hweight') rfl rfl
    rcases conv2d_ok h₂ with ⟨r', hr', hdims₂, _⟩
    rw [hproblem₂] at hdims₂
    refine ⟨r', hr', hdims₂.trans hdims.symm, ?_⟩
    refine conv2d_same_plane h h₂ ?_ ?_ ?_ hb hg ?_ ?_ hr hr'
    · rw [hproblem₂]
    · intro c hc y hy z hz
      rw [← Tensor.cell_part hinput hb hc hy hz, ← hbatch,
        Tensor.cell_part (hinput'.trans hinput) hb hc hy hz]
    · rintro t ⟨hchannel, hrow, hcol⟩
      show weight.cell g t.channel t.row t.col = weight'.cell g t.channel t.row t.col
      rw [← Tensor.cell_part hweight hg hchannel hrow hcol, ← hfilter,
        Tensor.cell_part (hweight'.trans hweight) hg hchannel hrow hcol]
    · rw [hproblem₂]
      exact hb
    · rw [hproblem₂]
      exact hg

/-- Two columns: `1 ∞ -0 NaN` and `1 1 -0 2`. -/
def columnPair : Tensor Binary32 where
  shape := ⟨[2, 1, 4, 1], [4, 4, 1, 1], 8, by decide, by decide, by decide⟩
  data := irregularInput.data ++ finiteInput.data
  size_eq := rfl

theorem conv2d_plane_eq_half :
    ∃ r part, conv2d { ExecutorConfig.standard with
        algorithm := .sparse, percentile := ⟨0x42480000⟩ } columnPair mixedWeight = .ok r ∧
      conv2d { ExecutorConfig.standard with algorithm := .sparse, percentile := ⟨0x42480000⟩ }
        (columnPair.part 1) (mixedWeight.part 0) = .ok part ∧
      ∃ x, r.get [1, 0, 3, 0] = .ok x ∧ part.get [0, 0, 3, 0] = .ok x := by
  have hok : (create { ExecutorConfig.standard with
      algorithm := .sparse, percentile := ⟨0x42480000⟩ } DenseMultiply.standardTile columnPair
        mixedWeight).isOk = true := by
    decide +kernel
  rcases exists_of_isOk hok with ⟨e, hcreate⟩
  have haccepts := (create_builtFrom hcreate).1.accepts
  rcases haccepts.extents rfl rfl with ⟨_, _, hheight, hwidth, _, _⟩
  rcases conv2d_plane_eq hcreate rfl rfl (b := 1) (g := 0) (by decide) (by decide) with
    ⟨r, part, hr, hpart, _, _, hplane, _⟩
  refine ⟨r, part, hr, hpart, hplane 3 ?_ 0 ?_⟩
  · rw [Problem.outRows, haccepts.padding_eq]
    show 3 < e.problem.height
    rw [hheight]
    decide
  · rw [Problem.outCols, haccepts.padding_eq]
    show 0 < e.problem.width
    rw [hwidth]
    decide

end

end Executor
end ConvSweep
