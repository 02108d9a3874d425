import Mathlib
import ConvSweep.Proofs.Executor.Acceptance
import ConvSweep.Proofs.Executor.Agreement
import ConvSweep.Proofs.Executor.Elements

/-!
# Treatments of the border

Behind a written border and behind an inline border an output position has the same
patch: the input around the position, zero outside of it.  The scratch buffers of
the two are therefore equal, and so are the results; the direct loops leave taps out
instead, which finite weights hide.  Where the whole kernel lies within the input the
border is not read at all, so a result without a border is the inner part of a result
with one.
-/

namespace ConvSweep

open Loop

variable {α : Type}

/-!
## Problems that differ in the border
-/

namespace Problem

theorem reach_of_ne_valid {p : Problem} (h : p.padding ≠ .valid) : p.reach = p.halfKernel := by
  cases hp : p.padding with
  | prepad =>
      simp [reach, border, halo, hp]
  | inline =>
      simp [reach, border, halo, hp]
  | valid =>
      exact absurd hp h

theorem reach_of_valid {p : Problem} (h : p.padding = .valid) : p.reach = 0 := by
  simp [reach, border, halo, h]

theorem outRows_of_ne_valid {p : Problem} (h : p.padding ≠ .valid) : p.outRows = p.height := by
  cases hp : p.padding with
  | prepad =>
      simp [outRows, hp]
  | inline =>
      simp [outRows, hp]
  | valid =>
      exact absurd hp h

theorem outCols_of_ne_valid {p : Problem} (h : p.padding ≠ .valid) : p.outCols = p.width := by
  cases hp : p.padding with
  | prepad =>
      simp [outCols, hp]
  | inline =>
      simp [outCols, hp]
  | valid =>
      exact absurd hp h

/-- Without a written border a problem needs no more memory than with any border. -/
theorem Admissible.within {p : Problem} (hp : p.Admissible) (hne : p.padding ≠ .valid)
    {padding : Padding} (hpadding : padding ≠ .prepad) : { p with padding }.Within p := by
  have hkernel := hp.expandable.kernel_pos
  have hheight := hp.height_pos
  have hwidth := hp.width_pos
  have hborder : { p with padding }.border = 0 := by
    cases padding with
    | prepad =>
        exact absurd rfl hpadding
    | inline =>
        rfl
    | valid =>
        rfl
  constructor
  · exact Nat.le_refl p.batch
  · exact Nat.le_refl p.inChannels
  · exact Nat.le_refl p.outChannels
  · exact Nat.le_refl p.kernel
  · simp [inputRows, hborder]
  · simp [inputCols, hborder]
  · rw [outRows_of_ne_valid hne]
    cases padding <;> simp only [outRows] <;> omega
  · rw [outCols_of_ne_valid hne]
    cases padding <;> simp only [outCols] <;> omega
  · simp [hborder]

/-- Two problems whose output positions have the same patches in one input. -/
structure SamePatches (p q : Problem) : Prop extends SameTaps p q where
  batch_eq : p.batch = q.batch
  height_eq : p.height = q.height
  width_eq : p.width = q.width
  outRows_eq : p.outRows = q.outRows
  outCols_eq : p.outCols = q.outCols
  reach_eq : p.reach = q.reach

/-- The padding does not show in the patches as long as there is a border. -/
theorem samePatches_with_padding {p : Problem} (h : p.padding ≠ .valid) {padding : Padding}
    (h' : padding ≠ .valid) : p.SamePatches { p with padding } where
  inChannels_eq := rfl
  kernel_eq := rfl
  batch_eq := rfl
  height_eq := rfl
  width_eq := rfl
  outRows_eq := by
    rw [outRows_of_ne_valid h, outRows_of_ne_valid h']
  outCols_eq := by
    rw [outCols_of_ne_valid h, outCols_of_ne_valid h']
  reach_eq := by
    rw [reach_of_ne_valid h, reach_of_ne_valid h']
    rfl

variable [Zero α] {p q : Problem}

theorem SamePatches.getD_sample?_eq (h : p.SamePatches q) (input : Tensor α) (b oh ow : Nat)
    (t : Tap) :
    (p.sample? (Executor.preparedView p input) b oh ow t).getD 0 =
      (q.sample? (Executor.preparedView q input) b oh ow t).getD 0 := by
  rw [Executor.preparedView, Executor.preparedView, sample?_bordering, sample?_bordering,
    h.reach_eq, h.height_eq, h.width_eq]

theorem SamePatches.patch_eq (h : p.SamePatches q) (layout : Layout) (input : Tensor α) :
    p.patch layout (Executor.preparedView p input) =
      q.patch layout (Executor.preparedView q input) := by
  funext b oh ow i
  rw [patch, patch, h.tapAt_eq]
  exact h.getD_sample?_eq input b oh ow _

omit [Zero α] in
theorem SamePatches.dims_eq (h : p.SamePatches q) (order : PatchOrder) :
    order.dims p = order.dims q := by
  cases order <;> simp only [PatchOrder.dims, h.batch_eq, h.outRows_eq, h.outCols_eq,
    h.inChannels_eq, h.kernel_eq]

theorem SamePatches.cells_eq (h : p.SamePatches q) (order : PatchOrder) (input : Tensor α) :
    order.cells p (Executor.preparedView p input) =
      order.cells q (Executor.preparedView q input) := by
  cases order <;> simp only [PatchOrder.cells, h.patch_eq, h.outRows_eq, h.outCols_eq,
    h.patchSize_eq]

end Problem

namespace Executor

section

variable {config config' : ExecutorConfig} {input weight : Tensor α} {p p' : Problem}

/-- The problems of one pair of tensors differ in the padding only. -/
theorem Accepts.eq_with_padding (hp : Accepts config input weight p)
    (hp' : Accepts config' input weight p') : p' = { p with padding := config'.padding } := by
  rcases hp'.extents hp.input_dims hp.weight_dims with ⟨hbatch, hin, hheight, hwidth, hout, hkernel⟩
  have hpadding := hp'.padding_eq
  cases p'
  simp_all

theorem Accepts.with_padding (hp : Accepts config input weight p) {padding : Padding}
    (hfits : padding = .valid → p.kernel ≤ p.height ∧ p.kernel ≤ p.width) :
    Accepts { config with padding } input weight { p with padding } where
  admissible :=
    ⟨hp.admissible.batch_pos, hp.admissible.inChannels_pos, hp.admissible.outChannels_pos,
      hp.admissible.height_pos, hp.admissible.width_pos, hp.admissible.odd, hfits⟩
  padding_eq := rfl
  input_dims := hp.input_dims
  weight_dims := hp.weight_dims

end

/-- An executor with a border has a counterpart without a written one, if the kernel fits. -/
theorem Reached.exists_with_padding [Zero α] [One α] [Add α] [Mul α] [BEq α] [ZeroTest α]
    [PruningOrder α] {config : ExecutorConfig} {denseTile : Nat} {input weight : Tensor α}
    {e : Executor α} (h : Reached config denseTile input weight e) (hne : config.padding ≠ .valid)
    {padding : Padding} (hpadding : padding ≠ .prepad)
    (hfits : padding = .valid →
      e.problem.kernel ≤ e.problem.height ∧ e.problem.kernel ≤ e.problem.width)
    (denseTile' : Nat) :
    ∃ e', Executor.create { config with padding } denseTile' input weight = .ok e' := by
  have hp := h.builtFrom.accepts
  rcases h.created with ⟨e₀, hcreate⟩
  have hp₀ := (create_builtFrom hcreate).1.accepts
  have hproblem := hp.problem_eq hp₀ rfl rfl
  have hwithin := hp.admissible.within (hp.padding_eq ▸ hne) hpadding
  rw [hproblem] at hwithin hfits hp
  exact (hp.with_padding hfits).exists_create_within hcreate hwithin rfl rfl rfl denseTile'

/-!
## Scratch buffers
-/

/-- The scratch tensor between the two phases; the direct loops have none. -/
def scratch? (e : Executor α) : Option (Tensor α) :=
  match e.plan with
  | .direct => none
  | .dense buffer => some buffer.patches
  | .sparse buffer _ _ => some buffer.patches

section

variable [Zero α] [PruningOrder α] {config₁ config₂ : ExecutorConfig} {denseTile₁ denseTile₂ : Nat}
  {input weight₁ weight₂ : Tensor α} {e₁ e₂ : Executor α}

omit [PruningOrder α] in
theorem filled_patches_eq {buffer₁ buffer₂ : PatchBuffer α} {order : PatchOrder} {p q : Problem}
    (h₁ : buffer₁.Fits order p) (h₂ : buffer₂.Fits order q) (hpq : p.SamePatches q) :
    (buffer₁.filled (preparedView p input)).patches =
      (buffer₂.filled (preparedView q input)).patches := by
  have hdims : buffer₁.patches.shape.dims = buffer₂.patches.shape.dims :=
    h₁.dims_eq.trans ((hpq.dims_eq order).trans h₂.dims_eq.symm)
  show Tensor.ofCells buffer₁.patches.shape _ = Tensor.ofCells buffer₂.patches.shape _
  rw [Shape.ext_dims hdims, h₁.order_eq, h₁.problem_eq, h₂.order_eq, h₂.problem_eq, hpq.cells_eq]

/-- The first phase fills the same scratch tensor wherever the patches are the same. -/
theorem BuiltFrom.same_scratch (h₁ : BuiltFrom config₁ denseTile₁ input weight₁ e₁)
    (h₂ : BuiltFrom config₂ denseTile₂ input weight₂ e₂) (hvariant : e₁.SameVariant e₂)
    (hpatches : e₁.problem.SamePatches e₂.problem) (first₁ first₂ : Schedule) :
    ∃ s₁ s₂, e₁.expandPatches first₁ = .ok s₁ ∧ e₂.expandPatches first₂ = .ok s₂ ∧
      s₁.scratch? = s₂.scratch? ∧ (config₁.algorithm ≠ .direct → s₁.scratch?.isSome) := by
  refine ⟨_, _, h₁.expandPatches_ok first₁, h₂.expandPatches_ok first₂, ?_⟩
  rcases hvariant with ⟨hlayout, halgorithm, _⟩
  rw [h₁.config_eq, h₂.config_eq] at hlayout halgorithm
  have hfits₁ := h₁.plan_fits
  have hfits₂ := h₂.plan_fits
  unfold scratch?
  cases halg : config₁.algorithm with
  | direct =>
      rw [hfits₁.eq_direct halg, hfits₂.eq_direct (halgorithm ▸ halg)]
      constructor
      · rfl
      · intro hne
        exact absurd rfl hne
  | dense =>
      rcases hfits₁.eq_dense halg with ⟨buffer₁, hplan₁⟩
      rcases hfits₂.eq_dense (halgorithm ▸ halg) with ⟨buffer₂, hplan₂⟩
      rw [hplan₁] at hfits₁ ⊢
      rw [hplan₂] at hfits₂ ⊢
      constructor
      · exact congrArg some (filled_patches_eq hfits₁.2 (hlayout ▸ hfits₂.2) hpatches)
      · intro _
        rfl
  | sparse =>
      rcases hfits₁.eq_sparse halg with ⟨buffer₁, level₁, csr₁, hplan₁⟩
      rcases hfits₂.eq_sparse (halgorithm ▸ halg) with ⟨buffer₂, level₂, csr₂, hplan₂⟩
      rw [hplan₁] at hfits₁ ⊢
      rw [hplan₂] at hfits₂ ⊢
      constructor
      · exact congrArg some (filled_patches_eq hfits₁.2.2.1 hfits₂.2.2.1 hpatches)
      · intro _
        rfl

end

/-!
## Written and inline borders
-/

section

variable {config₁ config₂ : ExecutorConfig} {denseTile₁ denseTile₂ : Nat}
  {input weight : Tensor Binary32} {e₁ e₂ : Executor Binary32}

/-- Elements with the same patches are equal; the direct loops need finite weights, as they leave
out a tap behind an inline border that they multiply with a zero of a written one. -/
theorem BuiltFrom.elements_eq_of_samePatches (h₁ : BuiltFrom config₁ denseTile₁ input weight e₁)
    (h₂ : BuiltFrom config₂ denseTile₂ input weight e₂) (hvariant : e₁.SameVariant e₂)
    (hpatches : e₁.problem.SamePatches e₂.problem)
    (hfinite : config₁.algorithm = .direct → ∀ x ∈ weight.data, x.isFinite = true)
    {b f oh ow : Nat} (hoh : oh < e₁.problem.outRows) (how : ow < e₁.problem.outCols) :
    e₁.elements input weight b f oh ow = e₂.elements input weight b f oh ow := by
  by_cases hdirect : config₁.algorithm = .direct
  · have hlayout := hvariant.layout_eq
    have halgorithm := hvariant.algorithm_eq
    rw [h₁.config_eq, h₂.config_eq] at hlayout halgorithm
    have hdirect₂ : config₂.algorithm = .direct := halgorithm ▸ hdirect
    rw [h₁.elements_direct hdirect (fun _ => hfinite hdirect) hoh how]
    rw [hpatches.outRows_eq] at hoh
    rw [hpatches.outCols_eq] at how
    rw [h₂.elements_direct hdirect₂ (fun _ => hfinite hdirect) hoh how, hlayout, patchProduct,
      patchProduct, hpatches.patch_eq, hpatches.patchSize_eq]
    simp only [hpatches.tapAt_eq]
  · apply h₁.elements_eq h₂ hvariant hpatches.toSameTaps
    · intro t _
      rfl
    · intro h
      exact absurd h hdirect
    · intro _ t _
      exact hpatches.getD_sample?_eq input b oh ow t

/-- A written border and an inline border give the same bits.  The scratch buffers are the same for
all inputs and weights; the direct loops, which have none, need finite weights.  What is accepted
with a written border is accepted with an inline one. -/
theorem prepad_result_eq_inline {prepad : ExecutorConfig} {tile : Nat}
    {input weight : Tensor Binary32} {e : Executor Binary32} (h : Reached prepad tile input weight e)
    (hprepad : prepad.padding = .prepad)
    (hfinite : prepad.algorithm = .direct → ∀ x ∈ weight.data, x.isFinite = true) :
    (∀ tile', ∃ e', create { prepad with padding := .inline } tile' input weight = .ok e') ∧
      ∀ {inline : ExecutorConfig} {tile' : Nat} {e' : Executor Binary32},
        Reached inline tile' input weight e' → inline.padding = .inline → e.SameVariant e' →
        ∀ first second first' second' : Schedule, ∃ s s' t t' r,
          e.expandPatches first = .ok s ∧ e'.expandPatches first' = .ok s' ∧
          s.scratch? = s'.scratch? ∧ (prepad.algorithm ≠ .direct → s.scratch?.isSome) ∧
          s.multiply second = .ok t ∧ s'.multiply second' = .ok t' ∧
          t.result = .ok r ∧ t'.result = .ok r := by
  have hbuilt := h.builtFrom
  have hne : prepad.padding ≠ .valid := by simp [hprepad]
  constructor
  · intro tile'
    apply h.exists_with_padding hne
    · simp
    · simp
  · intro inline tile' e' h' hinline hvariant first second first' second'
    have hbuilt' := h'.builtFrom
    have hpatches : e.problem.SamePatches e'.problem := by
      rw [hbuilt.accepts.eq_with_padding hbuilt'.accepts, hinline]
      apply Problem.samePatches_with_padding
      · rw [hbuilt.accepts.padding_eq]
        exact hne
      · simp
    have hdims : outputDims .nchw e.problem = outputDims .nchw e'.problem := by
      rw [hbuilt.accepts.eq_with_padding hbuilt'.accepts] at hpatches ⊢
      simp only [outputDims, hpatches.outRows_eq, hpatches.outCols_eq]
    rcases hbuilt.same_scratch hbuilt' hvariant hpatches first first' with
      ⟨s, s', hexpand, hexpand', hscratch, hsome⟩
    have helements : ∀ b, ∀ f < e.problem.outChannels, ∀ oh < e.problem.outRows,
        ∀ ow < e.problem.outCols,
          e.elements input weight b f oh ow = e'.elements input weight b f oh ow := by
      intro b f _ oh hoh ow how
      exact hbuilt.elements_eq_of_samePatches hbuilt' hvariant hpatches hfinite hoh how
    rcases hbuilt.same_result_of_dims hbuilt' hdims helements first second first' second' with
      ⟨t, t', r, hrun, hrun', hresult, hresult'⟩
    rw [runPhases, hexpand] at hrun
    rw [runPhases, hexpand'] at hrun'
    exact ⟨s, s', t, t', r, hexpand, hexpand', hscratch, hsome, hrun, hrun', hresult, hresult'⟩

theorem prepad_result_eq_inline_irregular :
    ∃ e e' s s' t t' r,
      create ExecutorConfig.standard 1 irregularInput mixedWeight = .ok e ∧
      create { ExecutorConfig.standard with padding := .inline } 1 irregularInput mixedWeight =
        .ok e' ∧
      e.expandPatches .serial = .ok s ∧ e'.expandPatches .serial = .ok s' ∧
      s.multiply .serial = .ok t ∧ s'.multiply .serial = .ok t' ∧
      t.result = .ok r ∧ t'.result = .ok r := by
  have hok : (create ExecutorConfig.standard 1 irregularInput mixedWeight).isOk = true := by
    decide
  have hfinite : ∀ x ∈ mixedWeight.data, x.isFinite = true := by
    decide
  rcases exists_of_isOk hok with ⟨e, hcreate⟩
  rcases prepad_result_eq_inline (.create hcreate) rfl (fun _ => hfinite) with ⟨hinline, hsame⟩
  rcases hinline 1 with ⟨e', hcreate'⟩
  have hvariant := sameVariant_of_create hcreate hcreate' rfl rfl rfl
  rcases hsame (.create hcreate') rfl hvariant .serial .serial .serial .serial with
    ⟨s, s', t, t', r, hexpand, hexpand', _, _, hmultiply, hmultiply', hresult, hresult'⟩
  exact ⟨e, e', s, s', t, t', r, hcreate, hcreate', hexpand, hexpand', hmultiply, hmultiply',
    hresult, hresult'⟩

end

/-!
## No border
-/

section

variable [Zero α] [One α] [Add α] [Mul α] [PruningOrder α] {config config' : ExecutorConfig}
  {tile tile' : Nat} {input weight : Tensor α} {e e' : Executor α}

/-- The elements without a border are those in the inner part of a result with one. -/
theorem BuiltFrom.elements_eq_inner (h : BuiltFrom config tile input weight e)
    (h' : BuiltFrom config' tile' input weight e') (hvariant : e.SameVariant e')
    (hne : config.padding ≠ .valid) (hvalid : config'.padding = .valid) {b f oh ow : Nat}
    (hoh : oh < e'.problem.outRows) (how : ow < e'.problem.outCols) :
    e'.elements input weight b f oh ow =
      e.elements input weight b f (oh + e.problem.halfKernel) (ow + e.problem.halfKernel) := by
  have hproblem := h.accepts.eq_with_padding h'.accepts
  rw [hvalid] at hproblem
  have hfits := h'.accepts.admissible.fits (h'.accepts.padding_eq.trans hvalid)
  rw [hproblem] at hoh how hfits
  have hreach : e.problem.reach = e.problem.halfKernel :=
    Problem.reach_of_ne_valid (h.accepts.padding_eq ▸ hne)
  have hreach' : e'.problem.reach = 0 :=
    Problem.reach_of_valid (h'.accepts.padding_eq.trans hvalid)
  have hrows : e'.problem.height = e.problem.height := by
    rw [hproblem]
  have hcols : e'.problem.width = e.problem.width := by
    rw [hproblem]
  have hsample : ∀ t, e.problem.HasTap t →
      e.problem.sample? (preparedView e.problem input) b (oh + e.problem.halfKernel)
          (ow + e.problem.halfKernel) t =
        e'.problem.sample? (preparedView e'.problem input) b oh ow t := by
    rintro t ⟨_, hrow, hcol⟩
    -- the whole kernel lies within the input: neither side leaves it
    have hlow : oh + t.row < e.problem.height := by
      simp only [Problem.outRows] at hoh hfits
      omega
    have hhigh : ow + t.col < e.problem.width := by
      simp only [Problem.outCols] at how hfits
      omega
    rw [preparedView, preparedView,
      Problem.sample?_of_inside _ _ _ (by omega) (by omega) (by omega) (by omega),
      Problem.sample?_of_inside _ _ _ (by omega) (by omega) (by omega) (by omega), hreach, hreach']
    congr 2 <;> omega
  symm
  apply h.elements_eq h' hvariant
  · rw [hproblem]
    exact ⟨rfl, rfl⟩
  · intro t _
    rfl
  · intro _
    exact hsample
  · intro _ t ht
    rw [hsample t ht]

/-- The result without a border is the inner part of the result with a border, for all values.
Where the kernel fits the input, what is accepted with a border is accepted without. -/
theorem valid_result_eq_inner [BEq α] [ZeroTest α] {n c height width f k : Nat}
    (h : Reached config tile input weight e) (hne : config.padding ≠ .valid)
    (hinput : input.dims = [n, c, height, width]) (hweight : weight.dims = [f, c, k, k])
    (hrows : k ≤ height) (hcols : k ≤ width) :
    (∀ tile', ∃ e', create { config with padding := .valid } tile' input weight = .ok e') ∧
      ∀ {config' : ExecutorConfig} {tile' : Nat} {e' : Executor α},
        Reached config' tile' input weight e' → config'.padding = .valid → e.SameVariant e' →
        ∀ first second first' second' : Schedule, ∃ t t' r r',
          e.runPhases first second = .ok t ∧ e'.runPhases first' second' = .ok t' ∧
          t.result = .ok r ∧ t'.result = .ok r' ∧
          r.dims = [n, f, height, width] ∧ r'.dims = [n, f, height - k + 1, width - k + 1] ∧
          ∀ b < n, ∀ g < f, ∀ oh ≤ height - k, ∀ ow ≤ width - k, ∃ x,
            r'.get [b, g, oh, ow] = .ok x ∧
              r.get [b, g, oh + (k - 1) / 2, ow + (k - 1) / 2] = .ok x := by
  have hbuilt := h.builtFrom
  rcases hbuilt.accepts.extents hinput hweight with
    ⟨rfl, rfl, rfl, rfl, rfl, rfl⟩
  constructor
  · intro tile'
    apply h.exists_with_padding hne
    · simp
    · exact fun _ => ⟨hrows, hcols⟩
  · intro config' tile' e' h' hvalid hvariant first second first' second'
    have hbuilt' := h'.builtFrom
    have hproblem := hbuilt.accepts.eq_with_padding hbuilt'.accepts
    have hkernel := hbuilt.accepts.admissible.expandable.kernel_pos
    have hpadding : e.problem.padding ≠ .valid := hbuilt.accepts.padding_eq ▸ hne
    rcases hbuilt.result_of_runPhases first second with ⟨t, r, hrun, hresult, hdims, hholds⟩
    rcases hbuilt'.result_of_runPhases first' second' with
      ⟨t', r', hrun', hresult', hdims', hholds'⟩
    have hrows' : e'.problem.outRows = e.problem.height - e.problem.kernel + 1 := by
      rw [hproblem, hvalid]
      rfl
    have hcols' : e'.problem.outCols = e.problem.width - e.problem.kernel + 1 := by
      rw [hproblem, hvalid]
      rfl
    have hbatch : e'.problem.batch = e.problem.batch := by
      rw [hproblem]
    have hchannels : e'.problem.outChannels = e.problem.outChannels := by
      rw [hproblem]
    rw [Problem.outRows_of_ne_valid hpadding, Problem.outCols_of_ne_valid hpadding] at hdims hholds
    rw [hbatch, hchannels] at hdims' hholds'
    refine ⟨t, t', r, r', hrun, hrun', hresult, hresult', hdims, ?_, ?_⟩
    · rw [hdims', hrows', hcols']
    · intro b hb g hg oh hoh ow how
      have hoh' : oh < e'.problem.outRows := by omega
      have how' : ow < e'.problem.outCols := by omega
      refine ⟨e'.elements input weight b g oh ow, ?_, ?_⟩
      · exact Tensor.get_of_holds hdims' hholds' hb hg hoh' how'
      · rw [hbuilt.elements_eq_inner hbuilt' hvariant hne hvalid hoh' how']
        exact Tensor.get_of_holds hdims hholds hb hg (by omega) (by omega)

/-- The rows `1 ∞ 1 2`, `2 -0 1 1` and `1 1 NaN 2`. -/
def irregularPlane : Tensor Binary32 where
  shape := ⟨[1, 1, 3, 4], [12, 12, 4, 1], 12, by decide, by decide, by decide⟩
  data := #[1, ⟨0x7f800000⟩, 1, ⟨0x40000000⟩, ⟨0x40000000⟩, ⟨0x80000000⟩, 1, 1,
    1, 1, ⟨0x7fc00000⟩, ⟨0x40000000⟩]
  size_eq := rfl

theorem valid_result_eq_inner_plane :
    ∃ e e' t t' r r' x,
      create ExecutorConfig.standard 1 irregularPlane mixedWeight = .ok e ∧
      create { ExecutorConfig.standard with padding := .valid } 1 irregularPlane mixedWeight =
        .ok e' ∧
      e.runPhases .serial .serial = .ok t ∧ e'.runPhases .serial .serial = .ok t' ∧
      t.result = .ok r ∧ t'.result = .ok r' ∧ r'.dims = [1, 2, 1, 2] ∧
      r'.get [0, 1, 0, 1] = .ok x ∧ r.get [0, 1, 1, 2] = .ok x := by
  have hok : (create ExecutorConfig.standard 1 irregularPlane mixedWeight).isOk = true := by
    decide
  rcases exists_of_isOk hok with ⟨e, hcreate⟩
  rcases valid_result_eq_inner (.create hcreate) (by decide) rfl rfl (by decide) (by decide) with
    ⟨hvalid, hinner⟩
  rcases hvalid 1 with ⟨e', hcreate'⟩
  have hvariant := sameVariant_of_create hcreate hcreate' rfl rfl rfl
  rcases hinner (.create hcreate') rfl hvariant .serial .serial .serial .serial with
    ⟨t, t', r, r', hrun, hrun', hresult, hresult', _, hdims', hcells⟩
  rcases hcells 0 (by decide) 1 (by decide) 0 (by decide) 1 (by decide) with ⟨x, hx, hx'⟩
  exact ⟨e, e', t, t', r, r', x, hcreate, hcreate', hrun, hrun', hresult, hresult', hdims', hx, hx'⟩

end

end Executor
end ConvSweep
