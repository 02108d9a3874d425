import Mathlib
import ConvSweep.Proofs.Executor.Settled

/-!
# What an output element reads

An output element depends on the taps of its own position and on the weights of its
own filter, through the variant and the percentage of the pruning, and on nothing
else.  Elements of two executors that read the same are therefore equal, whatever
the batches, the filters, the borders and the extents around them are.
-/

namespace ConvSweep

open Loop

variable {α : Type}

/-!
## Taps of two problems
-/

/-- Two problems whose output elements have the same taps. -/
structure Problem.SameTaps (p q : Problem) : Prop where
  inChannels_eq : p.inChannels = q.inChannels
  kernel_eq : p.kernel = q.kernel

namespace Problem.SameTaps

variable {p q : Problem}

theorem patchSize_eq (h : p.SameTaps q) : p.patchSize = q.patchSize := by
  simp only [patchSize, h.inChannels_eq, h.kernel_eq]

theorem tapAt_eq (h : p.SameTaps q) (layout : Layout) (i : Nat) :
    p.tapAt layout i = q.tapAt layout i := by
  cases layout <;> simp only [tapAt, h.inChannels_eq, h.kernel_eq]

end Problem.SameTaps

/-!
## Samples and sums
-/

namespace Problem

variable {p q : Problem} {x y w v : Nat → Nat → Nat → Nat → α} {b f oh ow b' f' oh' ow' : Nat}

/-- A tap that stays within the input reads the input itself, whatever the border is. -/
theorem sample?_of_inside [Zero α] (p : Problem) (x : Nat → Nat → Nat → Nat → α) (b : Nat) {t : Tap}
    (hrow : p.reach ≤ oh + t.row) (hrow' : oh + t.row < p.reach + p.height)
    (hcol : p.reach ≤ ow + t.col) (hcol' : ow + t.col < p.reach + p.width) :
    p.sample? (Tensor.bordering p.border p.height p.width x) b oh ow t =
      some (x b t.channel (oh + t.row - p.reach) (ow + t.col - p.reach)) := by
  have hreach : p.reach = p.border + p.halo := rfl
  have hsource (extent o k : Nat) (hlow : p.reach ≤ o + k) (hhigh : o + k < p.reach + extent) :
      source? p.halo (extent + 2 * p.border) o k = some (o + k - p.reach + p.border) := by
    rw [source?, if_pos (by omega)]
    congr 1
    omega
  rw [sample?_of_source? (hsource _ _ _ hrow hrow') (hsource _ _ _ hcol hcol'),
    Tensor.bordering_of_mem (by omega) (by omega)]

theorem patch_congr [Zero α] {layout : Layout} (hpq : p.SameTaps q)
    (h : ∀ t, p.HasTap t → (p.sample? x b oh ow t).getD 0 = (q.sample? y b' oh' ow' t).getD 0)
    {i : Nat} (hi : i < p.patchSize) :
    p.patch layout x b oh ow i = q.patch layout y b' oh' ow' i := by
  rw [patch, patch, ← hpq.tapAt_eq]
  exact h _ (hasTap_tapAt layout hi)

theorem directSum_congr [Zero α] [Add α] [Mul α] {layout : Layout} (hpq : p.SameTaps q)
    (hsample : ∀ t, p.HasTap t → p.sample? x b oh ow t = q.sample? y b' oh' ow' t)
    (hweight : ∀ t, p.HasTap t → t.weight w f = t.weight v f') :
    p.directSum layout x w b f oh ow = q.directSum layout y v b' f' oh' ow' := by
  unfold directSum
  rw [← hpq.patchSize_eq]
  apply foldl_range_congr
  intro i hi acc
  have htap := hasTap_tapAt layout hi
  rw [addProduct, addProduct, ← hpq.tapAt_eq, hsample _ htap, hweight _ htap]

end Problem

/-!
## Elements of two executors
-/

theorem Plan.level_eq {buffer buffer' : PatchBuffer α} {level level' : Percentile}
    {csr csr' : CsrMatrix α} (h : (Plan.sparse buffer level csr).percentile? =
      (Plan.sparse buffer' level' csr').percentile?) : level = level' := by
  cases level
  cases level'
  cases h
  rfl

namespace Executor

/-- Two executors in one axis order, with one algorithm and one percentage. -/
structure SameVariant (e₁ e₂ : Executor α) : Prop where
  layout_eq : e₁.config.layout = e₂.config.layout
  algorithm_eq : e₁.config.algorithm = e₂.config.algorithm
  percentile_eq : e₁.plan.percentile? = e₂.plan.percentile?

theorem sameVariant_of_create [Zero α] [PruningOrder α] {config₁ config₂ : ExecutorConfig}
    {denseTile₁ denseTile₂ : Nat} {input₁ input₂ weight₁ weight₂ : Tensor α} {e₁ e₂ : Executor α}
    (h₁ : create config₁ denseTile₁ input₁ weight₁ = .ok e₁)
    (h₂ : create config₂ denseTile₂ input₂ weight₂ = .ok e₂)
    (hlayout : config₁.layout = config₂.layout) (halgorithm : config₁.algorithm = config₂.algorithm)
    (hpercentile : config₁.percentile = config₂.percentile) : e₁.SameVariant e₂ := by
  rcases create_builtFrom h₁ with ⟨hbuilt₁, hpercentile₁⟩
  rcases create_builtFrom h₂ with ⟨hbuilt₂, hpercentile₂⟩
  constructor
  · rw [hbuilt₁.config_eq, hbuilt₂.config_eq, hlayout]
  · rw [hbuilt₁.config_eq, hbuilt₂.config_eq, halgorithm]
  · rw [hpercentile₁, hpercentile₂, halgorithm, hpercentile]

variable [Zero α] [One α] [Add α] [Mul α] [PruningOrder α]
  {config₁ config₂ : ExecutorConfig} {denseTile₁ denseTile₂ : Nat}
  {input₁ input₂ weight₁ weight₂ : Tensor α} {e₁ e₂ : Executor α}
  {b₁ f₁ oh₁ ow₁ b₂ f₂ oh₂ ow₂ : Nat}

/-- Elements that read the same samples and weights are equal.  The direct loops tell a tap that
is left out from one that reads a zero, the scratch buffer does not. -/
theorem BuiltFrom.elements_eq (h₁ : BuiltFrom config₁ denseTile₁ input₁ weight₁ e₁)
    (h₂ : BuiltFrom config₂ denseTile₂ input₂ weight₂ e₂)
    (hvariant : e₁.SameVariant e₂) (htaps : e₁.problem.SameTaps e₂.problem)
    (hweight : ∀ t, e₁.problem.HasTap t → t.weight weight₁.cell f₁ = t.weight weight₂.cell f₂)
    (hsample : config₁.algorithm = .direct → ∀ t, e₁.problem.HasTap t →
      e₁.problem.sample? (preparedView e₁.problem input₁) b₁ oh₁ ow₁ t =
        e₂.problem.sample? (preparedView e₂.problem input₂) b₂ oh₂ ow₂ t)
    (hpatch : config₁.algorithm ≠ .direct → ∀ t, e₁.problem.HasTap t →
      (e₁.problem.sample? (preparedView e₁.problem input₁) b₁ oh₁ ow₁ t).getD 0 =
        (e₂.problem.sample? (preparedView e₂.problem input₂) b₂ oh₂ ow₂ t).getD 0) :
    e₁.elements input₁ weight₁ b₁ f₁ oh₁ ow₁ = e₂.elements input₂ weight₂ b₂ f₂ oh₂ ow₂ := by
  rcases hvariant with ⟨hlayout, halgorithm, hpercentile⟩
  rw [h₁.config_eq, h₂.config_eq] at hlayout halgorithm
  have hfilter : ∀ i < e₁.problem.patchSize,
      (e₁.problem.tapAt config₁.layout i).weight weight₁.cell f₁ =
        (e₂.problem.tapAt config₁.layout i).weight weight₂.cell f₂ := by
    intro i hi
    rw [← htaps.tapAt_eq]
    exact hweight _ (Problem.hasTap_tapAt _ hi)
  have hrow : config₁.algorithm ≠ .direct → ∀ i < e₁.problem.patchSize,
      e₁.problem.patch config₁.layout (preparedView e₁.problem input₁) b₁ oh₁ ow₁ i =
        e₂.problem.patch config₁.layout (preparedView e₂.problem input₂) b₂ oh₂ ow₂ i :=
    fun hne i hi => Problem.patch_congr htaps (hpatch hne) hi
  rw [elements, elements, h₁.config_eq, h₂.config_eq, ← hlayout]
  cases halg : config₁.algorithm with
  | direct =>
      rw [h₁.plan_fits.eq_direct halg, h₂.plan_fits.eq_direct (halgorithm ▸ halg)]
      exact Problem.directSum_congr htaps (hsample halg) hweight
  | dense =>
      specialize hrow (by simp [halg])
      rcases h₁.plan_fits.eq_dense halg with ⟨buffer₁, hplan₁⟩
      rcases h₂.plan_fits.eq_dense (halgorithm ▸ halg) with ⟨buffer₂, hplan₂⟩
      rw [hplan₁, hplan₂]
      unfold Plan.element
      rw [← htaps.patchSize_eq]
      cases hl : config₁.layout with
      | nchw =>
          rw [hl] at hrow hfilter
          exact congrArg (1 * ·) (rowProduct_congr hfilter hrow)
      | nhwc =>
          rw [hl] at hrow hfilter
          exact congrArg (1 * ·) (rowProduct_congr hrow hfilter)
  | sparse =>
      specialize hrow (by simp [halg])
      rcases h₁.plan_fits.eq_sparse halg with ⟨buffer₁, level₁, csr₁, hplan₁⟩
      rcases h₂.plan_fits.eq_sparse (halgorithm ▸ halg) with ⟨buffer₂, level₂, csr₂, hplan₂⟩
      rw [hplan₁, hplan₂] at hpercentile
      have hlevel := Plan.level_eq hpercentile
      subst hlevel
      rw [hplan₁, hplan₂]
      unfold Plan.element
      dsimp only
      rw [← htaps.patchSize_eq]
      apply keptProduct_congr
      · intro i hi
        exact level₁.keeps_congr hfilter hi
      · exact hfilter
      · exact hrow

end Executor
end ConvSweep
