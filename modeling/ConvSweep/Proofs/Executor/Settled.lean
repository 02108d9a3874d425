import Mathlib
import ConvSweep.Proofs.Executor.Run

/-!
# Settled executors

After both phases an executor is settled: its scratch buffer and its output are
determined by the configuration, the pair of tensors and the percentage of the
last pruning.  The result of a settled executor shows its output elements in
`(N, F, H, W)` order, whatever the executor's own axis order is.
-/

namespace ConvSweep

open Loop

variable {α : Type} [Zero α] [One α] [Add α] [Mul α] [PruningOrder α]

namespace Executor

/-- The output elements of the executor once its scratch buffer holds the patches. -/
def elements (e : Executor α) (input weight : Tensor α) : Nat → Nat → Nat → Nat → α :=
  e.plan.element e.config.layout e.problem (preparedView e.problem input) weight.cell
    (e.problem.patch e.config.layout (preparedView e.problem input))

/-- The executor after both phases. -/
def settled (e : Executor α) (input weight : Tensor α) : Executor α :=
  { e with
    plan := e.plan.filled (preparedView e.problem input)
    output := .ofCells e.output.shape
      (outputCells e.config.layout e.problem (e.elements input weight)) }

/-- Both phases; `run` is the case of one order for both. -/
def runPhases [BEq α] (first second : Schedule) (e : Executor α) : Outcome (Executor α) := do
  let e ← e.expandPatches first
  e.multiply second

section

variable [BEq α] [ZeroTest α] {config : ExecutorConfig} {denseTile : Nat}
  {input weight : Tensor α} {e : Executor α}

omit [BEq α] [ZeroTest α] in
theorem BuiltFrom.settled (h : BuiltFrom config denseTile input weight e) :
    BuiltFrom config denseTile input weight (e.settled input weight) :=
  (h.with_plan (h.plan_fits.filled _)).with_output _

omit [BEq α] [ZeroTest α] in
theorem element_filled {plan : Plan α} {layout : Layout} {p : Problem}
    (x w patch : Nat → Nat → Nat → Nat → α) (b f oh ow : Nat) :
    (plan.filled x).element layout p x w patch b f oh ow =
      plan.element layout p x w patch b f oh ow := by
  cases plan with
  | direct =>
      rfl
  | dense buffer =>
      cases layout <;> rfl
  | sparse buffer level csr =>
      rfl

/-- Both phases succeed and settle the executor, for all orders of their tasks. -/
theorem BuiltFrom.runPhases_ok (h : BuiltFrom config denseTile input weight e)
    (first second : Schedule) : e.runPhases first second = .ok (e.settled input weight) := by
  have hfilled := h.with_plan (h.plan_fits.filled (preparedView e.problem input))
  have hconfig := h.config_eq
  subst hconfig
  rw [runPhases, h.expandPatches_ok first]
  show multiply second { e with plan := e.plan.filled (preparedView e.problem input) } = _
  rw [hfilled.multiply_ok second]
  have hcells : Tensor.ofCells e.output.shape (outputCells e.config.layout e.problem
      ((e.plan.filled (preparedView e.problem input)).element e.config.layout e.problem
        (preparedView e.problem input) weight.cell
        ((e.plan.filled (preparedView e.problem input)).stored e.problem))) =
      Tensor.ofCells e.output.shape
        (outputCells e.config.layout e.problem (e.elements input weight)) := by
    apply Tensor.ofCells_congr
    intro i hi
    rw [h.total_eq] at hi
    apply outputCells_congr ?_ hi
    intro b hb f hf oh hoh ow how
    -- the second phase reads the patches back from the scratch buffer
    rw [element_filled, elements]
    apply element_congr
    intro hplan j hj
    exact stored_filled h.plan_fits hplan _ hb hoh how hj
  show Except.ok { e with plan := _, output := _ } = Except.ok (e.settled input weight)
  rw [Executor.settled, hcells]

/-!
## Results
-/

omit [One α] [Add α] [Mul α] [BEq α] [ZeroTest α] in
/-- The result shows the elements whose cells the output buffer holds. -/
theorem BuiltFrom.result_ok (h : BuiltFrom config denseTile input weight e)
    {y : Nat → Nat → Nat → Nat → α}
    (hcells : e.output.data =
      tabulate e.output.shape.total (outputCells config.layout e.problem y)) :
    ∃ r, e.result = .ok r ∧
      r.dims = [e.problem.batch, e.problem.outChannels, e.problem.outRows, e.problem.outCols] ∧
      Holds r.data e.problem.batch e.problem.outChannels e.problem.outRows e.problem.outCols y := by
  have hdims := h.output_dims
  have hlt := h.output_lt
  rw [result, h.config_eq]
  cases hl : config.layout with
  | nchw =>
      rw [hl] at hdims hcells
      have htotal : e.output.shape.total = _ := Shape.total_quad hdims
      rw [htotal] at hcells
      refine ⟨e.output, rfl, hdims, ?_⟩
      rw [hcells]
      exact holds_tabulate _ _ _ _ _
  | nhwc =>
      rw [hl] at hdims hcells hlt
      have htotal : e.output.shape.total = _ := Shape.total_quad hdims
      rw [htotal] at hcells
      have hholds : Holds e.output.data e.problem.batch e.problem.outRows e.problem.outCols
          e.problem.outChannels fun b oh ow f => y b f oh ow := by
        rw [hcells]
        exact holds_tabulate _ _ _ _ fun b oh ow f => y b f oh ow
      have hprod : e.problem.batch * e.problem.outRows * e.problem.outCols *
          e.problem.outChannels < Size.bufferLimit := by
        simpa [outputDims, Nat.mul_assoc] using hlt
      exact Tensor.toNchw_ok hdims hholds hprod

/-- Both phases succeed and so does the result, which shows the elements. -/
theorem BuiltFrom.result_of_runPhases (h : BuiltFrom config denseTile input weight e)
    (first second : Schedule) :
    ∃ e' r, e.runPhases first second = .ok e' ∧ e'.result = .ok r ∧
      r.dims = [e.problem.batch, e.problem.outChannels, e.problem.outRows, e.problem.outCols] ∧
      Holds r.data e.problem.batch e.problem.outChannels e.problem.outRows e.problem.outCols
        (e.elements input weight) := by
  have hconfig := h.config_eq
  subst hconfig
  rcases h.settled.result_ok (y := e.elements input weight) rfl with ⟨r, hr, hdims, hholds⟩
  exact ⟨_, r, h.runPhases_ok first second, hr, hdims, hholds⟩

/-- Results of equal extents with equal elements are equal. -/
theorem BuiltFrom.same_result_of_dims {config₁ config₂ : ExecutorConfig}
    {denseTile₁ denseTile₂ : Nat} {input₁ input₂ weight₁ weight₂ : Tensor α} {e₁ e₂ : Executor α}
    (h₁ : BuiltFrom config₁ denseTile₁ input₁ weight₁ e₁)
    (h₂ : BuiltFrom config₂ denseTile₂ input₂ weight₂ e₂)
    (hdims : outputDims .nchw e₁.problem = outputDims .nchw e₂.problem)
    (helements : ∀ b, ∀ f < e₁.problem.outChannels, ∀ oh < e₁.problem.outRows,
      ∀ ow < e₁.problem.outCols,
        e₁.elements input₁ weight₁ b f oh ow = e₂.elements input₂ weight₂ b f oh ow)
    (first₁ second₁ first₂ second₂ : Schedule) :
    ∃ e₁' e₂' r, e₁.runPhases first₁ second₁ = .ok e₁' ∧ e₂.runPhases first₂ second₂ = .ok e₂' ∧
      e₁'.result = .ok r ∧ e₂'.result = .ok r := by
  rcases h₁.result_of_runPhases first₁ second₁ with ⟨e₁', r₁, hrun₁, hresult₁, hdims₁, hholds₁⟩
  rcases h₂.result_of_runPhases first₂ second₂ with ⟨e₂', r₂, hrun₂, hresult₂, hdims₂, hholds₂⟩
  simp only [outputDims, List.cons.injEq] at hdims
  rcases hdims with ⟨hbatch, hchannels, hrows, hcols, _⟩
  rw [← hbatch, ← hchannels, ← hrows, ← hcols] at hdims₂ hholds₂
  have hsame : r₁ = r₂ := by
    apply Tensor.ext_data (hdims₁.trans hdims₂.symm)
    apply hholds₁.unique hholds₂
    intro b _ f hf oh hoh ow how
    exact helements b f hf oh hoh ow how
  rw [← hsame] at hresult₂
  exact ⟨e₁', e₂', r₁, hrun₁, hrun₂, hresult₁, hresult₂⟩

/-- Executors of one problem with equal elements have equal results. -/
theorem BuiltFrom.same_result {config₁ config₂ : ExecutorConfig} {denseTile₁ denseTile₂ : Nat}
    {weight₁ weight₂ : Tensor α} {e₁ e₂ : Executor α}
    (h₁ : BuiltFrom config₁ denseTile₁ input weight₁ e₁)
    (h₂ : BuiltFrom config₂ denseTile₂ input weight₂ e₂) (hproblem : e₁.problem = e₂.problem)
    (helements : ∀ b, ∀ f < e₁.problem.outChannels, ∀ oh < e₁.problem.outRows,
      ∀ ow < e₁.problem.outCols,
        e₁.elements input weight₁ b f oh ow = e₂.elements input weight₂ b f oh ow)
    (first₁ second₁ first₂ second₂ : Schedule) :
    ∃ e₁' e₂' r, e₁.runPhases first₁ second₁ = .ok e₁' ∧ e₂.runPhases first₂ second₂ = .ok e₂' ∧
      e₁'.result = .ok r ∧ e₂'.result = .ok r :=
  h₁.same_result_of_dims h₂ (congrArg _ hproblem) helements first₁ second₁ first₂ second₂

end

/-!
## Pruning again
-/

section

variable {config : ExecutorConfig} {denseTile : Nat} {input weight : Tensor α} {e e' : Executor α}

omit [One α] [Add α] [Mul α] in
/-- A new percentage is refused with an error, or takes effect and changes the weights only. -/
theorem BuiltFrom.setSparsity_cases (h : BuiltFrom config denseTile input weight e)
    (percentile : Binary32) :
    (∃ error : Error, e.setSparsity percentile = .error (.error error)) ∨
      ∃ buffer old level csr csr',
        e.plan = .sparse buffer old csr ∧ level.value = percentile ∧
          level.prune e.weight.data e.problem.outChannels e.problem.patchSize = .ok csr' ∧
          e.setSparsity percentile = .ok { e with plan := .sparse buffer level csr' } := by
  have hfits := h.plan_fits
  unfold setSparsity
  cases hplan : e.plan with
  | direct =>
      left
      exact ⟨_, rfl⟩
  | dense buffer =>
      left
      exact ⟨_, rfl⟩
  | sparse buffer old csr =>
      rw [hplan] at hfits
      rcases hfits with ⟨_, hl, _, hprune⟩
      cases hlevel : Percentile.ofNumber percentile with
      | error err =>
          left
          refine ⟨err, ?_⟩
          dsimp only
          rw [pruneWeight, hlevel]
          rfl
      | ok level =>
          right
          have hw := h.holdsWeight
          rw [hl] at hw
          rcases Percentile.prune_again hw.rows hprune level with ⟨csr', hcsr'⟩
          have hvalue := Percentile.value_of_ofNumber hlevel
          refine ⟨buffer, old, level, csr, csr', rfl, hvalue, hcsr', ?_⟩
          dsimp only
          rw [pruneWeight, hlevel, error_ok_bind, hcsr']
          rfl

omit [One α] [Add α] [Mul α] in
theorem BuiltFrom.of_setSparsity (h : BuiltFrom config denseTile input weight e)
    {percentile : Binary32} (hset : e.setSparsity percentile = .ok e') :
    BuiltFrom config denseTile input weight e' ∧ e'.plan.percentile? = some percentile := by
  rcases h.setSparsity_cases percentile with
    ⟨err, herr⟩ | ⟨buffer, old, level, csr, csr', hplan, hvalue, hprune, hok⟩
  · rw [herr] at hset
    cases hset
  · rw [hok] at hset
    cases hset
    have hfits := h.plan_fits
    rw [hplan] at hfits
    refine ⟨h.with_plan ⟨hfits.1, hfits.2.1, hfits.2.2.1, hprune⟩, ?_⟩
    rw [Plan.percentile?, hvalue]

end

/-!
## Pruned weights
-/

section

variable {config : ExecutorConfig} {denseTile : Nat} {input weight : Tensor α} {e : Executor α}
  {buffer : PatchBuffer α} {level : Percentile} {csr : CsrMatrix α}

/-- The weight as a matrix with a row per filter, its taps in NCHW order. -/
def filterRows (p : Problem) (weight : Tensor α) (f i : Nat) : α :=
  (p.tapAt .nchw i).weight weight.cell f

omit [One α] [Add α] [Mul α] in
theorem BuiltFrom.stores (h : BuiltFrom config denseTile input weight e)
    (hplan : e.plan = .sparse buffer level csr) :
    csr.Stores e.problem.outChannels e.problem.patchSize
      (level.keeps e.problem.patchSize (filterRows e.problem weight))
      (filterRows e.problem weight) := by
  have hfits := h.plan_fits
  have hw := h.holdsWeight
  rw [hplan] at hfits
  rw [hfits.2.1] at hw
  exact Percentile.stores_of_prune hw.rows hfits.2.2.2

omit [One α] [Add α] [Mul α] in
/-- A tensor with the extents of the weight and the dense form of the pruned weights. -/
theorem BuiltFrom.exists_toDense (h : BuiltFrom config denseTile input weight e)
    (hplan : e.plan = .sparse buffer level csr) (hsize : weight.data.size < Size.bufferLimit) :
    ∃ pruned : Tensor α, pruned.dims = weight.dims ∧ csr.toDense = .ok pruned.data := by
  have htotal : weight.shape.total = _ := Shape.total_quad h.accepts.weight_dims
  have hpatch : e.problem.outChannels * e.problem.patchSize = weight.shape.total := by
    rw [htotal, Problem.patchSize]
    ring
  rw [weight.size_eq, ← hpatch] at hsize
  rcases CsrMatrix.toDense_ok (h.stores hplan) hsize with ⟨dense, hdense, hrows⟩
  exact ⟨⟨weight.shape, dense, hrows.size_eq.trans hpatch⟩, rfl, hdense⟩

omit [One α] [Add α] [Mul α] in
theorem BuiltFrom.masked_eq (h : BuiltFrom config denseTile input weight e)
    (hplan : e.plan = .sparse buffer level csr) {pruned : Tensor α}
    (hdims : pruned.dims = weight.dims) (hdense : csr.toDense = .ok pruned.data) {f i : Nat}
    (hf : f < e.problem.outChannels) (hi : i < e.problem.patchSize) :
    CsrMatrix.masked (level.keeps e.problem.patchSize (filterRows e.problem weight))
        (filterRows e.problem weight) f i = filterRows e.problem pruned f i := by
  have hrows := CsrMatrix.of_toDense (h.stores hplan) hdense
  rw [h.accepts.weight_dims] at hdims
  have hpruned : e.problem.HoldsWeight .nchw pruned.data pruned.cell := Tensor.holds_cell hdims
  exact hrows.unique hpruned.rows hf hi

end

/-!
## Reachable states
-/

section

variable [BEq α]

section

variable {config : ExecutorConfig} {denseTile : Nat} {input weight : Tensor α} {e : Executor α}

omit [One α] [Add α] [Mul α] [PruningOrder α] [BEq α] in
theorem percentile?_filled (plan : Plan α) (x : Nat → Nat → Nat → Nat → α) :
    (plan.filled x).percentile? = plan.percentile? := by
  cases plan <;> rfl

omit [One α] [Add α] [Mul α] [BEq α] in
theorem BuiltFrom.expandPatches_step (h : BuiltFrom config denseTile input weight e)
    (schedule : Schedule) :
    ∃ e', e.expandPatches schedule = .ok e' ∧ BuiltFrom config denseTile input weight e' ∧
      e'.plan.percentile? = e.plan.percentile? :=
  ⟨_, h.expandPatches_ok schedule, h.with_plan (h.plan_fits.filled _), percentile?_filled _ _⟩

theorem BuiltFrom.multiply_step [ZeroTest α] (h : BuiltFrom config denseTile input weight e)
    (schedule : Schedule) :
    ∃ e', e.multiply schedule = .ok e' ∧ BuiltFrom config denseTile input weight e' ∧
      e'.plan.percentile? = e.plan.percentile? :=
  ⟨_, h.multiply_ok schedule, h.with_output _, rfl⟩

end

/-- The states of an executor after its construction and any number of operations. -/
inductive Reached (config : ExecutorConfig) (denseTile : Nat) (input weight : Tensor α) :
    Executor α → Prop
  | create {e : Executor α} :
      create config denseTile input weight = .ok e → Reached config denseTile input weight e
  | expandPatches {e e' : Executor α} (schedule : Schedule) :
      Reached config denseTile input weight e → e.expandPatches schedule = .ok e' →
      Reached config denseTile input weight e'
  | multiply {e e' : Executor α} (schedule : Schedule) :
      Reached config denseTile input weight e → e.multiply schedule = .ok e' →
      Reached config denseTile input weight e'
  | setSparsity {e e' : Executor α} (percentile : Binary32) :
      Reached config denseTile input weight e → e.setSparsity percentile = .ok e' →
      Reached config denseTile input weight e'

theorem Reached.builtFrom [ZeroTest α] {config : ExecutorConfig} {denseTile : Nat}
    {input weight : Tensor α} {e : Executor α} (h : Reached config denseTile input weight e) :
    BuiltFrom config denseTile input weight e := by
  induction h with
  | create hcreate =>
      exact (create_builtFrom hcreate).1
  | expandPatches schedule _ hstep ih =>
      rcases ih.expandPatches_step schedule with ⟨e', hok, hbuilt, _⟩
      rw [hok] at hstep
      cases hstep
      exact hbuilt
  | multiply schedule _ hstep ih =>
      rcases ih.multiply_step schedule with ⟨e', hok, hbuilt, _⟩
      rw [hok] at hstep
      cases hstep
      exact hbuilt
  | setSparsity percentile _ hstep ih =>
      exact (ih.of_setSparsity hstep).1

theorem Reached.created {config : ExecutorConfig} {denseTile : Nat} {input weight : Tensor α}
    {e : Executor α} (h : Reached config denseTile input weight e) :
    ∃ e₀, Executor.create config denseTile input weight = .ok e₀ := by
  induction h with
  | create hcreate =>
      exact ⟨_, hcreate⟩
  | expandPatches _ _ _ ih =>
      exact ih
  | multiply _ _ _ ih =>
      exact ih
  | setSparsity _ _ _ ih =>
      exact ih

end

end Executor
end ConvSweep
