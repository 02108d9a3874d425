import Mathlib
import ConvSweep.Proofs.Conv.Direct
import ConvSweep.Proofs.Conv.Multiply
import ConvSweep.Proofs.Executor.Construction

/-!
# Runs of executors

Both phases succeed on a constructed executor, in any state of its buffers and for
any schedule.  The first overwrites every cell of the scratch buffer with a value
that only the operands determine, the second every cell of the output with a value
that the operands and the scratch buffer determine.  After both nothing is left of
the earlier contents.
-/

namespace ConvSweep

open BufferM Loop

variable {α : Type}

/-!
## The first phase
-/

section

variable [Zero α]

def Plan.filled (x : Nat → Nat → Nat → Nat → α) : Plan α → Plan α
  | .direct => .direct
  | .dense buffer => .dense (buffer.filled x)
  | .sparse buffer level weights => .sparse (buffer.filled x) level weights

theorem Plan.Fits.filled [PruningOrder α] {config : ExecutorConfig} {p : Problem}
    {weight : Array α} {plan : Plan α} (h : plan.Fits config p weight)
    (x : Nat → Nat → Nat → Nat → α) : (plan.filled x).Fits config p weight := by
  cases plan with
  | direct =>
      exact h
  | dense buffer =>
      exact ⟨h.1, h.2.filled x⟩
  | sparse buffer level weights =>
      exact ⟨h.1, h.2.1, h.2.2.1.filled x, h.2.2.2⟩

namespace Executor

variable [PruningOrder α] {config : ExecutorConfig} {denseTile : Nat} {input weight : Tensor α}
  {e : Executor α}

theorem BuiltFrom.with_plan (h : BuiltFrom config denseTile input weight e) {plan : Plan α}
    (hplan : plan.Fits config e.problem e.weight.data) :
    BuiltFrom config denseTile input weight { e with plan } :=
  ⟨h.config_eq, h.denseTile_eq, h.checked, h.prepared, h.output_dims, h.output_lt, hplan⟩

theorem BuiltFrom.with_output (h : BuiltFrom config denseTile input weight e)
    (f : Nat → α) :
    BuiltFrom config denseTile input weight { e with output := .ofCells e.output.shape f } :=
  ⟨h.config_eq, h.denseTile_eq, h.checked, h.prepared, h.output_dims, h.output_lt, h.plan_fits⟩

theorem expand_ok_of_fits (h : BuiltFrom config denseTile input weight e)
    {buffer : PatchBuffer α} {order : PatchOrder} (hbuffer : buffer.Fits order e.problem)
    (hsource : order.source = config.layout)
    (hdims : order.inputDims e.problem = config.layout.pixelOrder.inputDims e.problem)
    (schedule : Schedule) :
    buffer.expand schedule e.input = .ok (buffer.filled (preparedView e.problem input)) := by
  apply hbuffer.expand_ok schedule h.accepts.admissible.expandable
  · rw [hdims]
    exact h.input_dims
  · rw [hsource]
    exact h.holdsInput

/-- The first phase succeeds and determines the scratch buffer. -/
theorem BuiltFrom.expandPatches_ok (h : BuiltFrom config denseTile input weight e)
    (schedule : Schedule) :
    e.expandPatches schedule =
      .ok { e with plan := e.plan.filled (preparedView e.problem input) } := by
  have hfits := h.plan_fits
  unfold expandPatches
  cases hplan : e.plan with
  | direct =>
      show Except.ok e = Except.ok { e with plan := .direct }
      rw [← hplan]
  | dense buffer =>
      rw [hplan] at hfits
      have hexpand := expand_ok_of_fits h hfits.2 (by cases config.layout <;> rfl) rfl schedule
      dsimp only
      rw [hexpand]
      rfl
  | sparse buffer level weights =>
      rw [hplan] at hfits
      rcases hfits with ⟨_, hlayout, hbuffer, _⟩
      have hexpand := expand_ok_of_fits h hbuffer hlayout.symm (by rw [hlayout]; rfl) schedule
      dsimp only
      rw [hexpand]
      rfl

end Executor
end

/-!
## The second phase
-/

section

variable [Zero α] [One α] [Add α] [Mul α]

/-- Tap `i` of an output position in the scratch buffer; zero without one. -/
def Plan.stored (plan : Plan α) (p : Problem) (b oh ow i : Nat) : α :=
  let pixel := oh * p.outCols + ow
  match plan with
  | .direct => 0
  | .dense buffer => buffer.patches.data.getD ((b * p.outPixels + pixel) * p.patchSize + i) 0
  | .sparse buffer _ _ => buffer.patches.data.getD ((b * p.patchSize + i) * p.outPixels + pixel) 0

/-- The output element that a plan computes from views of the operands and of the patches. -/
def Plan.element [PruningOrder α] (plan : Plan α) (layout : Layout) (p : Problem)
    (x w patch : Nat → Nat → Nat → Nat → α) (b f oh ow : Nat) : α :=
  let filter (f i : Nat) : α := (p.tapAt layout i).weight w f
  match plan, layout with
  | .direct, _ => p.directSum layout x w b f oh ow
  | .dense _, .nchw => 1 * rowProduct p.patchSize (filter f) (patch b oh ow)
  | .dense _, .nhwc => 1 * rowProduct p.patchSize (patch b oh ow) (filter f)
  | .sparse _ level _, _ =>
      keptProduct p.patchSize (level.keeps p.patchSize filter f) (filter f) (patch b oh ow)

/-- The cells of an output buffer in an axis order, from its elements. -/
def outputCells (layout : Layout) (p : Problem) (y : Nat → Nat → Nat → Nat → α) : Nat → α :=
  match layout with
  | .nchw => spread p.outChannels p.outRows p.outCols y
  | .nhwc => spread p.outRows p.outCols p.outChannels fun b oh ow f => y b f oh ow

namespace Executor

variable [BEq α] [ZeroTest α] [PruningOrder α] {config : ExecutorConfig} {denseTile : Nat}
  {input weight : Tensor α} {e : Executor α}

omit [One α] [Add α] [Mul α] [BEq α] [ZeroTest α] in
theorem BuiltFrom.total_eq (h : BuiltFrom config denseTile input weight e) :
    e.output.shape.total = e.problem.batch * e.problem.outChannels * e.problem.outPixels := by
  rw [Shape.total_eq_prod, ← prod_outputDims config.layout, ← h.output_dims]
  rfl

/-- The second phase stores every cell of the output. -/
theorem BuiltFrom.fills_outputAction (h : BuiltFrom config denseTile input weight e)
    (schedule : Schedule) :
    Fills (e.outputAction schedule : BufferM α e.output.shape.total Unit)
      (outputCells config.layout e.problem
        (e.plan.element config.layout e.problem (preparedView e.problem input) weight.cell
          (e.plan.stored e.problem))) := by
  have hp := h.accepts.admissible
  have hx := h.holdsInput
  have hw := h.holdsWeight
  have hfits := h.plan_fits
  have htotal := h.total_eq
  have hlimit := e.output.shape.total_lt_limit
  have hconfig := h.config_eq
  subst hconfig
  unfold outputAction
  cases hplan : e.plan with
  | direct =>
      cases hl : e.config.layout with
      | nchw =>
          rw [hl] at hx hw
          apply Problem.fills_directNchw hp hx hw schedule
          rw [htotal, Problem.outPixels]
          ring
      | nhwc =>
          rw [hl] at hx hw
          apply Problem.fills_directNhwc hp hx hw schedule
          rw [htotal, Problem.outPixels]
          ring
  | dense buffer =>
      rw [hplan] at hfits
      have hsize := hfits.2.size_eq
      rw [← Nat.mul_assoc] at hsize
      cases hl : e.config.layout with
      | nchw =>
          rw [hl] at hw
          exact fills_multiplyNchw hp hw.rows (holdsRows_self hsize) schedule e.denseTile
            e.weight.size_lt_limit buffer.patches.size_lt_limit hlimit htotal
      | nhwc =>
          rw [hl] at hw
          apply fills_multiplyNhwc hp hw.rows (holdsRows_self hsize) schedule e.denseTile
            e.weight.size_lt_limit buffer.patches.size_lt_limit hlimit
          rw [htotal]
          ring
  | sparse buffer level weights =>
      rw [hplan] at hfits
      rcases hfits with ⟨_, hl, hbuffer, hprune⟩
      have hsize := hbuffer.size_eq
      rw [Nat.mul_comm e.problem.outPixels, ← Nat.mul_assoc] at hsize
      rw [hl] at hw
      have hstores := Percentile.stores_of_prune hw.rows hprune
      rw [hl]
      exact fills_multiplySparse hp hstores (holdsRows_self hsize) schedule
        buffer.patches.size_lt_limit hlimit htotal

/-- The second phase succeeds and determines the output. -/
theorem BuiltFrom.multiply_ok (h : BuiltFrom config denseTile input weight e)
    (schedule : Schedule) :
    e.multiply schedule =
      .ok { e with output := .ofCells e.output.shape (outputCells config.layout e.problem
        (e.plan.element config.layout e.problem (preparedView e.problem input) weight.cell
          (e.plan.stored e.problem))) } := by
  rw [multiply, Tensor.update_fills (h.fills_outputAction schedule)]
  rfl

/-!
## Both phases
-/

omit [One α] [Add α] [Mul α] [BEq α] [ZeroTest α] in
/-- After an expansion the scratch buffer holds the patches. -/
theorem stored_filled {p : Problem} {w : Array α} {plan : Plan α}
    (hfits : plan.Fits config p w) (hplan : plan ≠ .direct)
    (x : Nat → Nat → Nat → Nat → α) {b oh ow i : Nat} (hb : b < p.batch) (hoh : oh < p.outRows)
    (how : ow < p.outCols) (hi : i < p.patchSize) :
    (plan.filled x).stored p b oh ow i = p.patch config.layout x b oh ow i := by
  have hcell : ∀ (buffer : PatchBuffer α) (order : PatchOrder), buffer.Fits order p →
      ∀ j < p.batch * (p.outPixels * p.patchSize),
        (buffer.filled x).patches.data.getD j 0 = order.cells p x j := by
    intro buffer order hbuffer j hj
    rw [← hbuffer.size_eq, buffer.patches.size_eq] at hj
    show (tabulate _ (buffer.order.cells buffer.problem x)).getD j 0 = _
    rw [getD_tabulate hj, hbuffer.order_eq, hbuffer.problem_eq]
  -- the place that the multiply reads is the place that the expansion wrote
  have hpixel : b * p.outPixels + (oh * p.outCols + ow) < p.batch * p.outPixels :=
    add_mul_lt hb (add_mul_lt hoh how)
  cases plan with
  | direct =>
      exact absurd rfl hplan
  | dense buffer =>
      have hlt := add_mul_lt hpixel hi
      have hplace : (b * p.outPixels + (oh * p.outCols + ow)) * p.patchSize + i =
          rowMajor p.outRows p.outCols p.patchSize b oh ow i := by
        rw [rowMajor, Problem.outPixels]
        ring
      rw [Nat.mul_assoc] at hlt
      show (buffer.filled x).patches.data.getD _ 0 = _
      rw [hcell buffer _ hfits.2 _ hlt, hplace]
      cases config.layout with
      | nchw =>
          rw [Layout.pixelOrder, PatchOrder.cells, spread_rowMajor hoh how hi]
      | nhwc =>
          rw [Layout.pixelOrder, PatchOrder.cells, spread_rowMajor hoh how hi]
  | sparse buffer level csr =>
      rcases hfits with ⟨_, hl, hbuffer, _⟩
      have hlt : (b * p.patchSize + i) * p.outPixels + (oh * p.outCols + ow) <
          p.batch * p.patchSize * p.outPixels :=
        add_mul_lt (add_mul_lt hb hi) (add_mul_lt hoh how)
      have hplace : (b * p.patchSize + i) * p.outPixels + (oh * p.outCols + ow) =
          rowMajor p.patchSize p.outRows p.outCols b i oh ow := by
        rw [rowMajor, Problem.outPixels]
        ring
      rw [Nat.mul_assoc, Nat.mul_comm p.patchSize] at hlt
      show (buffer.filled x).patches.data.getD _ 0 = _
      rw [hcell buffer _ hbuffer _ hlt, hplace, hl, PatchOrder.cells, spread_rowMajor hi hoh how]

omit [BEq α] [ZeroTest α] in
/-- Elements depend on the patches of their own position only. -/
theorem element_congr {plan : Plan α} {layout : Layout} {p : Problem}
    {x w patch patch' : Nat → Nat → Nat → Nat → α} {b f oh ow : Nat}
    (h : plan ≠ .direct → ∀ i < p.patchSize, patch b oh ow i = patch' b oh ow i) :
    plan.element layout p x w patch b f oh ow = plan.element layout p x w patch' b f oh ow := by
  cases plan with
  | direct =>
      rfl
  | dense buffer =>
      have hpatch := h (by simp)
      cases layout with
      | nchw =>
          show 1 * rowProduct _ _ _ = 1 * rowProduct _ _ _
          rw [rowProduct_congr (fun _ _ => rfl) hpatch]
      | nhwc =>
          show 1 * rowProduct _ _ _ = 1 * rowProduct _ _ _
          rw [rowProduct_congr hpatch fun _ _ => rfl]
  | sparse buffer level csr =>
      exact keptProduct_congr (fun _ _ => rfl) (fun _ _ => rfl) (h (by simp))

omit [Zero α] [One α] [Add α] [Mul α] [BEq α] [ZeroTest α] [PruningOrder α] in
theorem outputCells_congr {layout : Layout} {p : Problem} {y z : Nat → Nat → Nat → Nat → α}
    (h : ∀ b < p.batch, ∀ f < p.outChannels, ∀ oh < p.outRows, ∀ ow < p.outCols,
      y b f oh ow = z b f oh ow) {i : Nat} (hi : i < p.batch * p.outChannels * p.outPixels) :
    outputCells layout p y i = outputCells layout p z i := by
  cases layout with
  | nchw =>
      have hsize : p.batch * p.outChannels * p.outPixels =
          p.batch * p.outChannels * p.outRows * p.outCols := by
        rw [Problem.outPixels]
        ring
      rw [hsize] at hi
      rcases exists_rowMajor hi with ⟨b, hb, f, hf, oh, hoh, ow, how, hEq⟩
      rw [outputCells, outputCells, hEq, spread_rowMajor hf hoh how, spread_rowMajor hf hoh how]
      exact h b hb f hf oh hoh ow how
  | nhwc =>
      have hsize : p.batch * p.outChannels * p.outPixels =
          p.batch * p.outRows * p.outCols * p.outChannels := by
        rw [Problem.outPixels]
        ring
      rw [hsize] at hi
      rcases exists_rowMajor hi with ⟨b, hb, oh, hoh, ow, how, f, hf, hEq⟩
      rw [outputCells, outputCells, hEq, spread_rowMajor hoh how hf, spread_rowMajor hoh how hf]
      exact h b hb f hf oh hoh ow how

end Executor
end
end ConvSweep
