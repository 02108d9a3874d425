import Mathlib
import ConvSweep.Proofs.Chunks
import ConvSweep.Proofs.Executor.Convolution
import ConvSweep.Proofs.Word.Offset

/-!
# The chunks of an executor

Every parallel loop of an executor runs over the chunks of a buffer: output planes or
output rows of the direct loops, batch elements of the scratch buffer, and rows of a
product.  The length of a chunk is chosen where the loop is, the length of the buffer
where it was allocated, and a task recovers the indices that its chunk stands for by
a division.  For every executor that can be built these fit together, and no task
reads outside of the operands.  So the tasks are independent, and each loop can be
run in an order of its own.
-/

namespace ConvSweep

open BufferM Loop

variable {α : Type}

/-- The numbers below `outer * inner` stand for the pairs of a number below `outer` and a number
below `inner`, and the task of a chunk is the one of its pair. -/
structure Decodes (outer inner : Nat) (task : ChunkTask α)
    (act : Nat → Nat → (len : Nat) → BufferM α len Unit) : Prop where
  in_range : ∀ i < outer * inner, i / inner < outer ∧ i % inner < inner
  numbered : ∀ a < outer, ∀ b < inner, ∃! i, i < outer * inner ∧ i / inner = a ∧ i % inner = b
  task_eq : ∀ i len, task i len = act (i / inner) (i % inner) len

theorem decodes_of_task_eq {outer inner : Nat} {task : ChunkTask α}
    {act : Nat → Nat → (len : Nat) → BufferM α len Unit}
    (h : ∀ i len, task i len = act (i / inner) (i % inner) len) :
    Decodes outer inner task act where
  in_range i hi := ⟨div_lt_of_lt_mul hi, mod_lt_of_lt_mul hi⟩
  numbered a ha b hb := by
    refine ⟨a * inner + b, ⟨add_mul_lt ha hb, add_mul_div_of_lt hb, add_mul_mod_of_lt hb⟩, ?_⟩
    rintro i ⟨_, rfl, rfl⟩
    exact (Nat.div_add_mod' i inner).symm
  task_eq := h

/-!
## Direct loops
-/

namespace Problem

variable [Zero α] [Add α] [Mul α]

/-- The output plane of one batch element and one filter. -/
def outputPlane (p : Problem) (tile : Tile) (input weights : Array α) (b f len : Nat) :
    BufferM α len Unit := do
  let filter ← slice weights (f * p.patchSize) p.patchSize
  let batchStart := b * p.inChannels * (p.inputRows * p.inputCols)
  forStrided p.outRows (max tile.rows 1) fun oh₀ =>
    forStrided p.outCols (max tile.cols 1) fun ow₀ =>
      forTile p.outRows (max tile.rows 1) oh₀ fun oh =>
        forTile p.outCols (max tile.cols 1) ow₀ fun ow => do
          let sum ← p.pixelSum input filter batchStart oh ow
          BufferM.write (oh * p.outCols + ow) sum

/-- The output row at one height of one batch element, for all filters. -/
def outputRow (p : Problem) (input weights : Array α) (b oh len : Nat) : BufferM α len Unit :=
  forRange 0 p.outCols fun ow =>
    forRange 0 p.outChannels fun f => do
      let filter ← slice weights (f * p.patchSize) p.patchSize
      let batchStart := b * p.inputRows * p.inputCols * p.inChannels
      let sum ← p.channelSum input filter batchStart oh ow
      BufferM.write (ow * p.outChannels + f) sum

variable {p : Problem} {input weight : Array α} {x w : Nat → Nat → Nat → Nat → α} {n : Nat}

theorem independent_planes (hp : p.Admissible) (hx : p.HoldsInput .nchw input x)
    (hw : p.HoldsWeight .nchw weight w) (tile : Tile)
    (hn : n = p.batch * p.outChannels * p.outPixels) :
    Independent n (p.outRows * p.outCols) (p.batch * p.outChannels)
        (p.planeTask tile input weight) ∧
      Decodes p.batch p.outChannels (p.planeTask tile input weight)
        (p.outputPlane tile input weight) := by
  constructor
  · exact independent_of_ends hp.expandable.outPixels_pos hn fun _ hplane =>
      (fills_planeTask hp hx hw tile hplane).alwaysEnds
  · exact decodes_of_task_eq fun _ _ => rfl

theorem independent_rows (hp : p.Admissible) (hx : p.HoldsInput .nhwc input x)
    (hw : p.HoldsWeight .nhwc weight w) (hn : n = p.batch * p.outChannels * p.outPixels) :
    Independent n (p.outCols * p.outChannels) (p.batch * p.outRows) (p.rowTask input weight) ∧
      Decodes p.batch p.outRows (p.rowTask input weight) (p.outputRow input weight) := by
  have hchunk : 0 < p.outCols * p.outChannels :=
    Nat.mul_pos hp.expandable.outCols_pos hp.outChannels_pos
  have hsize : n = p.batch * p.outRows * (p.outCols * p.outChannels) := by
    rw [hn, outPixels]
    ring
  constructor
  · exact independent_of_ends hchunk hsize fun _ hrow => (fills_rowTask hp hx hw hrow).alwaysEnds
  · exact decodes_of_task_eq fun _ _ => rfl

end Problem

/-!
## Patches
-/

namespace PatchBuffer

variable [Zero α] {buffer : PatchBuffer α} {order : PatchOrder} {p : Problem} {input : Tensor α}
  {x : Nat → Nat → Nat → Nat → α}

theorem Fits.independent (h : buffer.Fits order p) (hp : p.Expandable)
    (hx : p.HoldsInput order.source input.data x) :
    Independent buffer.patches.shape.total (p.outPixels * p.patchSize) p.batch
      (buffer.order.task p input.data) := by
  have hchunk := Nat.mul_pos hp.outPixels_pos hp.patchSize_pos
  rw [h.order_eq]
  exact independent_of_ends hchunk h.total_eq fun _ hb =>
    (PatchOrder.fills_task hp hx hb).alwaysEnds

/-- The expansion of an input is the same for every schedule. -/
theorem Fits.expand_eq (h : buffer.Fits order p) (hp : p.Expandable)
    (hx : p.HoldsInput order.source input.data x) (schedule : Schedule) :
    buffer.expand schedule input = buffer.expand .serial input := by
  have hindependent := h.independent hp hx
  rw [← h.problem_eq] at hindependent
  rw [expand, expand]
  dsimp only
  rw [hindependent.onChunks_eq schedule]

end PatchBuffer

/-!
## Products without gaps between their rows
-/

namespace DenseMultiply

variable [Zero α] [One α] [Add α] [Mul α] [BEq α] {mul : DenseMultiply α} {len : Nat}

/-- The task of one row of `C`. -/
def rowTask (mul : DenseMultiply α) (tile : Nat) : ChunkTask α :=
  fun i _ => onSlice 0 mul.n (mul.row (max tile 1) i)

/-- The multiply is a loop over the `m` rows of `C`, which are its chunks, and their tasks are
independent. -/
structure IndependentRows (mul : DenseMultiply α) (tile len : Nat) : Prop where
  gapless : mul.ldc = mul.n
  independent : Independent (mul.m * mul.n) mul.ldc mul.m (mul.rowTask tile)
  run_eq : ∀ schedule, (run schedule tile mul : BufferM α len Unit) =
    onSlice 0 (mul.m * mul.n) (onChunks schedule mul.ldc (mul.rowTask tile))

theorem IndependentRows.run_serial {tile : Nat} (h : mul.IndependentRows tile len)
    (schedule : Schedule) :
    (run schedule tile mul : BufferM α len Unit) = run .serial tile mul := by
  rw [h.run_eq, h.run_eq, h.independent.onChunks_eq schedule]

theorem independentRows (hgapless : mul.ldc = mul.n) (hm : 0 < mul.m) (hn : 0 < mul.n)
    (hk : 0 < mul.k) (hb : mul.Bounded) (hr : mul.Reaches len) (tile : Nat) :
    mul.IndependentRows tile len where
  gapless := hgapless
  independent := by
    apply independent_of_ends
    · rw [hgapless]
      exact hn
    · rw [hgapless]
    · intro i hi
      have hrow := acts_row hr hi hk (Nat.le_max_right tile 1)
      exact hrow.alwaysEnds.onSlice (by omega)
  run_eq schedule := by
    have hpos : ¬ (mul.m = 0 ∨ mul.n = 0) := by
      rintro (h | h)
      · exact Nat.ne_of_gt hm h
      · exact Nat.ne_of_gt hn h
    have hspan : mul.m * mul.ldc - (mul.ldc - mul.n) = mul.m * mul.n := by
      rw [hgapless, Nat.sub_self, Nat.sub_zero]
    unfold run
    rw [if_neg hpos, lift_bind (check_ok hm hn hb hr), lift_bind (Size.checked_of_lt hb.span_lt),
      hspan, if_neg (Nat.ne_of_gt hk), if_pos hgapless]
    rfl

theorem independentRows_ofRows {m n k : Nat} {a b : Array α} {A B : Nat → Nat → α} (hm : 0 < m)
    (hn : 0 < n) (hk : 0 < k) (ha : HoldsRows a m k A) (hb : HoldsRows b n k B)
    (halimit : a.size < Size.limit) (hblimit : b.size < Size.limit) (hlen : len = m * n)
    (hlimit : len < Size.limit) (tile : Nat) : (ofRows m n k a b).IndependentRows tile len := by
  subst hlen
  rw [ha.size_eq] at halimit
  rw [hb.size_eq] at hblimit
  exact independentRows rfl hm hn hk (bounded_ofRows hm hn halimit hblimit hlimit)
    (reaches_ofRows hm hn ha hb) tile

end DenseMultiply

namespace SparseMultiply

variable [Zero α] [One α] [Add α] [Mul α] [BEq α] {mul : SparseMultiply α} {len : Nat}
  {keep : Nat → Nat → Bool} {A B : Nat → Nat → α}

/-- The task of one row of `C`. -/
def rowTask (mul : SparseMultiply α) : ChunkTask α :=
  fun r _ => onSlice 0 mul.n (mul.row r)

/-- The multiply is a loop over the rows of `C`, which are its chunks, and their tasks are
independent. -/
structure IndependentRows (mul : SparseMultiply α) (len : Nat) : Prop where
  gapless : mul.ldc = mul.n
  independent : Independent (mul.a.rows * mul.n) mul.ldc mul.a.rows mul.rowTask
  run_eq : ∀ schedule, (run schedule mul : BufferM α len Unit) =
    onSlice 0 (mul.a.rows * mul.n) (onChunks schedule mul.ldc mul.rowTask)

theorem IndependentRows.run_serial (h : mul.IndependentRows len) (schedule : Schedule) :
    (run schedule mul : BufferM α len Unit) = run .serial mul := by
  rw [h.run_eq, h.run_eq, h.independent.onChunks_eq schedule]

theorem independentRows (hgapless : mul.ldc = mul.n) (hm : 0 < mul.a.rows) (hn : 0 < mul.n)
    (ha : mul.a.Stores mul.a.rows mul.a.cols keep A) (hr : mul.Reaches len) :
    mul.IndependentRows len where
  gapless := hgapless
  independent := by
    apply independent_of_ends
    · rw [hgapless]
      exact hn
    · rw [hgapless]
    · intro r hrow
      exact (acts_row ha hr hrow).alwaysEnds.onSlice (by omega)
  run_eq schedule := by
    have hpos : ¬ (mul.a.rows = 0 ∨ mul.n = 0) := by
      rintro (h | h)
      · exact Nat.ne_of_gt hm h
      · exact Nat.ne_of_gt hn h
    have hspan : (mul.a.rows - 1) * mul.ldc + mul.n = mul.a.rows * mul.n := by
      rw [hgapless, ← Nat.succ_mul, Nat.succ_eq_add_one, Nat.sub_add_cancel hm]
    unfold run
    rw [if_neg hpos, lift_bind (check_ok_iff.mpr hr), hspan, if_pos hgapless]
    rfl

theorem independentRows_ofRows {m n k : Nat} {a : CsrMatrix α} {b : Array α} (hm : 0 < m)
    (hn : 0 < n) (ha : a.Stores m k keep A) (hb : HoldsRows b k n B)
    (hblimit : b.size < Size.limit) (hlen : len = m * n) (hlimit : len < Size.limit) :
    (ofRows n a b).IndependentRows len := by
  subst hlen
  have hreaches := reaches_ofRows hm ha hb hblimit hlimit
  have hrows := ha.rows_eq
  have hcols := ha.cols_eq
  subst hrows hcols
  exact independentRows rfl hm hn ha hreaches

end SparseMultiply

/-!
## Executors
-/

/-- The scratch buffer of a plan. -/
def Plan.scratch? : Plan α → Option (PatchBuffer α)
  | .direct => none
  | .dense buffer => some buffer
  | .sparse buffer _ _ => some buffer

namespace Executor

variable [Zero α] [One α] [Add α] [Mul α] [BEq α]

/-- The dense multiply of one batch element in NCHW order. -/
def multiplyPlanes (schedule : Schedule) (p : Problem) (tile : Nat) (weight patches : Array α)
    {n : Nat} (b : Nat) : BufferM α n Unit := do
  let rows ← slice patches (b * p.outPixels * p.patchSize) (p.outPixels * p.patchSize)
  onSlice (b * p.outChannels * p.outPixels) (p.outChannels * p.outPixels) <|
    DenseMultiply.run schedule tile (.ofRows p.outChannels p.outPixels p.patchSize weight rows)

/-- The sparse multiply of one batch element. -/
def multiplyStored (schedule : Schedule) (p : Problem) (weights : CsrMatrix α)
    (patches : Array α) {n : Nat} (b : Nat) : BufferM α n Unit := do
  let rows ← slice patches (b * p.patchSize * p.outPixels) (p.patchSize * p.outPixels)
  onSlice (b * p.outChannels * p.outPixels) (p.outChannels * p.outPixels) <|
    SparseMultiply.run schedule (.ofRows p.outPixels weights rows)

/-- The second phase with a schedule of its own for every loop over chunks; a multiply in NCHW
order has one such loop for each batch element. -/
def outputActionBy (schedules : Nat → Schedule) (e : Executor α) {n : Nat} : BufferM α n Unit :=
  match e.plan, e.config.layout with
  | .direct, .nchw =>
      e.problem.directNchw (schedules 0) e.config.tile e.input.data e.weight.data
  | .direct, .nhwc => e.problem.directNhwc (schedules 0) e.input.data e.weight.data
  | .dense buffer, .nchw =>
      forRange 0 e.problem.batch fun b =>
        multiplyPlanes (schedules b) e.problem e.denseTile e.weight.data buffer.patches.data b
  | .dense buffer, .nhwc =>
      multiplyNhwc (schedules 0) e.problem e.denseTile e.weight.data buffer.patches.data
  | .sparse buffer _ weights, _ =>
      forRange 0 e.problem.batch fun b =>
        multiplyStored (schedules b) e.problem weights buffer.patches.data b

theorem outputActionBy_const (schedule : Schedule) (e : Executor α) {n : Nat} :
    (e.outputActionBy fun _ => schedule : BufferM α n Unit) = e.outputAction schedule := by
  rw [outputActionBy, outputAction]
  rfl

/-- Every loop over chunks of an executor has independent tasks, and neither phase depends on the
order in which they run. -/
structure IndependentChunks (e : Executor α) : Prop where
  planes : e.plan = .direct → e.config.layout = .nchw →
    Independent e.output.shape.total (e.problem.outRows * e.problem.outCols)
        (e.problem.batch * e.problem.outChannels)
        (e.problem.planeTask e.config.tile e.input.data e.weight.data) ∧
      Decodes e.problem.batch e.problem.outChannels
        (e.problem.planeTask e.config.tile e.input.data e.weight.data)
        (e.problem.outputPlane e.config.tile e.input.data e.weight.data)
  rows : e.plan = .direct → e.config.layout = .nhwc →
    Independent e.output.shape.total (e.problem.outCols * e.problem.outChannels)
        (e.problem.batch * e.problem.outRows) (e.problem.rowTask e.input.data e.weight.data) ∧
      Decodes e.problem.batch e.problem.outRows (e.problem.rowTask e.input.data e.weight.data)
        (e.problem.outputRow e.input.data e.weight.data)
  patches : ∀ buffer, e.plan.scratch? = some buffer → buffer.problem = e.problem ∧
    Independent buffer.patches.shape.total (e.problem.outPixels * e.problem.patchSize)
      e.problem.batch (buffer.order.task e.problem e.input.data)
  denseNchw : ∀ buffer, e.plan = .dense buffer → e.config.layout = .nchw →
    ∀ b < e.problem.batch, ∃ rows,
      slice buffer.patches.data (b * e.problem.outPixels * e.problem.patchSize)
          (e.problem.outPixels * e.problem.patchSize) = .ok rows ∧
        (DenseMultiply.ofRows e.problem.outChannels e.problem.outPixels e.problem.patchSize
          e.weight.data rows).IndependentRows e.denseTile
            (e.problem.outChannels * e.problem.outPixels)
  denseNhwc : ∀ buffer, e.plan = .dense buffer → e.config.layout = .nhwc →
    (DenseMultiply.ofRows (e.problem.batch * e.problem.outPixels) e.problem.outChannels
      e.problem.patchSize buffer.patches.data e.weight.data).IndependentRows e.denseTile
        e.output.shape.total
  sparse : ∀ buffer level weights, e.plan = .sparse buffer level weights →
    weights.rows = e.problem.outChannels ∧ ∀ b < e.problem.batch, ∃ rows,
      slice buffer.patches.data (b * e.problem.patchSize * e.problem.outPixels)
          (e.problem.patchSize * e.problem.outPixels) = .ok rows ∧
        (SparseMultiply.ofRows e.problem.outPixels weights rows).IndependentRows
          (e.problem.outChannels * e.problem.outPixels)
  expandPatches_eq : ∃ plan, ∀ schedule, e.expandPatches schedule = .ok { e with plan }
  outputAction_eq : ∀ schedules,
    (e.outputActionBy schedules : BufferM α e.output.shape.total Unit) = e.outputAction .serial
  multiply_eq : ∃ output, ∀ schedule, e.multiply schedule = .ok { e with output }

variable [ZeroTest α] [PruningOrder α] {config : ExecutorConfig} {denseTile : Nat}
  {input weight : Tensor α} {e : Executor α}

namespace BuiltFrom

section

variable (h : BuiltFrom config denseTile input weight e) {buffer : PatchBuffer α}
include h

omit [One α] [BEq α] [ZeroTest α] in
theorem independent_planes (hlayout : e.config.layout = .nchw) :
    Independent e.output.shape.total (e.problem.outRows * e.problem.outCols)
        (e.problem.batch * e.problem.outChannels)
        (e.problem.planeTask e.config.tile e.input.data e.weight.data) ∧
      Decodes e.problem.batch e.problem.outChannels
        (e.problem.planeTask e.config.tile e.input.data e.weight.data)
        (e.problem.outputPlane e.config.tile e.input.data e.weight.data) := by
  have hx := h.holdsInput
  have hw := h.holdsWeight
  rw [← h.config_eq, hlayout] at hx hw
  exact Problem.independent_planes h.accepts.admissible hx hw _ h.total_eq

omit [One α] [BEq α] [ZeroTest α] in
theorem independent_rows (hlayout : e.config.layout = .nhwc) :
    Independent e.output.shape.total (e.problem.outCols * e.problem.outChannels)
        (e.problem.batch * e.problem.outRows) (e.problem.rowTask e.input.data e.weight.data) ∧
      Decodes e.problem.batch e.problem.outRows (e.problem.rowTask e.input.data e.weight.data)
        (e.problem.outputRow e.input.data e.weight.data) := by
  have hx := h.holdsInput
  have hw := h.holdsWeight
  rw [← h.config_eq, hlayout] at hx hw
  exact Problem.independent_rows h.accepts.admissible hx hw h.total_eq

omit [One α] [Add α] [Mul α] [BEq α] [ZeroTest α] in
/-- The scratch buffer belongs to the problem and takes its patches from the prepared input. -/
theorem scratch_fits (hbuffer : e.plan.scratch? = some buffer) :
    ∃ order, buffer.Fits order e.problem ∧
      e.problem.HoldsInput order.source e.input.data (preparedView e.problem input) := by
  have hfits := h.plan_fits
  have hx := h.holdsInput
  cases hplan : e.plan with
  | direct =>
      rw [hplan] at hbuffer
      cases hbuffer
  | dense found =>
      rw [hplan] at hbuffer hfits
      cases hbuffer
      refine ⟨_, hfits.2, ?_⟩
      rwa [show config.layout.pixelOrder.source = config.layout by cases config.layout <;> rfl]
  | sparse found level weights =>
      rw [hplan] at hbuffer hfits
      cases hbuffer
      refine ⟨_, hfits.2.2.1, ?_⟩
      rwa [hfits.2.1] at hx

omit [One α] [Add α] [Mul α] [BEq α] [ZeroTest α] in
theorem independent_patches (hbuffer : e.plan.scratch? = some buffer) :
    buffer.problem = e.problem ∧
      Independent buffer.patches.shape.total (e.problem.outPixels * e.problem.patchSize)
        e.problem.batch (buffer.order.task e.problem e.input.data) := by
  rcases h.scratch_fits hbuffer with ⟨order, hfits, hx⟩
  exact ⟨hfits.problem_eq, hfits.independent h.accepts.admissible.expandable hx⟩

omit [One α] [Add α] [Mul α] [BEq α] [ZeroTest α] in
/-- The scratch buffer of a dense variant is a matrix with a row for each output position. -/
theorem holdsRows_dense (hplan : e.plan = .dense buffer) :
    HoldsRows buffer.patches.data (e.problem.batch * e.problem.outPixels) e.problem.patchSize
      fun i j => buffer.patches.data.getD (i * e.problem.patchSize + j) 0 := by
  have hfits := h.plan_fits
  rw [hplan] at hfits
  have hsize := hfits.2.size_eq
  rw [← Nat.mul_assoc] at hsize
  exact holdsRows_self hsize

omit [ZeroTest α] in
theorem independent_denseNchw (hplan : e.plan = .dense buffer) {b : Nat}
    (hb : b < e.problem.batch) : ∃ rows,
      slice buffer.patches.data (b * e.problem.outPixels * e.problem.patchSize)
          (e.problem.outPixels * e.problem.patchSize) = .ok rows ∧
        (DenseMultiply.ofRows e.problem.outChannels e.problem.outPixels e.problem.patchSize
          e.weight.data rows).IndependentRows e.denseTile
            (e.problem.outChannels * e.problem.outPixels) := by
  have hp := h.accepts.admissible
  rcases (h.holdsRows_dense hplan).slice_rows (mul_add_le e.problem.outPixels hb) with
    ⟨rows, hslice, hrows, hle⟩
  refine ⟨rows, hslice, ?_⟩
  exact DenseMultiply.independentRows_ofRows hp.outChannels_pos hp.expandable.outPixels_pos
    hp.expandable.patchSize_pos h.holdsWeight.rows hrows e.weight.size_lt_limit
    (Nat.lt_of_le_of_lt hle buffer.patches.size_lt_limit) rfl
    (planes_lt hp h.total_eq e.output.shape.total_lt_limit) _

omit [ZeroTest α] in
theorem independent_denseNhwc (hplan : e.plan = .dense buffer) :
    (DenseMultiply.ofRows (e.problem.batch * e.problem.outPixels) e.problem.outChannels
      e.problem.patchSize buffer.patches.data e.weight.data).IndependentRows e.denseTile
        e.output.shape.total := by
  have hp := h.accepts.admissible
  have hlen : e.output.shape.total =
      e.problem.batch * e.problem.outPixels * e.problem.outChannels := by
    rw [h.total_eq]
    ring
  exact DenseMultiply.independentRows_ofRows
    (Nat.mul_pos hp.batch_pos hp.expandable.outPixels_pos) hp.outChannels_pos
    hp.expandable.patchSize_pos (h.holdsRows_dense hplan) h.holdsWeight.rows
    buffer.patches.size_lt_limit e.weight.size_lt_limit hlen e.output.shape.total_lt_limit _

omit [ZeroTest α] in
theorem independent_sparse {level : Percentile} {weights : CsrMatrix α}
    (hplan : e.plan = .sparse buffer level weights) :
    weights.rows = e.problem.outChannels ∧ ∀ b < e.problem.batch, ∃ rows,
      slice buffer.patches.data (b * e.problem.patchSize * e.problem.outPixels)
          (e.problem.patchSize * e.problem.outPixels) = .ok rows ∧
        (SparseMultiply.ofRows e.problem.outPixels weights rows).IndependentRows
          (e.problem.outChannels * e.problem.outPixels) := by
  have hp := h.accepts.admissible
  have hfits := h.plan_fits
  rw [hplan] at hfits
  rcases hfits with ⟨_, _, hbuffer, hprune⟩
  have hstores := Percentile.stores_of_prune h.holdsWeight.rows hprune
  have hsize := hbuffer.size_eq
  rw [Nat.mul_comm e.problem.outPixels, ← Nat.mul_assoc] at hsize
  refine ⟨hstores.rows_eq, ?_⟩
  intro b hb
  rcases (holdsRows_self hsize).slice_rows (mul_add_le e.problem.patchSize hb) with
    ⟨rows, hslice, hrows, hle⟩
  refine ⟨rows, hslice, ?_⟩
  exact SparseMultiply.independentRows_ofRows hp.outChannels_pos hp.expandable.outPixels_pos
    hstores hrows (Nat.lt_of_le_of_lt hle buffer.patches.size_lt_limit) rfl
    (planes_lt hp h.total_eq e.output.shape.total_lt_limit)

/-!
## Both phases
-/

omit [ZeroTest α] in
/-- The second phase with its loops in any orders: each of them can be put in order by itself. -/
theorem outputActionBy_eq (schedules : Nat → Schedule) :
    (e.outputActionBy schedules : BufferM α e.output.shape.total Unit) =
      e.outputAction .serial := by
  rw [← outputActionBy_const, outputActionBy, outputActionBy]
  cases hplan : e.plan with
  | direct =>
      cases hlayout : e.config.layout with
      | nchw =>
          exact (h.independent_planes hlayout).1.onChunks_eq (schedules 0)
      | nhwc =>
          exact (h.independent_rows hlayout).1.onChunks_eq (schedules 0)
  | dense buffer =>
      cases e.config.layout with
      | nchw =>
          apply forRange_zero_congr
          intro b hb
          rcases h.independent_denseNchw hplan hb with ⟨rows, hslice, hindependent⟩
          rw [multiplyPlanes, multiplyPlanes, lift_bind hslice, lift_bind hslice,
            hindependent.run_serial (schedules b)]
      | nhwc =>
          exact (h.independent_denseNhwc hplan).run_serial (schedules 0)
  | sparse buffer level weights =>
      apply forRange_zero_congr
      intro b hb
      rcases (h.independent_sparse hplan).2 b hb with ⟨rows, hslice, hindependent⟩
      rw [multiplyStored, multiplyStored, lift_bind hslice, lift_bind hslice,
        hindependent.run_serial (schedules b)]

end

theorem independentChunks (h : BuiltFrom config denseTile input weight e) :
    e.IndependentChunks where
  planes _ hlayout := h.independent_planes hlayout
  rows _ hlayout := h.independent_rows hlayout
  patches _ hbuffer := h.independent_patches hbuffer
  denseNchw _ hplan _ _ hb := h.independent_denseNchw hplan hb
  denseNhwc _ hplan _ := h.independent_denseNhwc hplan
  sparse _ _ _ hplan := h.independent_sparse hplan
  expandPatches_eq := ⟨_, h.expandPatches_ok⟩
  outputAction_eq := h.outputActionBy_eq
  multiply_eq := ⟨_, h.multiply_ok⟩

end BuiltFrom

/-- In every state that an executor can reach, the tasks of every loop over chunks are independent
of each other. -/
theorem reached_chunks_independent (h : Reached config denseTile input weight e) :
    e.IndependentChunks :=
  h.builtFrom.independentChunks

end Executor

/-!
## Two batch elements and two filters
-/

/-- From the last task to the first. -/
def Schedule.backward : Schedule where
  order count := (List.range count).reverse
  order_perm count := (List.range count).reverse_perm

namespace Executor

/-- Two batch elements of one pixel in two channels. -/
def twoPixels : Tensor Int where
  shape := ⟨[2, 2, 1, 1], [2, 1, 1, 1], 4, by decide, by decide, by decide⟩
  data := #[5, 6, 7, 8]
  size_eq := rfl

/-- Two filters of one tap in each channel. -/
def twoFilters : Tensor Int where
  shape := ⟨[2, 2, 1, 1], [2, 1, 1, 1], 4, by decide, by decide, by decide⟩
  data := #[10, 20, 30, 40]
  size_eq := rfl

/-- The four planes can be computed from the last to the first. -/
theorem four_planes_backward :
    ∃ e, create { ExecutorConfig.standard with padding := .valid } 4 twoPixels twoFilters = .ok e ∧
      e.IndependentChunks ∧ e.output.dims = [2, 2, 1, 1] ∧
      chunkCount e.output.shape.total (e.problem.outRows * e.problem.outCols) =
        e.problem.batch * e.problem.outChannels ∧
      e.multiply .backward = e.multiply .serial := by
  have hok : (create { ExecutorConfig.standard with padding := .valid } 4 twoPixels
      twoFilters).isOk = true := by
    decide
  rcases exists_of_isOk hok with ⟨e, hcreate⟩
  have hchunks := reached_chunks_independent (.create hcreate)
  have hbuilt := (create_builtFrom hcreate).1
  have hplan : e.plan = .direct := hbuilt.plan_fits.eq_direct rfl
  have hlayout : e.config.layout = .nchw := by
    rw [hbuilt.config_eq]
    rfl
  rcases hchunks.multiply_eq with ⟨output, hmultiply⟩
  refine ⟨e, hcreate, hchunks, ?_, (hchunks.planes hplan hlayout).1.count_eq, ?_⟩
  · have hproblem : Except.ok e.problem =
        checkPair { ExecutorConfig.standard with padding := .valid } twoPixels twoFilters :=
      hbuilt.checked.symm
    have hdims := hbuilt.output_dims
    rw [show e.problem = ⟨2, 2, 2, 1, 1, 1, .valid⟩ from Except.ok.inj hproblem] at hdims
    exact hdims
  · rw [hmultiply, hmultiply]

end Executor
end ConvSweep
