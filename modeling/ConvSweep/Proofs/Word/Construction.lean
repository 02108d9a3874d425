import Mathlib
import ConvSweep.Proofs.Word.Executor

/-!
# Construction in machine words

The construction of an executor with every size operation checked, from the border
to the pruned weights.  The checks of the pair come first and they keep every
subtraction within the word; the buffers are allocated before they are written,
and then the places in them are words.  So the checked construction is the
construction of the library, for every pair of tensors.
-/

namespace ConvSweep

open Loop

variable {α : Type}

/-!
## Checked operations
-/

namespace Word

section

variable [Zero α]

/-- Copies row `y` of a plane between the borders of the padded plane. -/
def copyRow (data : Array α) (h w pad rows cols plane y : Nat) {len : Nat} :
    BufferM α len Unit := do
  let source ← ((plane * h + y) * w : Offset).eval
  let target ← ((plane * rows + y + pad) * cols + pad : Offset).eval
  let row ← span data source (source + w)
  onSpan target (target + w) fun _ => BufferM.copyFrom row

/-- `(N, C, H, W)` with a zero border around each plane. -/
def padNchw (t : Tensor α) (pad : Nat) : Outcome (Tensor α) := do
  if pad = 0 then
    return t
  let (n, c, h, w) ← t.shape.quad
  let rows ← (h + 2 * pad : Offset).eval
  let cols ← (w + 2 * pad : Offset).eval
  Tensor.build [n, c, rows, cols] fun _ => do
    let planes ← (n * c : Offset).eval
    forRange 0 planes fun plane =>
      forRange 0 h fun y => copyRow t.data h w pad rows cols plane y

/-- Copies row `y` of a channel into the channel's places of its pixels. -/
def scatterRow (data : Array α) (c h w pad rows cols b ch y : Nat) {len : Nat} :
    BufferM α len Unit := do
  let source ← (((b * c + ch) * h + y) * w : Offset).eval
  let target ← ((b * rows + y + pad) * cols + pad : Offset).eval
  forRange 0 w fun x => do
    let value ← fetchAt data (source + x)
    writeAt ((target + x) * c + ch) value

/-- `(N, C, H, W)` to `(N, H + 2 * pad, W + 2 * pad, C)`. -/
def toNhwcPadded (t : Tensor α) (pad : Nat) : Outcome (Tensor α) := do
  let (n, c, h, w) ← t.shape.quad
  let rows ← (h + 2 * pad : Offset).eval
  let cols ← (w + 2 * pad : Offset).eval
  Tensor.build [n, rows, cols, c] fun _ =>
    forRange 0 n fun b =>
      forRange 0 c fun ch =>
        forRange 0 h fun y => scatterRow t.data c h w pad rows cols b ch y

def prepare (layout : Layout) (p : Problem) (input weight : Tensor α) :
    Outcome (Tensor α × Tensor α) := do
  let border ← border p
  match layout with
  | .nchw => do
      let input ← padNchw input border
      return (input, weight)
  | .nhwc => do
      let input ← toNhwcPadded input border
      let weight ← toNhwcPadded weight 0
      return (input, weight)

/-- A scratch tensor of zeros. -/
def createPatches (order : PatchOrder) (p : Problem) : Outcome (PatchBuffer α) := do
  let _ ← outRows p
  let _ ← outCols p
  let patches ← Tensor.zeros (order.dims p)
  return { order, problem := p, patches }

variable [PruningOrder α]

def createPlan (config : ExecutorConfig) (p : Problem) (weight : Tensor α) :
    Outcome (Plan α) :=
  match config.algorithm, config.layout with
  | .direct, _ => return .direct
  | .dense, .nchw => do
      return .dense (← createPatches .pixelChw p)
  | .dense, .nhwc => do
      return .dense (← createPatches .pixelHwc p)
  | .sparse, _ => do
      let patches ← createPatches .channelMajor p
      let level ← Percentile.ofNumber config.percentile
      let columns ← patchSize p
      let weights ← prune level weight.data p.outChannels columns
      return .sparse patches level weights

def create (config : ExecutorConfig) (denseTile : Nat) (input weight : Tensor α) :
    Outcome (Executor α) := do
  let p ← Executor.checkPair config input weight
  let (input, weight) ← prepare config.layout p input weight
  let _ ← outRows p
  let _ ← outCols p
  let output ← Tensor.zeros (Executor.outputDims config.layout p)
  let plan ← createPlan config p weight
  return { config, problem := p, denseTile, input, weight, output, plan }

/-- One convolution, from an NCHW input to an NCHW result. -/
def conv2d [One α] [Add α] [Mul α] [BEq α] (config : ExecutorConfig) (input weight : Tensor α) :
    Outcome (Tensor α) := do
  let e ← create config DenseMultiply.standardTile input weight
  let e ← expandPatches .serial e
  let e ← multiply .serial e
  result e

end

/-!
## Conversions
-/

theorem copyRow_eq {data : Array α} {planes h w pad rows cols plane y len : Nat}
    (hh : Offset.Counts h) (hw : Offset.Counts w) (hr : Offset.Counts rows)
    (hc : Offset.Counts cols) (hplane : plane < planes) (hy : y < h) (hrow : y + pad < rows)
    (hcol : pad + w ≤ cols) (hsource : planes * h * w < Size.limit)
    (htarget : planes * rows * cols < Size.limit) :
    (copyRow data h w pad rows cols plane y : BufferM α len Unit) = (do
      let row ← slice data ((plane * h + y) * w) w
      BufferM.onSlice ((plane * rows + y + pad) * cols + pad) w (BufferM.copyFrom row)) := by
  have hend : (plane * h + y) * w + w < Size.limit :=
    Nat.lt_of_le_of_lt (mul_add_le w (add_mul_lt hplane hy)) hsource
  have hend' : (plane * rows + y + pad) * cols + pad + w < Size.limit := by
    have hlast := mul_add_le cols (add_mul_lt hplane hrow)
    rw [← Nat.add_assoc] at hlast
    omega
  have hfirst : ((plane * h + y) * w : Offset).eval = .ok ((plane * h + y) * w) :=
    Offset.eval_of_rises (by simp [hh, hw]) (Nat.lt_of_le_of_lt (Nat.le_add_right _ w) hend)
  have hfirst' : ((plane * rows + y + pad) * cols + pad : Offset).eval =
      .ok ((plane * rows + y + pad) * cols + pad) :=
    Offset.eval_of_rises (by simp [hr, hc]) (Nat.lt_of_le_of_lt (Nat.le_add_right _ w) hend')
  rw [copyRow, BufferM.lift_bind hfirst, BufferM.lift_bind hfirst', span_from hend]
  congr 1
  funext row
  exact onSpan_from hend'

/-- The extents of a tensor can be divided by. -/
theorem counts_quad {t : Tensor α} {a b c d : Nat} (hdims : t.dims = [a, b, c, d]) :
    Offset.Counts a ∧ Offset.Counts b ∧ Offset.Counts c ∧ Offset.Counts d := by
  rcases Shape.quad_pos hdims with ⟨ha, hb, hc, hd⟩
  rcases Tensor.extents_lt hdims with ⟨ha', hb', hc', hd'⟩
  exact ⟨⟨ha, ha'⟩, ⟨hb, hb'⟩, ⟨hc, hc'⟩, ⟨hd, hd'⟩⟩

theorem padNchw_eq [Zero α] (t : Tensor α) {pad : Nat} (hpad : pad < Size.limit) :
    padNchw t pad = t.padNchw pad := by
  unfold padNchw Tensor.padNchw
  by_cases hzero : pad = 0
  · rw [if_pos hzero, if_pos hzero]
  rw [if_neg hzero, if_neg hzero]
  apply error_bind_congr
  rintro ⟨n, c, h, w⟩ hquad
  have hdims : t.dims = [n, c, h, w] := Shape.of_quad hquad
  have htotal := t.shape.total_lt_limit
  rw [Shape.total_quad hdims] at htotal
  rcases counts_quad hdims with ⟨_, hc, hh, hw⟩
  dsimp only
  rw [eval_bordered hpad, eval_bordered hpad]
  apply fault_bind_congr
  intro rows hrows
  apply fault_bind_congr
  intro cols hcols
  rcases Size.of_checked hrows with ⟨hrowsLt, rfl⟩
  rcases Size.of_checked hcols with ⟨hcolsLt, rfl⟩
  apply Tensor.build_congr
  intro hprod size
  have htarget : n * c * (h + 2 * pad) * (w + 2 * pad) < Size.limit := by
    apply Nat.lt_trans _ Size.bufferLimit_lt_limit
    simpa [Nat.mul_assoc] using hprod
  have hplanes : (n * c : Offset).eval = .ok (n * c) := by
    have hle : n * c ≤ n * c * h * w := by
      rw [Nat.mul_assoc (n * c)]
      exact Nat.le_mul_of_pos_right _ (Nat.mul_pos hh.1 hw.1)
    exact Offset.eval_of_rises (by simp [hc]) (Nat.lt_of_le_of_lt hle htotal)
  rw [BufferM.lift_bind hplanes]
  apply forRange_zero_congr
  intro plane hplane
  apply forRange_zero_congr
  intro y hy
  exact copyRow_eq hh hw ⟨by omega, hrowsLt⟩ ⟨by omega, hcolsLt⟩ hplane hy (by omega) (by omega)
    htotal htarget

theorem scatterRow_eq {data : Array α} {n c h w pad rows cols b ch y len : Nat}
    (hc : Offset.Counts c) (hh : Offset.Counts h) (hw : Offset.Counts w)
    (hr : Offset.Counts rows) (hcl : Offset.Counts cols) (hb : b < n) (hch : ch < c) (hy : y < h)
    (hrow : y + pad < rows) (hcol : pad + w ≤ cols) (hsource : n * c * h * w < Size.limit)
    (htarget : n * rows * cols * c < Size.limit) :
    (scatterRow data c h w pad rows cols b ch y : BufferM α len Unit) =
      (forRange 0 w fun x => do
        let value ← fetch data (((b * c + ch) * h + y) * w + x)
        BufferM.write ((((b * rows + y + pad) * cols + pad) + x) * c + ch) value) := by
  have hplace {x : Nat} (hx : x < w) : ((b * c + ch) * h + y) * w + x < Size.limit :=
    Nat.lt_trans (rowMajor_lt hb hch hy hx) hsource
  have hpixel {x : Nat} (hx : x < w) : (b * rows + y + pad) * cols + pad + x < n * rows * cols := by
    rw [Nat.add_assoc (b * rows), Nat.add_assoc _ pad]
    exact add_mul_lt (add_mul_lt hb hrow) (by omega)
  have hplace' {x : Nat} (hx : x < w) :
      ((b * rows + y + pad) * cols + pad + x) * c + ch < Size.limit :=
    Nat.lt_trans (add_mul_lt (hpixel hx) hch) htarget
  have hfirst : (((b * c + ch) * h + y) * w : Offset).eval = .ok (((b * c + ch) * h + y) * w) :=
    Offset.eval_of_rises (by simp [hc, hh, hw]) (hplace hw.1)
  have hfirst' : ((b * rows + y + pad) * cols + pad : Offset).eval =
      .ok ((b * rows + y + pad) * cols + pad) := by
    apply Offset.eval_of_rises (by simp [hr, hcl])
    have hle := Nat.le_mul_of_pos_right ((b * rows + y + pad) * cols + pad + 0) hc.1
    have hlt := hplace' hw.1
    show (b * rows + y + pad) * cols + pad < Size.limit
    omega
  rw [scatterRow, BufferM.lift_bind hfirst, BufferM.lift_bind hfirst']
  apply forRange_zero_congr
  intro x hx
  rw [fetchAt_add (hplace hx)]
  congr 1
  funext value
  exact writeAt_eq (by simp [hc]) (hplace' hx)

/-- The conversion with a border is computed as in the library. -/
theorem toNhwcPadded_eq [Zero α] (t : Tensor α) {pad : Nat} (hpad : pad < Size.limit) :
    toNhwcPadded t pad = t.toNhwcPadded pad := by
  unfold toNhwcPadded Tensor.toNhwcPadded
  apply error_bind_congr
  rintro ⟨n, c, h, w⟩ hquad
  have hdims : t.dims = [n, c, h, w] := Shape.of_quad hquad
  have htotal := t.shape.total_lt_limit
  rw [Shape.total_quad hdims] at htotal
  rcases counts_quad hdims with ⟨_, hc, hh, hw⟩
  dsimp only
  rw [eval_bordered hpad, eval_bordered hpad]
  apply fault_bind_congr
  intro rows hrows
  apply fault_bind_congr
  intro cols hcols
  rcases Size.of_checked hrows with ⟨hrowsLt, rfl⟩
  rcases Size.of_checked hcols with ⟨hcolsLt, rfl⟩
  apply Tensor.build_congr
  intro hprod size
  have htarget : n * (h + 2 * pad) * (w + 2 * pad) * c < Size.limit := by
    apply Nat.lt_trans _ Size.bufferLimit_lt_limit
    simpa [Nat.mul_assoc] using hprod
  apply forRange_zero_congr
  intro b hb
  apply forRange_zero_congr
  intro ch hch
  apply forRange_zero_congr
  intro y hy
  have hr : Offset.Counts (h + 2 * pad) := ⟨Nat.add_pos_left hh.1 _, hrowsLt⟩
  have hcl : Offset.Counts (w + 2 * pad) := ⟨Nat.add_pos_left hw.1 _, hcolsLt⟩
  exact scatterRow_eq hc hh hw hr hcl hb hch hy (by omega) (by omega) htotal htarget

/-!
## Construction
-/

section

variable [Zero α] {config : ExecutorConfig} {input weight : Tensor α} {p : Problem}
  (hp : Executor.Accepts config input weight p)
include hp

omit [Zero α] in
theorem counts_kernel : Offset.Counts p.kernel :=
  (counts_quad hp.weight_dims).2.2.1

theorem prepare_eq (layout : Layout) :
    prepare layout p input weight = Executor.prepare layout p input weight := by
  have hkernel := counts_kernel hp
  have hborder : p.border < Size.limit := Nat.lt_of_le_of_lt p.border_le hkernel.2
  rw [prepare, border_of_lt hkernel.1 hkernel.2, fault_ok_bind]
  cases layout with
  | nchw =>
      dsimp only
      rw [padNchw_eq input hborder]
      rfl
  | nhwc =>
      dsimp only
      rw [toNhwcPadded_eq input hborder, toNhwcPadded_eq weight (by decide)]
      rfl

theorem createPatches_eq (order : PatchOrder) :
    (createPatches order p : Outcome (PatchBuffer α)) = PatchBuffer.create order p := by
  have hexpandable := hp.admissible.expandable
  rcases Tensor.extents_lt hp.input_dims with ⟨_, _, hheight, hwidth⟩
  rw [createPatches, outRows_of_lt hexpandable hheight, fault_ok_bind,
    outCols_of_lt hexpandable hwidth, fault_ok_bind, PatchBuffer.create,
    check_of _ hp.outputFits, fault_ok_bind]

variable [PruningOrder α]

theorem createPlan_eq {input' weight' : Tensor α}
    (hprepare : Executor.prepare config.layout p input weight = .ok (input', weight')) :
    createPlan config p weight' = Executor.createPlan config p weight' := by
  have hkernel := counts_kernel hp
  have hsize := (Executor.of_prepare hp hprepare).2.2.rows.size_eq
  have hlimit : p.outChannels * p.patchSize < Size.limit := by
    rw [← hsize, weight'.size_eq]
    exact weight'.shape.total_lt_limit
  have hrows : p.outChannels < Size.limit :=
    Nat.lt_of_le_of_lt (Nat.le_mul_of_pos_right _ hp.admissible.expandable.patchSize_pos) hlimit
  have hcolumns : p.patchSize < Size.limit :=
    Nat.lt_of_le_of_lt (Nat.le_mul_of_pos_left _ hp.admissible.outChannels_pos) hlimit
  unfold createPlan Executor.createPlan
  cases config.algorithm with
  | direct =>
      rfl
  | dense =>
      cases config.layout with
      | nchw =>
          dsimp only
          rw [createPatches_eq hp]
      | nhwc =>
          dsimp only
          rw [createPatches_eq hp]
  | sparse =>
      dsimp only
      rw [createPatches_eq hp, patchSize_of_lt hkernel hcolumns]
      apply bind_congr_ok
      intro patches _
      rw [Executor.pruneWeight]
      cases Percentile.ofNumber config.percentile with
      | error e =>
          rfl
      | ok level =>
          rw [error_ok_bind, error_ok_bind, fault_ok_bind, prune_eq level _ hrows hcolumns]
          cases level.prune weight'.data p.outChannels p.patchSize with
          | error failure =>
              rfl
          | ok csr =>
              rfl

end

section

variable [Zero α] [PruningOrder α]

/-- The construction with all size operations checked, for every pair of tensors. -/
theorem create_eq (config : ExecutorConfig) (denseTile : Nat) (input weight : Tensor α) :
    create config denseTile input weight = Executor.create config denseTile input weight := by
  rw [create, Executor.create]
  apply error_bind_congr
  intro p hcheck
  have hp := Executor.accepts_of_checkPair hcheck
  have hexpandable := hp.admissible.expandable
  rcases Tensor.extents_lt hp.input_dims with ⟨_, _, hheight, hwidth⟩
  rw [prepare_eq hp]
  apply bind_congr_ok
  rintro ⟨input', weight'⟩ hprepare
  dsimp only
  rw [outRows_of_lt hexpandable hheight, fault_ok_bind, outCols_of_lt hexpandable hwidth,
    fault_ok_bind, createPlan_eq hp hprepare]

/-- A whole convolution with all size operations checked. -/
theorem conv2d_eq [One α] [Add α] [Mul α] [BEq α] [ZeroTest α] {config : ExecutorConfig}
    {input weight : Tensor α} (hsize : Executor.Sized config input weight) :
    conv2d config input weight = ConvSweep.conv2d config input weight := by
  rw [conv2d, ConvSweep.conv2d, create_eq]
  apply bind_congr_ok
  intro e hcreate
  have hbuilt := (Executor.create_builtFrom hcreate).1
  rcases hbuilt.expandPatches_step .serial with ⟨filled, hexpand, hfilled, _⟩
  rcases hfilled.multiply_step .serial with ⟨done, hmultiply, hdone, _⟩
  rw [expandPatches_eq hbuilt hsize, hexpand, ok_bind, multiply_eq hfilled hsize, hmultiply,
    ok_bind, result_eq hdone hsize, Executor.run, hexpand, ok_bind, hmultiply, ok_bind]

end

end Word
end ConvSweep
