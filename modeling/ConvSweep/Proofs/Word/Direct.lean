import Mathlib
import ConvSweep.Conv.Direct
import ConvSweep.Proofs.Conv.Direct
import ConvSweep.Proofs.Word.Problem

/-!
# Direct convolution in machine words

The two loop nests with every size operation checked.  A tap behind an inline
border is found by a signed subtraction, the filters and the kernel rows are cut
out between two offsets, and a tile ends at the sum of its start and its size.  For
a bounded problem none of this can fail, so these are the loops of the library.
-/

namespace ConvSweep

open Loop

namespace Word

variable {α : Type} [Zero α] [Add α] [Mul α]

/-!
## NCHW
-/

/-- Adds the products of kernel row `kh` of channel `c`; `channel` is where the input plane
starts. -/
def addKernelRow (p : Problem) (input filter : Array α) (channel c oh ow kh : Nat) (sum : α) :
    Except Fault α := do
  let weights ← span filter ((c * p.kernel + kh) * p.kernel) ((c * p.kernel + kh + 1) * p.kernel)
  if p.padding = .inline then
    let ih ← signedPlace p.halo oh kh
    if outside p.inputRows ih then
      return sum
    foldRange 0 p.kernel (fun sum kw => do
      let iw ← signedPlace p.halo ow kw
      if outside p.inputCols iw then
        return sum
      let x ← fetchAt input (channel + ofSigned ih * p.inputCols + ofSigned iw)
      let w ← fetch weights kw
      return sum + x * w) sum
  else
    let source ← (channel + (oh + kh) * p.inputCols + ow : Offset).eval
    foldRange 0 p.kernel (fun sum kw => do
      let x ← fetchAt input (source + kw)
      let w ← fetch weights kw
      return sum + x * w) sum

def pixelSum (p : Problem) (input filter : Array α) (batchStart oh ow : Nat) : Except Fault α :=
  foldRange 0 p.inChannels (fun sum c => do
    let channel ← (batchStart + c * (p.inputRows * p.inputCols) : Offset).eval
    foldRange 0 p.kernel (fun sum kh =>
      addKernelRow p input filter channel c oh ow kh sum) sum) 0

def planeTask (p : Problem) (tile : Tile) (input weights : Array α) : ChunkTask α :=
  fun plane _ => do
    let (b, f) ← divide plane p.outChannels
    let filter ← span weights (f * p.patchSize) ((f + 1) * p.patchSize)
    let batchStart ← (b * p.inChannels * (p.inputRows * p.inputCols) : Offset).eval
    let rows := max tile.rows 1
    let cols := max tile.cols 1
    forStrided p.outRows rows fun oh₀ =>
      forStrided p.outCols cols fun ow₀ => do
        let oh₁ ← (oh₀ + rows : Offset).eval
        let ow₁ ← (ow₀ + cols : Offset).eval
        forRange oh₀ (min oh₁ p.outRows - oh₀) fun oh =>
          forRange ow₀ (min ow₁ p.outCols - ow₀) fun ow => do
            let sum ← pixelSum p input filter batchStart oh ow
            writeAt (oh * p.outCols + ow) sum

def directNchw (p : Problem) (schedule : Schedule) (tile : Tile) (input weights : Array α)
    {n : Nat} : BufferM α n Unit := do
  measure p
  BufferM.onChunks schedule (p.outRows * p.outCols) (planeTask p tile input weights)

section

variable {p : Problem} {input filter weights : Array α} {b c f oh ow kh : Nat}

omit [Zero α] [Add α] [Mul α] in
/-- A tile may be as large as a word: where it is, it starts at zero. -/
theorem tile_end_ok {extent tile i : Nat} (hi : i < strideCount extent (max tile 1))
    (hextent : extent < Size.bufferLimit) (htile : tile < Size.limit) :
    ((i * max tile 1 : Nat) + (max tile 1 : Nat) : Offset).eval =
      .ok (i * max tile 1 + max tile 1) := by
  have hmax : max tile 1 < Size.limit := Nat.max_lt.mpr ⟨htile, by decide⟩
  exact Offset.eval_of_rises (by simp) (tile_end_lt hi hextent hmax)

omit [Zero α] [Add α] [Mul α] in
theorem span_filter (h : p.Bounded) (hf : f < p.outChannels) :
    span weights (f * p.patchSize) ((f + 1) * p.patchSize) =
      slice weights (f * p.patchSize) p.patchSize :=
  span_stretch (by simp) h.contained.counts_patchSize hf
    (Nat.lt_trans h.weight_lt Size.bufferLimit_lt_limit)

omit [Zero α] in
theorem addKernelRow_eq (h : p.Bounded) (hb : b < p.batch) (hc : c < p.inChannels)
    (hoh : oh < p.outRows) (how : ow < p.outCols) (hkh : kh < p.kernel) {channel : Nat}
    (hchannel : channel = b * p.inChannels * (p.inputRows * p.inputCols) +
      c * (p.inputRows * p.inputCols)) (sum : α) :
    addKernelRow p input filter channel c oh ow kh sum =
      p.addKernelRow input filter channel (c * p.kernel + kh) oh ow kh sum := by
  have hrow : span filter ((c * p.kernel + kh) * p.kernel) ((c * p.kernel + kh + 1) * p.kernel) =
      slice filter ((c * p.kernel + kh) * p.kernel) p.kernel :=
    span_stretch (by simp [h.contained.counts_kernel]) h.contained.counts_kernel (add_mul_lt hc hkh)
      h.contained.counts_patchSize.2
  unfold addKernelRow Problem.addKernelRow
  rw [hrow]
  congr 1
  funext row
  by_cases hpad : p.padding = .inline
  · rw [if_pos hpad, if_pos hpad]
    rcases h.contained.signedPlace_row hoh hkh with ⟨ih, hih, ⟨hout, hsource⟩ | ⟨hin, hsource⟩⟩
    · rw [hih, ok_bind, if_pos hout, hsource]
    · rw [hih, ok_bind, if_neg hin, hsource]
      apply foldRange_zero_congr
      intro kw hkw acc
      rcases h.contained.signedPlace_col how hkw with
        ⟨iw, hiw, ⟨hout', hsource'⟩ | ⟨hin', hsource'⟩⟩
      · rw [hiw, ok_bind, if_pos hout', hsource']
      · have hplace := h.contained.fetchAt_place hb hc (Problem.source?_lt hsource)
          (Problem.source?_lt hsource') hchannel input
        rw [hiw, ok_bind, if_neg hin', hsource', hplace]
  · rw [if_neg hpad, if_neg hpad]
    have hp := h.contained.expandable
    have hy := hp.row_lt hpad hoh hkh
    have hz : ow < p.inputCols := hp.col_lt hpad how hp.kernel_pos
    rw [h.contained.source_ok hb hc hpad hoh hkh hz hchannel, ok_bind]
    apply foldRange_zero_congr
    intro kw hkw acc
    have hlt := h.contained.place_lt hb hc hy (hp.col_lt hpad how hkw) hchannel
    rw [← Nat.add_assoc] at hlt
    rw [fetchAt_add hlt]

theorem pixelSum_eq (h : p.Bounded) (hb : b < p.batch) (hoh : oh < p.outRows)
    (how : ow < p.outCols) {batchStart : Nat}
    (hstart : batchStart = b * p.inChannels * (p.inputRows * p.inputCols)) :
    pixelSum p input filter batchStart oh ow = p.pixelSum input filter batchStart oh ow := by
  apply foldRange_zero_congr
  intro c hc acc
  rw [h.contained.channel_ok hb hc hstart, ok_bind]
  apply foldRange_zero_congr
  intro kh hkh acc
  apply addKernelRow_eq h hb hc hoh how hkh
  rw [hstart]

theorem planeTask_eq (h : p.Bounded) {tile : Tile} (hrows : tile.rows < Size.limit)
    (hcols : tile.cols < Size.limit) {plane : Nat} (hplane : plane < p.batch * p.outChannels) :
    planeTask p tile input weights plane (p.outRows * p.outCols) =
      p.planeTask tile input weights plane (p.outRows * p.outCols) := by
  have hb : plane / p.outChannels < p.batch := div_lt_of_lt_mul hplane
  have hf : plane % p.outChannels < p.outChannels := mod_lt_of_lt_mul hplane
  unfold planeTask Problem.planeTask
  rw [BufferM.lift_bind (divide_ok h.admissible.outChannels_pos)]
  generalize plane / p.outChannels = b at hb ⊢
  generalize plane % p.outChannels = f at hf ⊢
  dsimp only
  rw [span_filter h hf]
  congr 1
  funext filter
  rw [BufferM.lift_bind (h.contained.batch_ok hb)]
  apply forRange_zero_congr
  intro s hs
  apply forRange_zero_congr
  intro t ht
  dsimp only
  rw [BufferM.lift_bind (tile_end_ok hs h.contained.outRows_lt hrows),
    BufferM.lift_bind (tile_end_ok ht h.contained.outCols_lt hcols)]
  apply forRange_congr
  intro oh _ hoh
  apply forRange_congr
  intro ow _ how
  have hoh' : oh < p.outRows := by omega
  have how' : ow < p.outCols := by omega
  have hplace : (oh * p.outCols + ow : Offset).value < Size.limit :=
    Nat.lt_trans (add_mul_lt hoh' how') h.contained.counts_outPixels.2
  rw [pixelSum_eq h hb hoh' how' rfl]
  congr 1
  funext sum
  exact writeAt_eq (by simp [h.contained.counts_outCols]) hplace

/-- The loops in NCHW order with all size operations checked. -/
theorem directNchw_eq (h : p.Bounded) (schedule : Schedule) {tile : Tile}
    (hrows : tile.rows < Size.limit) (hcols : tile.cols < Size.limit) {n : Nat}
    (hn : n = p.batch * p.outChannels * (p.outRows * p.outCols)) :
    (directNchw p schedule tile input weights : BufferM α n Unit) =
      p.directNchw schedule tile input weights := by
  rw [directNchw, BufferM.lift_bind (measure_ok h.contained)]
  apply BufferM.onChunks_congr schedule hn
  intro plane hplane
  exact planeTask_eq h hrows hcols hplane

end

/-!
## NHWC
-/

/-- Adds the products of all channels at row `ih` and column `iw` of a batch element. -/
def addTap (p : Problem) (input filter : Array α) (batchStart kh kw ih iw : Nat) (sum : α) :
    Except Fault α := do
  let source ← (batchStart + (ih * p.inputCols + iw) * p.inChannels : Offset).eval
  let weights ← span filter ((kh * p.kernel + kw) * p.inChannels)
    ((kh * p.kernel + kw + 1) * p.inChannels)
  let xs ← span input source (source + p.inChannels)
  return dotFrom sum xs.toList weights.toList

/-- The signed places are computed in every mode, and compared with the extents under an inline
border only. -/
def channelSum (p : Problem) (input filter : Array α) (batchStart oh ow : Nat) :
    Except Fault α :=
  foldRange 0 p.kernel (fun sum kh => do
    let ih ← signedPlace p.halo oh kh
    if p.padding = .inline ∧ outside p.inputRows ih then
      return sum
    foldRange 0 p.kernel (fun sum kw => do
      let iw ← signedPlace p.halo ow kw
      if p.padding = .inline ∧ outside p.inputCols iw then
        return sum
      addTap p input filter batchStart kh kw (ofSigned ih) (ofSigned iw) sum) sum) 0

def rowTask (p : Problem) (input weights : Array α) : ChunkTask α :=
  fun row _ => do
    let (b, oh) ← divide row p.outRows
    let batchStart ← (b * p.inputRows * p.inputCols * p.inChannels : Offset).eval
    forRange 0 p.outCols fun ow =>
      forRange 0 p.outChannels fun f => do
        let filter ← span weights (f * p.patchSize) ((f + 1) * p.patchSize)
        let sum ← channelSum p input filter batchStart oh ow
        writeAt (ow * p.outChannels + f) sum

def directNhwc (p : Problem) (schedule : Schedule) (input weights : Array α) {n : Nat} :
    BufferM α n Unit := do
  measure p
  let chunk ← (p.outCols * p.outChannels : Offset).eval
  BufferM.onChunks schedule chunk (rowTask p input weights)

section

variable {p : Problem} {input filter weights : Array α} {b f oh ow kh kw ih iw : Nat}

omit [Zero α] in
theorem addTap_eq (h : p.Bounded) (hb : b < p.batch) (hkh : kh < p.kernel) (hkw : kw < p.kernel)
    (hrow : p.tap? p.inputRows oh kh = some ih) (hcol : p.tap? p.inputCols ow kw = some iw)
    (hih : ih < p.inputRows) (hiw : iw < p.inputCols) {batchStart : Nat}
    (hstart : batchStart = b * p.inputRows * p.inputCols * p.inChannels) (sum : α) :
    addTap p input filter batchStart kh kw ih iw sum =
      p.addTap input filter batchStart oh ow kh kw sum := by
  have hpixel := add_mul_lt hih hiw
  have hsource : (batchStart + (ih * p.inputCols + iw) * p.inChannels : Offset).eval =
      .ok (batchStart + (ih * p.inputCols + iw) * p.inChannels) := by
    apply h.contained.pixel_ok hb (by simp [h.contained.counts_inputCols]) ?_ hstart
    exact hpixel
  have hweights : span filter ((kh * p.kernel + kw) * p.inChannels)
      ((kh * p.kernel + kw + 1) * p.inChannels) =
        slice filter ((kh * p.kernel + kw) * p.inChannels) p.inChannels :=
    span_stretch (by simp [h.contained.counts_kernel]) h.contained.counts_inChannels
      (add_mul_lt hkh hkw) h.contained.taps_lt
  unfold addTap Problem.addTap
  rw [hsource, ok_bind, hweights, span_from (h.contained.channels_lt hb hpixel hstart), hrow, hcol]

theorem channelSum_eq (h : p.Bounded) (hb : b < p.batch) (hoh : oh < p.outRows)
    (how : ow < p.outCols) {batchStart : Nat}
    (hstart : batchStart = b * p.inputRows * p.inputCols * p.inChannels) :
    channelSum p input filter batchStart oh ow = p.channelSum input filter batchStart oh ow := by
  apply foldRange_zero_congr
  intro kh hkh sum
  have hrow := Problem.tap?_row h.admissible hoh hkh
  rcases h.contained.signedPlace_row hoh hkh with ⟨ih, hih, ⟨hout, hsource⟩ | ⟨hin, hsource⟩⟩
  · have hinline := h.admissible.expandable.inline_of_row_none hoh hkh hsource
    have hidle : foldRange 0 p.kernel (fun sum kw =>
        p.addTap input filter batchStart oh ow kh kw sum) sum = .ok sum := by
      rw [foldRange_zero_ok sum (g := fun sum _ => sum), List.foldl_fixed]
      intro kw _ acc
      rw [Problem.addTap, hrow, hsource]
      rfl
    rw [hih, ok_bind, if_pos ⟨hinline, hout⟩, hidle]
    rfl
  · rw [hih, ok_bind, if_neg fun hboth => hin hboth.2]
    apply foldRange_zero_congr
    intro kw hkw acc
    have hcol := Problem.tap?_col h.admissible how hkw
    rcases h.contained.signedPlace_col how hkw with ⟨iw, hiw, ⟨hout', hsource'⟩ | ⟨hin', hsource'⟩⟩
    · have hinline := h.admissible.expandable.inline_of_col_none how hkw hsource'
      rw [hiw, ok_bind, if_pos ⟨hinline, hout'⟩, Problem.addTap, hrow, hsource, hcol, hsource']
    · rw [hiw, ok_bind, if_neg fun hboth => hin' hboth.2]
      exact addTap_eq h hb hkh hkw (hrow.trans hsource) (hcol.trans hsource')
        (Problem.source?_lt hsource) (Problem.source?_lt hsource') hstart acc

theorem rowTask_eq (h : p.Bounded) {row : Nat} (hrow : row < p.batch * p.outRows) :
    rowTask p input weights row (p.outCols * p.outChannels) =
      p.rowTask input weights row (p.outCols * p.outChannels) := by
  have hb : row / p.outRows < p.batch := div_lt_of_lt_mul hrow
  have hoh : row % p.outRows < p.outRows := mod_lt_of_lt_mul hrow
  unfold rowTask Problem.rowTask
  rw [BufferM.lift_bind (divide_ok h.admissible.expandable.outRows_pos)]
  generalize row / p.outRows = b at hb ⊢
  generalize row % p.outRows = oh at hoh ⊢
  dsimp only
  rw [BufferM.lift_bind (h.contained.element_ok hb)]
  apply forRange_zero_congr
  intro ow how
  apply forRange_zero_congr
  intro f hf
  have hplace : (ow * p.outChannels + f : Offset).value < Size.limit :=
    Nat.lt_trans (add_mul_lt how hf) h.counts_outRow.2
  rw [span_filter h hf]
  congr 1
  funext filter
  rw [channelSum_eq h hb hoh how rfl]
  congr 1
  funext sum
  exact writeAt_eq (by simp [h.counts_outChannels]) hplace

/-- The loops in NHWC order with all size operations checked. -/
theorem directNhwc_eq (h : p.Bounded) (schedule : Schedule) {n : Nat}
    (hn : n = p.batch * p.outRows * (p.outCols * p.outChannels)) :
    (directNhwc p schedule input weights : BufferM α n Unit) =
      p.directNhwc schedule input weights := by
  have hchunk : (p.outCols * p.outChannels : Offset).eval = .ok (p.outCols * p.outChannels) :=
    Offset.eval_of_rises (by simp [h.counts_outChannels]) h.counts_outRow.2
  rw [directNhwc, BufferM.lift_bind (measure_ok h.contained), BufferM.lift_bind hchunk]
  apply BufferM.onChunks_congr schedule hn
  intro row hrow
  exact rowTask_eq h hrow

end

end Word
end ConvSweep
