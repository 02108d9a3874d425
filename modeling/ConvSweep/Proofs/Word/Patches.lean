import Mathlib
import ConvSweep.Conv.Patches
import ConvSweep.Proofs.Conv.Patches
import ConvSweep.Proofs.Word.Problem

/-!
# Patches in machine words

The copies of the three axis orders with every size operation checked.  A tap is
found by a subtraction that wraps around: a place before the input becomes a word
behind its end.  The scratch buffer has to fit memory as well; then the copies are
those of the library.
-/

namespace ConvSweep

open Loop

namespace Word

variable {α : Type} [Zero α]

/-!
## One patch
-/

def copyPatchChw (p : Problem) (input : Array α) (batchStart oh ow : Nat) {len : Nat} :
    BufferM α len Unit :=
  forRange 0 p.inChannels fun c => do
    let channel ← (batchStart + c * (p.inputRows * p.inputCols) : Offset).eval
    forRange 0 p.kernel fun kh => do
      let row ← ((c * p.kernel + kh) * p.kernel : Offset).eval
      if p.padding = .inline then
        forRange 0 p.kernel fun kw => do
          match ← wrappingSource? p.halo p.inputRows oh kh,
              ← wrappingSource? p.halo p.inputCols ow kw with
          | some ih, some iw =>
              let x ← fetchAt input (channel + ih * p.inputCols + iw)
              writeAt (row + kw) x
          | _, _ => writeAt (row + kw) 0
      else
        let source ← (channel + (oh + kh) * p.inputCols + ow : Offset).eval
        let xs ← span input source (source + p.kernel)
        onSpan row (row + p.kernel) fun _ => BufferM.copyFrom xs

/-- Where the channels under a tap start, unless the tap lies outside. -/
def tapStart? (p : Problem) (batchStart oh ow kh kw : Nat) : Except Fault (Option Nat) := do
  if p.padding = .inline then
    match ← wrappingSource? p.halo p.inputRows oh kh,
        ← wrappingSource? p.halo p.inputCols ow kw with
    | some ih, some iw =>
        let start ← (batchStart + (ih * p.inputCols + iw) * p.inChannels : Offset).eval
        return some start
    | _, _ => return none
  else
    let start ← (batchStart + ((oh + kh) * p.inputCols + ow + kw) * p.inChannels : Offset).eval
    return some start

def copyPatchHwc (p : Problem) (input : Array α) (batchStart oh ow : Nat) {len : Nat} :
    BufferM α len Unit :=
  forRange 0 p.kernel fun kh =>
    forRange 0 p.kernel fun kw =>
      onSpan ((kh * p.kernel + kw) * p.inChannels) ((kh * p.kernel + kw + 1) * p.inChannels)
        fun _ => do
          match ← tapStart? p batchStart oh ow kh kw with
          | some start =>
              let xs ← span input start (start + p.inChannels)
              BufferM.copyFrom xs
          | none => BufferM.fill 0

/-- Runs `copy` at every output position, on the stretch of its patch. -/
def forPatches (p : Problem) (copy : Nat → Nat → (length : Nat) → BufferM α length Unit)
    {len : Nat} : BufferM α len Unit :=
  forRange 0 p.outRows fun oh =>
    forRange 0 p.outCols fun ow =>
      onSpan ((oh * p.outCols + ow) * p.patchSize) ((oh * p.outCols + ow + 1) * p.patchSize)
        (copy oh ow)

/-!
## One tap along an output row
-/

def copyTapRow (p : Problem) (input : Array α) (channel oh kh kw : Nat) {len : Nat} :
    BufferM α len Unit := do
  if p.padding = .inline then
    match ← wrappingSource? p.halo p.inputRows oh kh with
    | some ih =>
        forRange 0 p.outCols fun ow => do
          match ← wrappingSource? p.halo p.inputCols ow kw with
          | some iw =>
              let x ← fetchAt input (channel + ih * p.inputCols + iw)
              BufferM.write ow x
          | none => BufferM.write ow 0
    | none => BufferM.fill 0
  else
    let source ← (channel + (oh + kh) * p.inputCols + kw : Offset).eval
    let xs ← span input source (source + p.outCols)
    BufferM.copyFrom xs

def copyChannels (p : Problem) (input : Array α) (batchStart : Nat) {len : Nat} :
    BufferM α len Unit :=
  forRange 0 p.inChannels fun c => do
    let channel ← (batchStart + c * (p.inputRows * p.inputCols) : Offset).eval
    forRange 0 p.kernel fun kh =>
      forRange 0 p.kernel fun kw => do
        let row ← ((c * p.kernel + kh) * p.kernel + kw : Offset).eval
        let start ← (row * p.outPixels : Offset).eval
        forRange 0 p.outRows fun oh =>
          onSpan (start + oh * p.outCols) (start + (oh + 1) * p.outCols) fun _ =>
            copyTapRow p input channel oh kh kw

/-!
## Whole scratch tensors
-/

def patchTask (order : PatchOrder) (p : Problem) (input : Array α) : ChunkTask α :=
  fun b _ =>
    match order with
    | .pixelChw => do
        let start ← (b * p.inChannels * (p.inputRows * p.inputCols) : Offset).eval
        forPatches p fun oh ow _ => copyPatchChw p input start oh ow
    | .pixelHwc => do
        let start ← (b * p.inputRows * p.inputCols * p.inChannels : Offset).eval
        forPatches p fun oh ow _ => copyPatchHwc p input start oh ow
    | .channelMajor => do
        let start ← (b * p.inChannels * (p.inputRows * p.inputCols) : Offset).eval
        copyChannels p input start

def expand (schedule : Schedule) (buffer : PatchBuffer α) (input : Tensor α) :
    Outcome (PatchBuffer α) := do
  let p := buffer.problem
  measure p
  let expected := buffer.order.inputDims p
  if input.shape.validate (expected.map .exactly) then
    let chunk ← (p.outPixels * p.patchSize : Offset).eval
    let act {n : Nat} : BufferM α n Unit :=
      BufferM.onChunks schedule chunk (patchTask buffer.order p input.data)
    let patches ← buffer.patches.update act
    return { buffer with patches }
  else
    throw (.error (.shapeMismatch (.patchInput buffer.order expected input.dims)))

/-!
## The checks do not show
-/

section

variable {p : Problem} {input : Array α} {b c oh ow kh kw len : Nat}

theorem copyPatchChw_eq (h : p.Contained) (hb : b < p.batch) (hoh : oh < p.outRows)
    (how : ow < p.outCols) {batchStart : Nat}
    (hstart : batchStart = b * p.inChannels * (p.inputRows * p.inputCols)) :
    (copyPatchChw p input batchStart oh ow : BufferM α len Unit) =
      p.copyPatchChw input batchStart oh ow := by
  apply forRange_zero_congr
  intro c hc
  rw [BufferM.lift_bind (h.channel_ok hb hc hstart)]
  have hchannel : batchStart + c * (p.inputRows * p.inputCols) =
      b * p.inChannels * (p.inputRows * p.inputCols) + c * (p.inputRows * p.inputCols) := by
    rw [hstart]
  generalize batchStart + c * (p.inputRows * p.inputCols) = channel at hchannel ⊢
  apply forRange_zero_congr
  intro kh hkh
  rw [BufferM.lift_bind (h.kernelRow_ok hc hkh)]
  have hrow := h.kernelRow_lt hc hkh
  dsimp only
  generalize (c * p.kernel + kh) * p.kernel = row at hrow ⊢
  by_cases hpad : p.padding = .inline
  · rw [if_pos hpad, if_pos hpad]
    apply forRange_zero_congr
    intro kw hkw
    have hwrite : ∀ x, (writeAt (row + kw) x : BufferM α len Unit) = BufferM.write (row + kw) x :=
      fun x => writeAt_eq (by simp) (Nat.lt_trans (Nat.add_lt_add_left hkw row) hrow)
    rw [BufferM.lift_bind (h.wrappingSource?_row hoh hkh),
      BufferM.lift_bind (h.wrappingSource?_col how hkw)]
    cases hsource : Problem.source? p.halo p.inputRows oh kh with
    | none =>
        exact hwrite 0
    | some ih =>
        cases hsource' : Problem.source? p.halo p.inputCols ow kw with
        | none =>
            exact hwrite 0
        | some iw =>
            dsimp only
            rw [h.fetchAt_place hb hc (Problem.source?_lt hsource) (Problem.source?_lt hsource')
              hchannel]
            congr 1
            funext x
            exact hwrite x
  · rw [if_neg hpad, if_neg hpad]
    -- Here the whole kernel row lies in the input, so it is copied at once.
    have hy := h.expandable.row_lt hpad hoh hkh
    have hz : ow < p.inputCols := h.expandable.col_lt hpad how h.expandable.kernel_pos
    have hfit := h.stretch_lt hb hc hy (h.expandable.kernel_end_le hpad how) hchannel
    rw [BufferM.lift_bind (h.source_ok hb hc hpad hoh hkh hz hchannel), span_from hfit]
    congr 1
    funext xs
    exact onSpan_from hrow

theorem tapStart?_eq (h : p.Contained) (hb : b < p.batch) (hoh : oh < p.outRows)
    (how : ow < p.outCols) (hkh : kh < p.kernel) (hkw : kw < p.kernel) {batchStart : Nat}
    (hstart : batchStart = b * p.inputRows * p.inputCols * p.inChannels) :
    tapStart? p batchStart oh ow kh kw =
      .ok (match Problem.source? p.halo p.inputRows oh kh,
          Problem.source? p.halo p.inputCols ow kw with
        | some ih, some iw => some (batchStart + (ih * p.inputCols + iw) * p.inChannels)
        | _, _ => none) := by
  unfold tapStart?
  by_cases hpad : p.padding = .inline
  · rw [if_pos hpad, h.wrappingSource?_row hoh hkh, ok_bind, h.wrappingSource?_col how hkw, ok_bind]
    cases hsource : Problem.source? p.halo p.inputRows oh kh with
    | none =>
        rfl
    | some ih =>
        cases hsource' : Problem.source? p.halo p.inputCols ow kw with
        | none =>
            rfl
        | some iw =>
            have hplace : (batchStart + (ih * p.inputCols + iw) * p.inChannels : Offset).eval =
                .ok (batchStart + (ih * p.inputCols + iw) * p.inChannels) := by
              apply h.pixel_ok hb (by simp [h.counts_inputCols]) ?_ hstart
              exact add_mul_lt (Problem.source?_lt hsource) (Problem.source?_lt hsource')
            dsimp only
            rw [hplace]
            rfl
  · have hplace : (batchStart + ((oh + kh) * p.inputCols + ow + kw) * p.inChannels : Offset).eval =
        .ok (batchStart + ((oh + kh) * p.inputCols + ow + kw) * p.inChannels) := by
      apply h.pixel_ok hb (by simp [h.counts_inputCols]) ?_ hstart
      show (oh + kh) * p.inputCols + ow + kw < _
      rw [Nat.add_assoc]
      exact add_mul_lt (h.expandable.row_lt hpad hoh hkh) (h.expandable.col_lt hpad how hkw)
    rw [if_neg hpad, hplace, h.expandable.source?_row hpad hoh hkh,
      h.expandable.source?_col hpad how hkw]
    dsimp only
    rw [← Nat.add_assoc]
    rfl

theorem copyPatchHwc_eq (h : p.Contained) (hb : b < p.batch) (hoh : oh < p.outRows)
    (how : ow < p.outCols) {batchStart : Nat}
    (hstart : batchStart = b * p.inputRows * p.inputCols * p.inChannels) :
    (copyPatchHwc p input batchStart oh ow : BufferM α len Unit) =
      p.copyPatchHwc input batchStart oh ow := by
  apply forRange_zero_congr
  intro kh hkh
  apply forRange_zero_congr
  intro kw hkw
  rw [onSpan_stretch (by simp [h.counts_kernel]) h.counts_inChannels (add_mul_lt hkh hkw)
    h.taps_lt]
  congr 1
  rw [BufferM.lift_bind (tapStart?_eq h hb hoh how hkh hkw hstart)]
  by_cases hpad : p.padding = .inline
  · rw [if_pos hpad]
    cases hsource : Problem.source? p.halo p.inputRows oh kh with
    | none =>
        rfl
    | some ih =>
        cases hsource' : Problem.source? p.halo p.inputCols ow kw with
        | none =>
            rfl
        | some iw =>
            have hpixel := add_mul_lt (Problem.source?_lt hsource) (Problem.source?_lt hsource')
            dsimp only
            rw [span_from (h.channels_lt hb hpixel hstart)]
  · have hrow := h.expandable.row_lt hpad hoh hkh
    have hcol := h.expandable.col_lt hpad how hkw
    rw [if_neg hpad, h.expandable.source?_row hpad hoh hkh, h.expandable.source?_col hpad how hkw,
      Nat.add_assoc ((oh + kh) * p.inputCols)]
    dsimp only
    rw [span_from (h.channels_lt hb (add_mul_lt hrow hcol) hstart)]

theorem copyTapRow_eq (h : p.Contained) (hb : b < p.batch) (hc : c < p.inChannels)
    (hoh : oh < p.outRows) (hkh : kh < p.kernel) (hkw : kw < p.kernel) {channel : Nat}
    (hchannel : channel = b * p.inChannels * (p.inputRows * p.inputCols) +
      c * (p.inputRows * p.inputCols)) :
    (copyTapRow p input channel oh kh kw : BufferM α len Unit) =
      p.copyTapRow input channel oh kh kw := by
  unfold copyTapRow Problem.copyTapRow
  by_cases hpad : p.padding = .inline
  · rw [if_pos hpad, if_pos hpad, BufferM.lift_bind (h.wrappingSource?_row hoh hkh)]
    cases hsource : Problem.source? p.halo p.inputRows oh kh with
    | none =>
        rfl
    | some ih =>
        apply forRange_zero_congr
        intro ow how
        rw [BufferM.lift_bind (h.wrappingSource?_col how hkw)]
        cases hsource' : Problem.source? p.halo p.inputCols ow kw with
        | none =>
            rfl
        | some iw =>
            dsimp only
            rw [h.fetchAt_place hb hc (Problem.source?_lt hsource) (Problem.source?_lt hsource')
              hchannel]
  · have hy := h.expandable.row_lt hpad hoh hkh
    have hz : kw < p.inputCols := by
      have hlast := h.expandable.outCols_end_le hpad hkw
      have hcols := h.expandable.outCols_pos
      omega
    have hfit := h.stretch_lt hb hc hy (h.expandable.outCols_end_le hpad hkw) hchannel
    rw [if_neg hpad, if_neg hpad,
      BufferM.lift_bind (h.source_ok hb hc hpad hoh hkh hz hchannel), span_from hfit]

/-!
## One batch element
-/

variable (hpatches : p.batch * (p.outPixels * p.patchSize) < Size.bufferLimit)
include hpatches

omit [Zero α] in
theorem patches_lt (h : p.Contained) : p.outPixels * p.patchSize < Size.limit :=
  Nat.lt_of_le_of_lt (Nat.le_mul_of_pos_left _ h.expandable.batch_pos)
    (Nat.lt_trans hpatches Size.bufferLimit_lt_limit)

omit [Zero α] in
theorem forPatches_eq (h : p.Contained)
    {copy : Nat → Nat → (length : Nat) → BufferM α length Unit}
    {copy' : Nat → Nat → BufferM α p.patchSize Unit}
    (hcopy : ∀ oh < p.outRows, ∀ ow < p.outCols, copy oh ow p.patchSize = copy' oh ow) :
    (forPatches p copy : BufferM α len Unit) = p.forPatches copy' := by
  apply forRange_zero_congr
  intro oh hoh
  apply forRange_zero_congr
  intro ow how
  rw [onSpan_stretch (by simp [h.counts_outCols]) h.counts_patchSize (add_mul_lt hoh how)
    (patches_lt hpatches h), hcopy oh hoh ow how]
  rfl

theorem copyChannels_eq (h : p.Contained) (hb : b < p.batch) {batchStart : Nat}
    (hstart : batchStart = b * p.inChannels * (p.inputRows * p.inputCols)) :
    (copyChannels p input batchStart : BufferM α len Unit) = p.copyChannels input batchStart := by
  have hlimit := patches_lt hpatches h
  apply forRange_zero_congr
  intro c hc
  rw [BufferM.lift_bind (h.channel_ok hb hc hstart)]
  apply forRange_zero_congr
  intro kh hkh
  apply forRange_zero_congr
  intro kw hkw
  have htap : (c * p.kernel + kh) * p.kernel + kw < p.patchSize :=
    add_mul_lt (add_mul_lt hc hkh) hkw
  have hend := mul_add_le p.outPixels htap
  rw [Nat.mul_comm p.outPixels] at hlimit
  have hrow : ((c * p.kernel + kh) * p.kernel + kw : Offset).eval =
      .ok ((c * p.kernel + kh) * p.kernel + kw) :=
    Offset.eval_of_rises (by simp [h.counts_kernel]) (Nat.lt_trans htap h.counts_patchSize.2)
  rw [BufferM.lift_bind hrow]
  dsimp only
  generalize (c * p.kernel + kh) * p.kernel + kw = row at htap hend ⊢
  have hplace : (row * p.outPixels : Offset).eval = .ok (row * p.outPixels) :=
    Offset.eval_of_rises (by simp [h.counts_outPixels])
      (Nat.lt_of_le_of_lt (Nat.le_add_right _ p.outPixels) (Nat.lt_of_le_of_lt hend hlimit))
  rw [BufferM.lift_bind hplace]
  apply forRange_zero_congr
  intro oh hoh
  have hline := mul_add_le p.outCols hoh
  rw [← Problem.outPixels] at hline
  -- The two ends are computed apart; their difference is an output row.
  have hnext : row * p.outPixels + oh * p.outCols + p.outCols =
      row * p.outPixels + (oh + 1) * p.outCols := by
    ring
  have hlast : ((row * p.outPixels : Nat) + (oh + 1) * p.outCols : Offset).value < Size.limit := by
    show row * p.outPixels + (oh + 1) * p.outCols < Size.limit
    omega
  have hspan : ∀ act : (length : Nat) → BufferM α length Unit,
      (onSpan ((row * p.outPixels : Nat) + oh * p.outCols)
          ((row * p.outPixels : Nat) + (oh + 1) * p.outCols) act : BufferM α len Unit) =
        BufferM.onSlice (row * p.outPixels + oh * p.outCols) p.outCols (act p.outCols) :=
    fun act => onSpan_eq (by simp [h.counts_outCols]) (by simp [h.counts_outCols]) hnext hlast
  rw [hspan, copyTapRow_eq h hb hc hoh hkh hkw (by rw [hstart])]

/-!
## Whole scratch tensors
-/

theorem patchTask_eq (h : p.Contained) {order : PatchOrder} (hb : b < p.batch) :
    patchTask order p input b len = order.task p input b len := by
  cases order with
  | pixelChw =>
      unfold patchTask PatchOrder.task
      dsimp only
      rw [BufferM.lift_bind (h.batch_ok hb)]
      apply forPatches_eq hpatches h
      intro oh hoh ow how
      exact copyPatchChw_eq h hb hoh how rfl
  | pixelHwc =>
      unfold patchTask PatchOrder.task
      dsimp only
      rw [BufferM.lift_bind (h.element_ok hb)]
      apply forPatches_eq hpatches h
      intro oh hoh ow how
      exact copyPatchHwc_eq h hb hoh how rfl
  | channelMajor =>
      unfold patchTask PatchOrder.task
      dsimp only
      rw [BufferM.lift_bind (h.batch_ok hb)]
      exact copyChannels_eq hpatches h hb rfl

end

/-- The expansion with all size operations checked. -/
theorem expand_eq {buffer : PatchBuffer α} {order : PatchOrder} {p : Problem}
    (hbuffer : buffer.Fits order p) (h : p.Contained) (schedule : Schedule) (input : Tensor α) :
    expand schedule buffer input = buffer.expand schedule input := by
  have hsize := hbuffer.total_eq
  rcases hbuffer with ⟨horder, hproblem, _, hpatches⟩
  subst horder hproblem
  have hchunk : (buffer.problem.outPixels * buffer.problem.patchSize : Offset).eval =
      .ok (buffer.problem.outPixels * buffer.problem.patchSize) :=
    Offset.eval_of_rises (by simp [h.counts_patchSize]) (patches_lt hpatches h)
  unfold expand PatchBuffer.expand
  dsimp only
  rw [measure_ok h, fault_ok_bind, hchunk, fault_ok_bind]
  rw [BufferM.onChunks_congr schedule hsize fun b hb => patchTask_eq hpatches h hb]

end Word
end ConvSweep
