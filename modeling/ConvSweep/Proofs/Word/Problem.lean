import Mathlib
import ConvSweep.Proofs.Word.Offset

/-!
# Bounded problems

A problem is bounded when its input, its weight and its output fit memory, the
input with its border.  Then all sizes that the kernels derive from the problem can
be computed, and every place in one of the three buffers fits the word.
-/

namespace ConvSweep

open Loop

/-!
## Derived sizes
-/

namespace Word

def halfKernel (p : Problem) : Except Fault Nat := do
  let others ← (p.kernel - 1 : Offset).eval
  return others / 2

def border (p : Problem) : Except Fault Nat :=
  match p.padding with
  | .prepad => halfKernel p
  | .inline | .valid => return 0

def halo (p : Problem) : Except Fault Nat :=
  match p.padding with
  | .inline => halfKernel p
  | .prepad | .valid => return 0

def inputRows (p : Problem) : Except Fault Nat := do
  let border ← border p
  (p.height + 2 * border : Offset).eval

def inputCols (p : Problem) : Except Fault Nat := do
  let border ← border p
  (p.width + 2 * border : Offset).eval

def outRows (p : Problem) : Except Fault Nat :=
  match p.padding with
  | .valid => (p.height - p.kernel + 1 : Offset).eval
  | .prepad | .inline => return p.height

def outCols (p : Problem) : Except Fault Nat :=
  match p.padding with
  | .valid => (p.width - p.kernel + 1 : Offset).eval
  | .prepad | .inline => return p.width

def patchSize (p : Problem) : Except Fault Nat :=
  (p.inChannels * p.kernel * p.kernel : Offset).eval

def outPixels (p : Problem) : Except Fault Nat := do
  let rows ← outRows p
  let cols ← outCols p
  (rows * cols : Offset).eval

/-- Computes every size that a kernel derives from its problem before it starts. -/
def measure (p : Problem) : Except Fault Unit := do
  let rows ← inputRows p
  let cols ← inputCols p
  let _ ← (rows * cols : Offset).eval
  let _ ← halo p
  let _ ← outPixels p
  let _ ← patchSize p

end Word

/-!
## Bounds
-/

namespace Problem

/-- The input with its border, one patch and one plane of output positions fit memory. -/
structure Contained (p : Problem) : Prop where
  expandable : p.Expandable
  input_lt : p.batch * p.inChannels * p.inputRows * p.inputCols < Size.bufferLimit
  patch_lt : p.patchSize < Size.bufferLimit
  pixels_lt : p.outPixels < Size.bufferLimit

/-- The input with its border, the weight and the output fit memory. -/
structure Bounded (p : Problem) : Prop where
  admissible : p.Admissible
  input_lt : p.batch * p.inChannels * p.inputRows * p.inputCols < Size.bufferLimit
  weight_lt : p.outChannels * p.patchSize < Size.bufferLimit
  output_lt : p.batch * p.outChannels * p.outPixels < Size.bufferLimit

namespace Contained

open Offset (Counts)

variable {p : Problem}

theorem counts_of_lt {n : Nat} (hpos : 0 < n) (hlt : n < Size.bufferLimit) : Counts n :=
  ⟨hpos, Nat.lt_trans hlt Size.bufferLimit_lt_limit⟩

theorem inputRows_pos (h : p.Contained) : 0 < p.inputRows :=
  Nat.lt_of_lt_of_le h.expandable.height_pos (Nat.le_add_right _ _)

theorem inputCols_pos (h : p.Contained) : 0 < p.inputCols :=
  Nat.lt_of_lt_of_le h.expandable.width_pos (Nat.le_add_right _ _)

theorem input_le (h : p.Contained) :
    p.batch ≤ p.batch * p.inChannels * p.inputRows * p.inputCols ∧
      p.inChannels ≤ p.batch * p.inChannels * p.inputRows * p.inputCols ∧
      p.inputRows ≤ p.batch * p.inChannels * p.inputRows * p.inputCols ∧
      p.inputCols ≤ p.batch * p.inChannels * p.inputRows * p.inputCols :=
  Tensor.le_mul_of_pos h.expandable.batch_pos h.expandable.inChannels_pos h.inputRows_pos
    h.inputCols_pos

theorem inChannels_lt (h : p.Contained) : p.inChannels < Size.bufferLimit :=
  Nat.lt_of_le_of_lt h.input_le.2.1 h.input_lt

theorem inputRows_lt (h : p.Contained) : p.inputRows < Size.bufferLimit :=
  Nat.lt_of_le_of_lt h.input_le.2.2.1 h.input_lt

theorem inputCols_lt (h : p.Contained) : p.inputCols < Size.bufferLimit :=
  Nat.lt_of_le_of_lt h.input_le.2.2.2 h.input_lt

theorem outRows_lt (h : p.Contained) : p.outRows < Size.bufferLimit :=
  Nat.lt_of_le_of_lt (Nat.le_mul_of_pos_right _ h.expandable.outCols_pos) h.pixels_lt

theorem outCols_lt (h : p.Contained) : p.outCols < Size.bufferLimit :=
  Nat.lt_of_le_of_lt (Nat.le_mul_of_pos_left _ h.expandable.outRows_pos) h.pixels_lt

theorem plane_lt (h : p.Contained) : p.inputRows * p.inputCols < Size.bufferLimit := by
  have hle := Nat.le_mul_of_pos_left (p.inputRows * p.inputCols)
    (Nat.mul_pos h.expandable.batch_pos h.expandable.inChannels_pos)
  rw [← Nat.mul_assoc] at hle
  exact Nat.lt_of_le_of_lt hle h.input_lt

theorem kernel_lt (h : p.Contained) : p.kernel < Size.bufferLimit :=
  Nat.lt_of_le_of_lt (Nat.le_mul_of_pos_left _
    (Nat.mul_pos h.expandable.inChannels_pos h.expandable.kernel_pos)) h.patch_lt

/-- The taps of a kernel, one after the other for every channel. -/
theorem taps_lt (h : p.Contained) : p.kernel * p.kernel * p.inChannels < Size.limit := by
  have hsize : p.kernel * p.kernel * p.inChannels = p.patchSize := by
    rw [patchSize]
    ring
  rw [hsize]
  exact Nat.lt_trans h.patch_lt Size.bufferLimit_lt_limit

theorem halo_lt (h : p.Contained) : p.halo < Word.signLimit := by
  have hkernel := h.kernel_lt
  have hlimit : Size.bufferLimit < Word.signLimit := by decide
  have hhalf : p.halo ≤ p.kernel := by
    cases hpadding : p.padding <;> simp only [halo, halfKernel, hpadding] <;> omega
  omega

/-!
## Factors
-/

theorem counts_inChannels (h : p.Contained) : Counts p.inChannels :=
  counts_of_lt h.expandable.inChannels_pos h.inChannels_lt

theorem counts_kernel (h : p.Contained) : Counts p.kernel :=
  counts_of_lt h.expandable.kernel_pos h.kernel_lt

theorem counts_inputRows (h : p.Contained) : Counts p.inputRows :=
  counts_of_lt h.inputRows_pos h.inputRows_lt

theorem counts_inputCols (h : p.Contained) : Counts p.inputCols :=
  counts_of_lt h.inputCols_pos h.inputCols_lt

theorem counts_plane (h : p.Contained) : Counts (p.inputRows * p.inputCols) :=
  counts_of_lt (Nat.mul_pos h.inputRows_pos h.inputCols_pos) h.plane_lt

theorem counts_outRows (h : p.Contained) : Counts p.outRows :=
  counts_of_lt h.expandable.outRows_pos h.outRows_lt

theorem counts_outCols (h : p.Contained) : Counts p.outCols :=
  counts_of_lt h.expandable.outCols_pos h.outCols_lt

theorem counts_outPixels (h : p.Contained) : Counts p.outPixels :=
  counts_of_lt h.expandable.outPixels_pos h.pixels_lt

theorem counts_patchSize (h : p.Contained) : Counts p.patchSize :=
  counts_of_lt h.expandable.patchSize_pos h.patch_lt

/-!
## Places and taps
-/

variable {b c y z oh ow kh kw : Nat}

/-- A stretch of a row of the input ends within the input. -/
theorem stretch_lt (h : p.Contained) (hb : b < p.batch) (hc : c < p.inChannels)
    (hy : y < p.inputRows) {length : Nat} (hz : z + length ≤ p.inputCols) {channel : Nat}
    (hchannel : channel = b * p.inChannels * (p.inputRows * p.inputCols) +
      c * (p.inputRows * p.inputCols)) :
    channel + y * p.inputCols + z + length < Size.limit := by
  have hrow := mul_add_le p.inputCols hy
  have hall := mul_add_le (p.inputRows * p.inputCols) (add_mul_lt hb hc)
  have hplace : channel = (b * p.inChannels + c) * (p.inputRows * p.inputCols) := by
    rw [hchannel]
    ring
  have hlt := Nat.lt_trans h.input_lt Size.bufferLimit_lt_limit
  rw [Nat.mul_assoc _ p.inputRows] at hlt
  omega

theorem place_lt (h : p.Contained) (hb : b < p.batch) (hc : c < p.inChannels)
    (hy : y < p.inputRows) (hz : z < p.inputCols) {channel : Nat}
    (hchannel : channel = b * p.inChannels * (p.inputRows * p.inputCols) +
      c * (p.inputRows * p.inputCols)) :
    channel + y * p.inputCols + z < Size.limit := by
  have hend : z + 0 ≤ p.inputCols := Nat.le_of_lt hz
  exact h.stretch_lt hb hc hy hend hchannel

theorem channel_ok (h : p.Contained) (hb : b < p.batch) (hc : c < p.inChannels) {batchStart : Nat}
    (hstart : batchStart = b * p.inChannels * (p.inputRows * p.inputCols)) :
    (batchStart + c * (p.inputRows * p.inputCols) : Offset).eval =
      .ok (batchStart + c * (p.inputRows * p.inputCols)) := by
  have hlt := h.place_lt hb hc h.inputRows_pos h.inputCols_pos rfl
  rw [Nat.zero_mul, Nat.add_zero, ← hstart] at hlt
  exact Offset.eval_of_rises (by simp [h.counts_plane, h.counts_inputCols]) hlt

theorem batch_ok (h : p.Contained) (hb : b < p.batch) :
    (b * p.inChannels * (p.inputRows * p.inputCols) : Offset).eval =
      .ok (b * p.inChannels * (p.inputRows * p.inputCols)) := by
  have hlt := h.place_lt hb h.expandable.inChannels_pos h.inputRows_pos h.inputCols_pos rfl
  rw [Nat.zero_mul, Nat.zero_mul, Nat.add_zero] at hlt
  exact Offset.eval_of_rises
    (by simp [h.counts_plane, h.counts_inputCols, h.counts_inChannels]) hlt

/-- Without an inline border every kernel row starts at a place of the input. -/
theorem source_ok (h : p.Contained) (hb : b < p.batch) (hc : c < p.inChannels)
    (hpad : p.padding ≠ .inline) (hoh : oh < p.outRows) (hkh : kh < p.kernel)
    (hz : z < p.inputCols) {channel : Nat}
    (hchannel : channel = b * p.inChannels * (p.inputRows * p.inputCols) +
      c * (p.inputRows * p.inputCols)) :
    (channel + (oh + kh) * p.inputCols + z : Offset).eval =
      .ok (channel + (oh + kh) * p.inputCols + z) :=
  Offset.eval_of_rises (by simp [h.counts_inputCols])
    (h.place_lt hb hc (h.expandable.row_lt hpad hoh hkh) hz hchannel)

theorem fetchAt_place {α : Type} (h : p.Contained) (hb : b < p.batch) (hc : c < p.inChannels)
    (hy : y < p.inputRows) (hz : z < p.inputCols) {channel : Nat}
    (hchannel : channel = b * p.inChannels * (p.inputRows * p.inputCols) +
      c * (p.inputRows * p.inputCols)) (input : Array α) :
    Word.fetchAt input (channel + y * p.inputCols + z) =
      fetch input (channel + y * p.inputCols + z) :=
  Word.fetchAt_eq (by simp [h.counts_inputCols]) (h.place_lt hb hc hy hz hchannel)

/-- The channels of a pixel end within the input. -/
theorem channels_lt (h : p.Contained) (hb : b < p.batch) {pixel : Nat}
    (hpixel : pixel < p.inputRows * p.inputCols) {element : Nat}
    (helement : element = b * p.inputRows * p.inputCols * p.inChannels) :
    element + pixel * p.inChannels + p.inChannels < Size.limit := by
  have hend := mul_add_le p.inChannels hpixel
  have hall := mul_add_le (p.inputRows * p.inputCols * p.inChannels) hb
  have hsize : p.batch * (p.inputRows * p.inputCols * p.inChannels) =
      p.batch * p.inChannels * p.inputRows * p.inputCols := by
    ring
  have hplace : element = b * (p.inputRows * p.inputCols * p.inChannels) := by
    rw [helement]
    ring
  have hlt := Nat.lt_trans h.input_lt Size.bufferLimit_lt_limit
  omega

theorem element_ok (h : p.Contained) (hb : b < p.batch) :
    (b * p.inputRows * p.inputCols * p.inChannels : Offset).eval =
      .ok (b * p.inputRows * p.inputCols * p.inChannels) := by
  have hend := h.channels_lt hb (Nat.mul_pos h.inputRows_pos h.inputCols_pos) rfl
  rw [Nat.zero_mul, Nat.add_zero] at hend
  exact Offset.eval_of_rises
    (by simp [h.counts_inputRows, h.counts_inputCols, h.counts_inChannels])
    (Nat.lt_of_le_of_lt (Nat.le_add_right _ _) hend)

theorem pixel_ok (h : p.Contained) (hb : b < p.batch) {pixel : Offset} (hrises : pixel.Rises)
    (hpixel : pixel.value < p.inputRows * p.inputCols) {element : Nat}
    (helement : element = b * p.inputRows * p.inputCols * p.inChannels) :
    (element + pixel * p.inChannels : Offset).eval =
      .ok (element + pixel.value * p.inChannels) :=
  Offset.eval_of_rises (by simp [hrises, h.counts_inChannels])
    (Nat.lt_of_le_of_lt (Nat.le_add_right _ _) (h.channels_lt hb hpixel helement))

theorem kernelRow_lt (h : p.Contained) (hc : c < p.inChannels) (hkh : kh < p.kernel) :
    (c * p.kernel + kh) * p.kernel + p.kernel < Size.limit :=
  Nat.lt_of_le_of_lt (mul_add_le p.kernel (add_mul_lt hc hkh)) h.counts_patchSize.2

theorem kernelRow_ok (h : p.Contained) (hc : c < p.inChannels) (hkh : kh < p.kernel) :
    ((c * p.kernel + kh) * p.kernel : Offset).eval = .ok ((c * p.kernel + kh) * p.kernel) :=
  Offset.eval_of_rises (by simp [h.counts_kernel])
    (Nat.lt_of_le_of_lt (Nat.le_add_right _ _) (h.kernelRow_lt hc hkh))

theorem tap_row_lt (h : p.Contained) (hoh : oh < p.outRows) (hkh : kh < p.kernel) :
    oh + kh < Word.signLimit := by
  have hrows := h.outRows_lt
  have hkernel := h.kernel_lt
  have hlimit : Size.bufferLimit + Size.bufferLimit < Word.signLimit := by decide
  omega

theorem tap_col_lt (h : p.Contained) (how : ow < p.outCols) (hkw : kw < p.kernel) :
    ow + kw < Word.signLimit := by
  have hcols := h.outCols_lt
  have hkernel := h.kernel_lt
  have hlimit : Size.bufferLimit + Size.bufferLimit < Word.signLimit := by decide
  omega

theorem signedPlace_row (h : p.Contained) (hoh : oh < p.outRows) (hkh : kh < p.kernel) :
    ∃ i, Word.signedPlace p.halo oh kh = .ok i ∧
      (Word.outside p.inputRows i ∧ source? p.halo p.inputRows oh kh = none ∨
        ¬ Word.outside p.inputRows i ∧
          source? p.halo p.inputRows oh kh = some (Word.ofSigned i)) :=
  Word.signedPlace_cases (h.tap_row_lt hoh hkh) h.halo_lt
    (Nat.lt_trans h.inputRows_lt (by decide))

theorem signedPlace_col (h : p.Contained) (how : ow < p.outCols) (hkw : kw < p.kernel) :
    ∃ i, Word.signedPlace p.halo ow kw = .ok i ∧
      (Word.outside p.inputCols i ∧ source? p.halo p.inputCols ow kw = none ∨
        ¬ Word.outside p.inputCols i ∧
          source? p.halo p.inputCols ow kw = some (Word.ofSigned i)) :=
  Word.signedPlace_cases (h.tap_col_lt how hkw) h.halo_lt
    (Nat.lt_trans h.inputCols_lt (by decide))

theorem wrappingSource?_row (h : p.Contained) (hoh : oh < p.outRows) (hkh : kh < p.kernel) :
    Word.wrappingSource? p.halo p.inputRows oh kh = .ok (source? p.halo p.inputRows oh kh) :=
  Word.wrappingSource?_eq (h.tap_row_lt hoh hkh) h.halo_lt
    (Nat.lt_trans h.inputRows_lt (by decide))

theorem wrappingSource?_col (h : p.Contained) (how : ow < p.outCols) (hkw : kw < p.kernel) :
    Word.wrappingSource? p.halo p.inputCols ow kw = .ok (source? p.halo p.inputCols ow kw) :=
  Word.wrappingSource?_eq (h.tap_col_lt how hkw) h.halo_lt
    (Nat.lt_trans h.inputCols_lt (by decide))

end Contained

/-!
## Filters
-/

namespace Bounded

open Offset (Counts)

variable {p : Problem}

theorem output_le (h : p.Bounded) :
    p.batch ≤ p.batch * p.outChannels * p.outRows * p.outCols ∧
      p.outChannels ≤ p.batch * p.outChannels * p.outRows * p.outCols ∧
      p.outRows ≤ p.batch * p.outChannels * p.outRows * p.outCols ∧
      p.outCols ≤ p.batch * p.outChannels * p.outRows * p.outCols :=
  Tensor.le_mul_of_pos h.admissible.batch_pos h.admissible.outChannels_pos
    h.admissible.expandable.outRows_pos h.admissible.expandable.outCols_pos

theorem output_lt' (h : p.Bounded) :
    p.batch * p.outChannels * p.outRows * p.outCols < Size.bufferLimit := by
  rw [Nat.mul_assoc _ p.outRows]
  exact h.output_lt

theorem outChannels_lt (h : p.Bounded) : p.outChannels < Size.bufferLimit :=
  Nat.lt_of_le_of_lt h.output_le.2.1 h.output_lt'

theorem outPixels_lt (h : p.Bounded) : p.outPixels < Size.bufferLimit :=
  Nat.lt_of_le_of_lt (Nat.le_mul_of_pos_left _
    (Nat.mul_pos h.admissible.batch_pos h.admissible.outChannels_pos)) h.output_lt

theorem patchSize_lt (h : p.Bounded) : p.patchSize < Size.bufferLimit :=
  Nat.lt_of_le_of_lt (Nat.le_mul_of_pos_left _ h.admissible.outChannels_pos) h.weight_lt

theorem outRow_lt (h : p.Bounded) : p.outCols * p.outChannels < Size.bufferLimit := by
  have hle := Nat.le_mul_of_pos_left (p.outCols * p.outChannels)
    (Nat.mul_pos h.admissible.batch_pos h.admissible.expandable.outRows_pos)
  have hsize : p.batch * p.outRows * (p.outCols * p.outChannels) =
      p.batch * p.outChannels * p.outPixels := by
    rw [outPixels]
    ring
  rw [hsize] at hle
  exact Nat.lt_of_le_of_lt hle h.output_lt

theorem counts_outChannels (h : p.Bounded) : Counts p.outChannels :=
  Contained.counts_of_lt h.admissible.outChannels_pos h.outChannels_lt

theorem counts_outRow (h : p.Bounded) : Counts (p.outCols * p.outChannels) :=
  Contained.counts_of_lt
    (Nat.mul_pos h.admissible.expandable.outCols_pos h.admissible.outChannels_pos) h.outRow_lt

theorem contained (h : p.Bounded) : p.Contained where
  expandable := h.admissible.expandable
  input_lt := h.input_lt
  patch_lt := h.patchSize_lt
  pixels_lt := h.outPixels_lt

end Bounded

namespace Expandable

variable {p : Problem} {oh ow kh kw : Nat}

/-- Without an inline border a kernel row ends within its input row. -/
theorem kernel_end_le (hp : p.Expandable) (hpad : p.padding ≠ .inline) (how : ow < p.outCols) :
    ow + p.kernel ≤ p.inputCols := by
  have hkernel := hp.kernel_pos
  have hlast := hp.col_lt hpad how (Nat.sub_one_lt (Nat.ne_of_gt hkernel))
  omega

/-- Without an inline border a tap along an output row ends within its input row. -/
theorem outCols_end_le (hp : p.Expandable) (hpad : p.padding ≠ .inline) (hkw : kw < p.kernel) :
    kw + p.outCols ≤ p.inputCols := by
  have hcols := hp.outCols_pos
  have hlast := hp.col_lt hpad (Nat.sub_one_lt (Nat.ne_of_gt hcols)) hkw
  omega

theorem inline_of_row_none (hp : p.Expandable) (hoh : oh < p.outRows) (hkh : kh < p.kernel)
    (hnone : source? p.halo p.inputRows oh kh = none) : p.padding = .inline := by
  by_contra hpad
  rw [hp.source?_row hpad hoh hkh] at hnone
  cases hnone

theorem inline_of_col_none (hp : p.Expandable) (how : ow < p.outCols) (hkw : kw < p.kernel)
    (hnone : source? p.halo p.inputCols ow kw = none) : p.padding = .inline := by
  by_contra hpad
  rw [hp.source?_col hpad how hkw] at hnone
  cases hnone

end Expandable
end Problem

/-!
## Derived sizes can be computed
-/

namespace Word

variable {p : Problem}

theorem halfKernel_of_lt (hpos : 0 < p.kernel) (hlt : p.kernel < Size.limit) :
    halfKernel p = .ok p.halfKernel := by
  have hone : (1 : Offset).eval = .ok 1 := rfl
  rw [halfKernel, Offset.eval_sub (Offset.eval_size hlt) hone hpos]
  rfl

/-- The border is computed as soon as there is a kernel. -/
theorem border_of_lt (hpos : 0 < p.kernel) (hlt : p.kernel < Size.limit) :
    border p = .ok p.border := by
  rw [border, Problem.border]
  cases p.padding with
  | prepad =>
      exact halfKernel_of_lt hpos hlt
  | inline =>
      rfl
  | valid =>
      rfl

theorem halfKernel_ok (h : p.Contained) : halfKernel p = .ok p.halfKernel :=
  halfKernel_of_lt h.expandable.kernel_pos (Nat.lt_trans h.kernel_lt Size.bufferLimit_lt_limit)

theorem border_ok (h : p.Contained) : border p = .ok p.border :=
  border_of_lt h.expandable.kernel_pos (Nat.lt_trans h.kernel_lt Size.bufferLimit_lt_limit)

theorem halo_ok (h : p.Contained) : halo p = .ok p.halo := by
  rw [halo, Problem.halo]
  cases p.padding with
  | prepad =>
      rfl
  | inline =>
      exact halfKernel_ok h
  | valid =>
      rfl

/-- The operations on an extent and its border leave the word only if their result does. -/
theorem eval_bordered {extent pad : Nat} (hpad : pad < Size.limit) :
    (extent + 2 * pad : Offset).eval = Size.checked (extent + 2 * pad) := by
  have htwo : (2 : Offset).eval = .ok 2 := rfl
  exact Offset.eval_sum rfl (Offset.eval_product htwo (Offset.eval_size hpad))

/-- The extents with a border are computed from the extents without. -/
theorem bordered_ok {extent border : Nat} (hlt : extent + 2 * border < Size.bufferLimit) :
    (extent + 2 * border : Offset).eval = .ok (extent + 2 * border) := by
  have hlimit := Size.bufferLimit_lt_limit
  rw [eval_bordered (by omega)]
  exact Size.checked_of_lt (by omega)

theorem inputRows_ok (h : p.Contained) : inputRows p = .ok p.inputRows := by
  rw [inputRows, border_ok h]
  exact bordered_ok h.inputRows_lt

theorem inputCols_ok (h : p.Contained) : inputCols p = .ok p.inputCols := by
  rw [inputCols, border_ok h]
  exact bordered_ok h.inputCols_lt

/-- The extents of the positions where the whole kernel fits. -/
theorem shrunk_ok {extent kernel : Nat} (hkernel : 0 < kernel) (hle : kernel ≤ extent)
    (hlt : extent < Size.limit) :
    (extent - kernel + 1 : Offset).eval = .ok (extent - kernel + 1) := by
  apply Offset.eval_add
  · exact Offset.eval_sub (Offset.eval_size hlt) (Offset.eval_size (by omega)) hle
  · rfl
  · omega

theorem outRows_of_lt (hp : p.Expandable) (hlt : p.height < Size.limit) :
    outRows p = .ok p.outRows := by
  rw [outRows, Problem.outRows]
  cases hpadding : p.padding with
  | prepad =>
      rfl
  | inline =>
      rfl
  | valid =>
      exact shrunk_ok hp.kernel_pos (hp.fits hpadding).1 hlt

theorem outCols_of_lt (hp : p.Expandable) (hlt : p.width < Size.limit) :
    outCols p = .ok p.outCols := by
  rw [outCols, Problem.outCols]
  cases hpadding : p.padding with
  | prepad =>
      rfl
  | inline =>
      rfl
  | valid =>
      exact shrunk_ok hp.kernel_pos (hp.fits hpadding).2 hlt

theorem outRows_ok (h : p.Contained) : outRows p = .ok p.outRows := by
  have hheight : p.height < Size.bufferLimit :=
    Nat.lt_of_le_of_lt (Nat.le_add_right _ _) h.inputRows_lt
  exact outRows_of_lt h.expandable (Nat.lt_trans hheight Size.bufferLimit_lt_limit)

theorem outCols_ok (h : p.Contained) : outCols p = .ok p.outCols := by
  have hwidth : p.width < Size.bufferLimit :=
    Nat.lt_of_le_of_lt (Nat.le_add_right _ _) h.inputCols_lt
  exact outCols_of_lt h.expandable (Nat.lt_trans hwidth Size.bufferLimit_lt_limit)

theorem patchSize_of_lt (hkernel : Offset.Counts p.kernel) (hlt : p.patchSize < Size.limit) :
    patchSize p = .ok p.patchSize :=
  Offset.eval_of_rises (by simp [hkernel]) hlt

theorem patchSize_ok (h : p.Contained) : patchSize p = .ok p.patchSize :=
  patchSize_of_lt h.counts_kernel h.counts_patchSize.2

theorem outPixels_ok (h : p.Contained) : outPixels p = .ok p.outPixels := by
  rw [outPixels, outRows_ok h, ok_bind, outCols_ok h, ok_bind]
  exact Offset.eval_of_rises (by simp [h.counts_outCols]) h.counts_outPixels.2

theorem measure_ok (h : p.Contained) : measure p = .ok () := by
  have hplane : (p.inputRows * p.inputCols : Offset).eval = .ok (p.inputRows * p.inputCols) :=
    Offset.eval_of_rises (by simp [h.counts_inputCols]) h.counts_plane.2
  rw [measure, inputRows_ok h, ok_bind, inputCols_ok h, ok_bind, hplane, ok_bind, halo_ok h,
    ok_bind, outPixels_ok h, ok_bind, patchSize_ok h]
  rfl

end Word
end ConvSweep
