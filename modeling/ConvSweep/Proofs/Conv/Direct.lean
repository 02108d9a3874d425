import Mathlib
import ConvSweep.Conv.Direct
import ConvSweep.Proofs.Conv.Taps
import ConvSweep.Proofs.Matrix.Dense

/-!
# Direct convolution computes sums over taps

Each output element of the direct loops is the sum from zero over the taps of an
axis order, one product after the other.  A tap that an inline border leaves out
adds nothing.  Tiles and schedules do not show in the result.
-/

namespace ConvSweep

open BufferM Loop

namespace Problem

variable {α : Type}

/-- Adds the product under one tap, unless the tap is left out. -/
def addProduct [Add α] [Mul α] (p : Problem) (x w : Nat → Nat → Nat → Nat → α)
    (b f oh ow : Nat) (acc : α) (t : Tap) : α :=
  match p.sample? x b oh ow t with
  | some v => acc + v * t.weight w f
  | none => acc

/-- The sum of the products under all taps, in the order of an axis order. -/
def directSum [Zero α] [Add α] [Mul α] (p : Problem) (layout : Layout)
    (x w : Nat → Nat → Nat → Nat → α) (b f oh ow : Nat) : α :=
  (List.range p.patchSize).foldl
    (fun acc i => p.addProduct x w b f oh ow acc (p.tapAt layout i)) 0

theorem addProduct_of_some [Add α] [Mul α] {p : Problem} {x w : Nat → Nat → Nat → Nat → α}
    {b f oh ow : Nat} {t : Tap} {v : α} (h : p.sample? x b oh ow t = some v) (acc : α) :
    p.addProduct x w b f oh ow acc t = acc + v * t.weight w f := by
  rw [addProduct, h]

theorem addProduct_of_none [Add α] [Mul α] {p : Problem} {x w : Nat → Nat → Nat → Nat → α}
    {b f oh ow : Nat} {t : Tap} (h : p.sample? x b oh ow t = none) (acc : α) :
    p.addProduct x w b f oh ow acc t = acc := by
  rw [addProduct, h]

/-!
## Loops over channels, rows and columns
-/

section

variable {p : Problem} {input : Array α} {x w : Nat → Nat → Nat → Nat → α} {b f oh ow : Nat}

/-- The weights of one kernel row of a filter. -/
theorem slice_kernelRow {c kh : Nat} (hc : c < p.inChannels) (hkh : kh < p.kernel) :
    slice (tabulate p.patchSize fun i => (p.tapAt .nchw i).weight w f)
        ((c * p.kernel + kh) * p.kernel) p.kernel =
      .ok (tabulate p.kernel fun kw => w f c kh kw) := by
  have hlast : HasTap p ⟨c, kh, p.kernel - 1⟩ := ⟨hc, hkh, Nat.sub_one_lt (by omega)⟩
  have hfit := tapIndex_lt .nchw hlast
  rw [tapIndex] at hfit
  rw [slice_tabulate (by dsimp only at hfit; omega)]
  congr 1
  apply tabulate_congr
  intro kw hkw
  have htap : HasTap p ⟨c, kh, kw⟩ := ⟨hc, hkh, hkw⟩
  have hplace : (c * p.kernel + kh) * p.kernel + kw = p.tapIndex .nchw ⟨c, kh, kw⟩ := rfl
  rw [hplace, tapAt_tapIndex .nchw htap]
  rfl

theorem addKernelRow_ok [Add α] [Mul α] (hp : p.Admissible) (hx : p.HoldsInput .nchw input x)
    (hb : b < p.batch) (hoh : oh < p.outRows) (how : ow < p.outCols) {c kh : Nat}
    (hc : c < p.inChannels) (hkh : kh < p.kernel) (sum : α) :
    p.addKernelRow input (tabulate p.patchSize fun i => (p.tapAt .nchw i).weight w f)
        (b * p.inChannels * (p.inputRows * p.inputCols) + c * (p.inputRows * p.inputCols))
        (c * p.kernel + kh) oh ow kh sum =
      .ok ((List.range p.kernel).foldl
        (fun acc kw => p.addProduct x w b f oh ow acc ⟨c, kh, kw⟩) sum) := by
  unfold addKernelRow
  rw [slice_kernelRow hc hkh]
  dsimp only [bind, Except.bind]
  by_cases hpad : p.padding = .inline
  · rw [if_pos hpad]
    cases hrow : source? p.halo p.inputRows oh kh with
    | none =>
        have hidle : ∀ kw < p.kernel, ∀ acc,
            p.addProduct x w b f oh ow acc ⟨c, kh, kw⟩ = acc :=
          fun kw _ acc => addProduct_of_none (sample?_of_row_none hrow) acc
        rw [foldl_range_congr sum hidle, List.foldl_fixed]
        rfl
    | some ih =>
        apply foldRange_zero_ok
        intro kw hkw acc
        cases hcol : source? p.halo p.inputCols ow kw with
        | none =>
            rw [addProduct_of_none (sample?_of_col_none hcol)]
            rfl
        | some iw =>
            have hfetch := Holds.fetch_eq hx hb hc (source?_lt hrow) (source?_lt hcol)
              (p.place_plane b c ih iw)
            rw [addProduct_of_some (sample?_of_source? hrow hcol)]
            dsimp only
            rw [hfetch, fetch_tabulate hkw]
            rfl
  · rw [if_neg hpad]
    apply foldRange_zero_ok
    intro kw hkw acc
    have hplace := p.place_plane b c (oh + kh) (ow + kw)
    rw [← Nat.add_assoc] at hplace
    have hrow := hp.expandable.source?_row hpad hoh hkh
    have hcol := hp.expandable.source?_col hpad how hkw
    have hfetch := Holds.fetch_eq hx hb hc (source?_lt hrow) (source?_lt hcol) hplace
    rw [addProduct_of_some (sample?_of_source? hrow hcol), hfetch, fetch_tabulate hkw]
    rfl

theorem pixelSum_ok [Zero α] [Add α] [Mul α] (hp : p.Admissible)
    (hx : p.HoldsInput .nchw input x) (hb : b < p.batch) (hoh : oh < p.outRows)
    (how : ow < p.outCols) :
    p.pixelSum input (tabulate p.patchSize fun i => (p.tapAt .nchw i).weight w f)
        (b * p.inChannels * (p.inputRows * p.inputCols)) oh ow =
      .ok (p.directSum .nchw x w b f oh ow) := by
  rw [directSum, ← foldl_taps_nchw]
  apply foldRange_zero_ok
  intro c hc acc
  apply foldRange_zero_ok
  intro kh hkh acc
  exact addKernelRow_ok hp hx hb hoh how hc hkh acc

end

/-!
## Loops over rows, columns and channels
-/

theorem tap?_row {p : Problem} (hp : p.Admissible) {oh kh : Nat} (hoh : oh < p.outRows)
    (hkh : kh < p.kernel) :
    p.tap? p.inputRows oh kh = source? p.halo p.inputRows oh kh := by
  rw [tap?]
  by_cases hpad : p.padding = .inline
  · rw [if_pos hpad]
  · rw [if_neg hpad, hp.expandable.source?_row hpad hoh hkh]

theorem tap?_col {p : Problem} (hp : p.Admissible) {ow kw : Nat} (how : ow < p.outCols)
    (hkw : kw < p.kernel) :
    p.tap? p.inputCols ow kw = source? p.halo p.inputCols ow kw := by
  rw [tap?]
  by_cases hpad : p.padding = .inline
  · rw [if_pos hpad]
  · rw [if_neg hpad, hp.expandable.source?_col hpad how hkw]

/-- The weights of one tap of a filter, for all channels. -/
theorem slice_tapChannels {w : Nat → Nat → Nat → Nat → α} {p : Problem} {f kh kw : Nat}
    (hp : p.Admissible) (hkh : kh < p.kernel) (hkw : kw < p.kernel) :
    slice (tabulate p.patchSize fun i => (p.tapAt .nhwc i).weight w f)
        ((kh * p.kernel + kw) * p.inChannels) p.inChannels =
      .ok (tabulate p.inChannels fun c => w f c kh kw) := by
  have hchannels := hp.inChannels_pos
  have hlast : HasTap p ⟨p.inChannels - 1, kh, kw⟩ := ⟨Nat.sub_one_lt (by omega), hkh, hkw⟩
  have hfit := tapIndex_lt .nhwc hlast
  rw [tapIndex] at hfit
  rw [slice_tabulate (by dsimp only at hfit; omega)]
  congr 1
  apply tabulate_congr
  intro c hc
  have htap : HasTap p ⟨c, kh, kw⟩ := ⟨hc, hkh, hkw⟩
  have hplace : (kh * p.kernel + kw) * p.inChannels + c = p.tapIndex .nhwc ⟨c, kh, kw⟩ := rfl
  rw [hplace, tapAt_tapIndex .nhwc htap]
  rfl

section

variable {p : Problem} {input : Array α} {x w : Nat → Nat → Nat → Nat → α} {b f oh ow : Nat}

theorem addTap_ok [Add α] [Mul α] (hp : p.Admissible) (hx : p.HoldsInput .nhwc input x)
    (hb : b < p.batch) (hoh : oh < p.outRows) (how : ow < p.outCols) {kh kw : Nat}
    (hkh : kh < p.kernel) (hkw : kw < p.kernel) (sum : α) :
    p.addTap input (tabulate p.patchSize fun i => (p.tapAt .nhwc i).weight w f)
        (b * p.inputRows * p.inputCols * p.inChannels) oh ow kh kw sum =
      .ok ((List.range p.inChannels).foldl
        (fun acc c => p.addProduct x w b f oh ow acc ⟨c, kh, kw⟩) sum) := by
  have hidle (hnone : ∀ c, p.sample? x b oh ow ⟨c, kh, kw⟩ = none) :
      (List.range p.inChannels).foldl
        (fun acc c => p.addProduct x w b f oh ow acc ⟨c, kh, kw⟩) sum = sum := by
    rw [foldl_range_congr sum fun c _ acc => addProduct_of_none (hnone c) acc,
      List.foldl_fixed]
  unfold addTap
  rw [tap?_row hp hoh hkh, tap?_col hp how hkw]
  cases hrow : source? p.halo p.inputRows oh kh with
  | none =>
      rw [hidle fun c => sample?_of_row_none hrow]
      rfl
  | some ih =>
      cases hcol : source? p.halo p.inputCols ow kw with
      | none =>
          rw [hidle fun c => sample?_of_col_none hcol]
          rfl
      | some iw =>
          have hslice := Holds.slice_eq hx hb (source?_lt hrow) (source?_lt hcol)
            (Nat.le_of_eq (Nat.zero_add _)) hp.inChannels_pos (p.place_channels b ih iw)
          dsimp only
          rw [slice_tapChannels hp hkh hkw, hslice]
          dsimp only [bind, Except.bind, pure, Except.pure]
          rw [toList_tabulate, toList_tabulate, dotFrom_map]
          congr 1
          apply foldl_range_congr
          intro c _ acc
          rw [addProduct_of_some (sample?_of_source? hrow hcol), Nat.zero_add]
          rfl

theorem channelSum_ok [Zero α] [Add α] [Mul α] (hp : p.Admissible)
    (hx : p.HoldsInput .nhwc input x) (hb : b < p.batch) (hoh : oh < p.outRows)
    (how : ow < p.outCols) :
    p.channelSum input (tabulate p.patchSize fun i => (p.tapAt .nhwc i).weight w f)
        (b * p.inputRows * p.inputCols * p.inChannels) oh ow =
      .ok (p.directSum .nhwc x w b f oh ow) := by
  rw [directSum, ← foldl_taps_nhwc]
  apply foldRange_zero_ok
  intro kh hkh acc
  apply foldRange_zero_ok
  intro kw hkw acc
  exact addTap_ok hp hx hb hoh how hkh hkw acc

/-!
## Whole outputs
-/

variable [Zero α] [Add α] [Mul α] {weight : Array α} {n : Nat}

/-- One output plane, for every tile. -/
theorem fills_planeTask (hp : p.Admissible) (hx : p.HoldsInput .nchw input x)
    (hw : p.HoldsWeight .nchw weight w) (tile : Tile) {plane : Nat}
    (hplane : plane < p.batch * p.outChannels) :
    Fills (p.planeTask tile input weight plane (p.outRows * p.outCols)) fun j =>
      spread p.outChannels p.outRows p.outCols (p.directSum .nchw x w)
        (plane * (p.outRows * p.outCols) + j) := by
  have hb := div_lt_of_lt_mul hplane
  have hf := mod_lt_of_lt_mul hplane
  unfold planeTask
  rw [lift_bind (hw.slice_filter hf)]
  apply fills_tiles (by omega) (by omega) rfl
  intro oh hoh ow how
  rw [lift_bind (pixelSum_ok hp hx hb hoh how)]
  apply puts_write
  · exact add_mul_lt hoh how
  · have hplace : plane * (p.outRows * p.outCols) + (oh * p.outCols + ow) =
        rowMajor p.outChannels p.outRows p.outCols (plane / p.outChannels)
          (plane % p.outChannels) oh ow := by
      rw [rowMajor, Nat.div_add_mod']
      ring
    rw [hplace, spread_rowMajor hf hoh how]

/-- The output in `(N, F, OH, OW)` order, for every tile and schedule. -/
theorem fills_directNchw (hp : p.Admissible) (hx : p.HoldsInput .nchw input x)
    (hw : p.HoldsWeight .nchw weight w) (schedule : Schedule) (tile : Tile)
    (hn : n = p.batch * p.outChannels * p.outRows * p.outCols) :
    Fills (p.directNchw schedule tile input weight : BufferM α n Unit)
      (spread p.outChannels p.outRows p.outCols (p.directSum .nchw x w)) := by
  have hsize : n = p.batch * p.outChannels * (p.outRows * p.outCols) := by
    rw [hn]
    ring
  exact fills_onChunks schedule hp.expandable.outPixels_pos hsize fun _ hplane =>
    fills_planeTask hp hx hw tile hplane

/-- One output row. -/
theorem fills_rowTask (hp : p.Admissible) (hx : p.HoldsInput .nhwc input x)
    (hw : p.HoldsWeight .nhwc weight w) {row : Nat} (hrow : row < p.batch * p.outRows) :
    Fills (p.rowTask input weight row (p.outCols * p.outChannels)) fun j =>
      spread p.outRows p.outCols p.outChannels (fun b oh ow f => p.directSum .nhwc x w b f oh ow)
        (row * (p.outCols * p.outChannels) + j) := by
  have hb := div_lt_of_lt_mul hrow
  have hoh := mod_lt_of_lt_mul hrow
  apply Puts.fills
  · apply puts_forRange_zero
    intro ow how
    apply puts_forRange_zero
    intro f hf
    rw [lift_bind (hw.slice_filter hf)]
    dsimp only
    rw [lift_bind (channelSum_ok hp hx hb hoh how)]
    apply puts_write (add_mul_lt how hf)
    have hplace : row * (p.outCols * p.outChannels) + (ow * p.outChannels + f) =
        rowMajor p.outRows p.outCols p.outChannels (row / p.outRows) (row % p.outRows) ow f := by
      rw [rowMajor, Nat.div_add_mod']
      ring
    rw [hplace, spread_rowMajor hoh how hf]
  · intro i hi
    exact ⟨i / p.outChannels, div_lt_of_lt_mul hi, i % p.outChannels, mod_lt_of_lt_mul hi,
      (Nat.div_add_mod' i p.outChannels).symm⟩

/-- The output in `(N, OH, OW, F)` order, for every schedule. -/
theorem fills_directNhwc (hp : p.Admissible) (hx : p.HoldsInput .nhwc input x)
    (hw : p.HoldsWeight .nhwc weight w) (schedule : Schedule)
    (hn : n = p.batch * p.outRows * p.outCols * p.outChannels) :
    Fills (p.directNhwc schedule input weight : BufferM α n Unit)
      (spread p.outRows p.outCols p.outChannels fun b oh ow f =>
        p.directSum .nhwc x w b f oh ow) := by
  have hchunk : 0 < p.outCols * p.outChannels :=
    Nat.mul_pos hp.expandable.outCols_pos hp.outChannels_pos
  have hsize : n = p.batch * p.outRows * (p.outCols * p.outChannels) := by
    rw [hn]
    ring
  exact fills_onChunks schedule hchunk hsize fun _ hrow => fills_rowTask hp hx hw hrow

end
end Problem
end ConvSweep
