import Mathlib
import ConvSweep.Conv.Problem
import ConvSweep.Matrix.Row
import ConvSweep.Proofs.Tensor.Layout

/-!
# Taps

The taps of an output element are numbered from zero to the patch size, in the
order in which an axis order visits them.  `sample?` is the input value under a
tap; only an inline border leaves a tap without one.  Seen from the input without
its border, a tap reads the input shifted by the border and the halo together,
and zero outside, whatever the treatment of the border.
-/

namespace ConvSweep

open Loop

variable {α : Type}

structure Tap where
  channel : Nat
  row : Nat
  col : Nat
deriving DecidableEq

def Tap.weight (t : Tap) (w : Nat → Nat → Nat → Nat → α) (f : Nat) : α :=
  w f t.channel t.row t.col

namespace Problem

/-- Every extent is positive, the kernel has a middle tap and fits an input without a border. -/
structure Admissible (p : Problem) : Prop where
  batch_pos : 0 < p.batch
  inChannels_pos : 0 < p.inChannels
  outChannels_pos : 0 < p.outChannels
  height_pos : 0 < p.height
  width_pos : 0 < p.width
  odd : p.kernel % 2 = 1
  fits : p.padding = .valid → p.kernel ≤ p.height ∧ p.kernel ≤ p.width

/-- What the patches of a problem rely on: an inline border allows every kernel, and the filters do
not matter. -/
structure Expandable (p : Problem) : Prop where
  batch_pos : 0 < p.batch
  inChannels_pos : 0 < p.inChannels
  height_pos : 0 < p.height
  width_pos : 0 < p.width
  kernel_pos : 0 < p.kernel
  middle : p.padding = .prepad → p.kernel % 2 = 1
  fits : p.padding = .valid → p.kernel ≤ p.height ∧ p.kernel ≤ p.width

theorem Admissible.expandable {p : Problem} (hp : p.Admissible) : p.Expandable where
  batch_pos := hp.batch_pos
  inChannels_pos := hp.inChannels_pos
  height_pos := hp.height_pos
  width_pos := hp.width_pos
  kernel_pos := by
    have hodd := hp.odd
    omega
  middle _ := hp.odd
  fits := hp.fits

theorem of_check {p : Problem} {u : Unit} (h : p.check = .ok u) :
    p.kernel % 2 = 1 ∧ (p.padding = .valid → p.kernel ≤ p.height ∧ p.kernel ≤ p.width) := by
  rw [check] at h
  split at h
  · cases h
  · split at h
    · cases h
    · rename_i hodd hvalid
      constructor
      · omega
      · intro hpadding
        have hfits : ¬ (p.height < p.kernel ∨ p.width < p.kernel) :=
          fun hlt => hvalid ⟨hpadding, hlt⟩
        omega

/-- The extents are compared before anything else is checked. -/
theorem ofShapes_quad {input weight : Shape} {n c h w f c' k l : Nat}
    (hinput : input.dims = [n, c, h, w]) (hweight : weight.dims = [f, c', k, l])
    (padding : Padding) :
    ofShapes input weight padding =
      if c = c' ∧ k = l then do
        (⟨n, c, f, h, w, k, padding⟩ : Problem).check
        return ⟨n, c, f, h, w, k, padding⟩
      else
        .error (.shapeMismatch (.weightExtents weight.dims input.dims c)) := by
  have hvalid : weight.validate [.any, .exactly c, .exactly k, .exactly k] = true ↔
      c = c' ∧ k = l := by
    rw [Shape.validate_quad_iff hweight]
    simp
  rw [ofShapes, Shape.quad_eq hinput, Shape.quad_eq hweight]
  dsimp only [ok_bind]
  by_cases hextents : c = c' ∧ k = l
  · rw [if_pos (hvalid.mpr hextents), if_pos hextents]
  · rw [if_neg (mt hvalid.mp hextents), if_neg hextents]
    rfl

/-- What is accepted of a pair of shapes. -/
theorem of_ofShapes {input weight : Shape} {padding : Padding} {p : Problem}
    (h : ofShapes input weight padding = .ok p) :
    p.Admissible ∧ input.dims = [p.batch, p.inChannels, p.height, p.width] ∧
      weight.dims = [p.outChannels, p.inChannels, p.kernel, p.kernel] ∧ p.padding = padding := by
  have hquads := h
  rw [ofShapes] at hquads
  rcases bind_eq_ok hquads with ⟨⟨n, c, height, width⟩, hinput, hquads⟩
  rcases bind_eq_ok hquads with ⟨⟨f, c', k, k'⟩, hweight, _⟩
  have hin := Shape.of_quad hinput
  have hwt := Shape.of_quad hweight
  rw [ofShapes_quad hin hwt] at h
  split at h
  · rename_i hextents
    rcases hextents with ⟨rfl, rfl⟩
    rcases bind_eq_ok h with ⟨_, hcheck, h⟩
    cases h
    rcases Shape.quad_pos hin with ⟨hn, hc, hh, hw⟩
    rcases Shape.quad_pos hwt with ⟨hf, _, _, _⟩
    rcases of_check hcheck with ⟨hodd, hfits⟩
    exact ⟨⟨hn, hc, hf, hh, hw, hodd, hfits⟩, hin, hwt, rfl⟩
  · cases h

theorem Expandable.patchSize_pos {p : Problem} (hp : p.Expandable) : 0 < p.patchSize :=
  Nat.mul_pos (Nat.mul_pos hp.inChannels_pos hp.kernel_pos) hp.kernel_pos

theorem Expandable.outRows_pos {p : Problem} (hp : p.Expandable) : 0 < p.outRows := by
  rw [outRows]
  cases p.padding with
  | valid =>
      exact Nat.succ_pos _
  | prepad =>
      exact hp.height_pos
  | inline =>
      exact hp.height_pos

theorem Expandable.outCols_pos {p : Problem} (hp : p.Expandable) : 0 < p.outCols := by
  rw [outCols]
  cases p.padding with
  | valid =>
      exact Nat.succ_pos _
  | prepad =>
      exact hp.width_pos
  | inline =>
      exact hp.width_pos

/-- The output is no larger than the input. -/
theorem Expandable.outRows_le {p : Problem} (hp : p.Expandable) : p.outRows ≤ p.height := by
  have hkernel := hp.kernel_pos
  rw [outRows]
  cases hpadding : p.padding with
  | valid =>
      have hfits := hp.fits hpadding
      dsimp only
      omega
  | prepad =>
      exact Nat.le_refl _
  | inline =>
      exact Nat.le_refl _

theorem Expandable.outCols_le {p : Problem} (hp : p.Expandable) : p.outCols ≤ p.width := by
  have hkernel := hp.kernel_pos
  rw [outCols]
  cases hpadding : p.padding with
  | valid =>
      have hfits := hp.fits hpadding
      dsimp only
      omega
  | prepad =>
      exact Nat.le_refl _
  | inline =>
      exact Nat.le_refl _

theorem border_le (p : Problem) : p.border ≤ p.kernel := by
  rw [border, halfKernel]
  cases p.padding with
  | prepad =>
      dsimp only
      omega
  | inline =>
      exact Nat.zero_le _
  | valid =>
      exact Nat.zero_le _

theorem Expandable.outPixels_pos {p : Problem} (hp : p.Expandable) : 0 < p.outPixels :=
  Nat.mul_pos hp.outRows_pos hp.outCols_pos

/-!
## Places under taps
-/

theorem source?_lt {halo extent o k s : Nat} (h : source? halo extent o k = some s) :
    s < extent := by
  rw [source?] at h
  split at h
  · cases h
    omega
  · cases h

theorem source?_zero {extent o k : Nat} (h : o + k < extent) :
    source? 0 extent o k = some (o + k) := by
  rw [source?, if_pos ⟨Nat.zero_le _, by omega⟩, Nat.sub_zero]

theorem halo_of_ne_inline {p : Problem} (h : p.padding ≠ .inline) : p.halo = 0 := by
  rw [halo]
  cases hp : p.padding with
  | inline =>
      exact absurd hp h
  | prepad =>
      rfl
  | valid =>
      rfl

/-- Without an inline border every tap lies in the rows of the prepared input. -/
theorem Expandable.row_lt {p : Problem} (hp : p.Expandable) (h : p.padding ≠ .inline)
    {oh kh : Nat} (hoh : oh < p.outRows) (hkh : kh < p.kernel) : oh + kh < p.inputRows := by
  cases hpadding : p.padding with
  | inline =>
      exact absurd hpadding h
  | prepad =>
      have hodd := hp.middle hpadding
      simp only [outRows, inputRows, border, halfKernel, hpadding] at *
      omega
  | valid =>
      have hfits := hp.fits hpadding
      simp only [outRows, inputRows, border, hpadding] at *
      omega

/-- Without an inline border every tap lies in the columns of the prepared input. -/
theorem Expandable.col_lt {p : Problem} (hp : p.Expandable) (h : p.padding ≠ .inline)
    {ow kw : Nat} (how : ow < p.outCols) (hkw : kw < p.kernel) : ow + kw < p.inputCols := by
  cases hpadding : p.padding with
  | inline =>
      exact absurd hpadding h
  | prepad =>
      have hodd := hp.middle hpadding
      simp only [outCols, inputCols, border, halfKernel, hpadding] at *
      omega
  | valid =>
      have hfits := hp.fits hpadding
      simp only [outCols, inputCols, border, hpadding] at *
      omega

theorem Expandable.source?_row {p : Problem} (hp : p.Expandable) (h : p.padding ≠ .inline)
    {oh kh : Nat} (hoh : oh < p.outRows) (hkh : kh < p.kernel) :
    source? p.halo p.inputRows oh kh = some (oh + kh) := by
  rw [halo_of_ne_inline h]
  exact source?_zero (hp.row_lt h hoh hkh)

theorem Expandable.source?_col {p : Problem} (hp : p.Expandable) (h : p.padding ≠ .inline)
    {ow kw : Nat} (how : ow < p.outCols) (hkw : kw < p.kernel) :
    source? p.halo p.inputCols ow kw = some (ow + kw) := by
  rw [halo_of_ne_inline h]
  exact source?_zero (hp.col_lt h how hkw)

/-!
## Samples
-/

/-- The value of the prepared input under a tap of output position `(oh, ow)`. -/
def sample? (p : Problem) (x : Nat → Nat → Nat → Nat → α) (b oh ow : Nat) (t : Tap) : Option α :=
  match source? p.halo p.inputRows oh t.row, source? p.halo p.inputCols ow t.col with
  | some ih, some iw => some (x b t.channel ih iw)
  | _, _ => none

theorem sample?_of_source? {p : Problem} {x : Nat → Nat → Nat → Nat → α} {b oh ow : Nat}
    {t : Tap} {ih iw : Nat} (hrow : source? p.halo p.inputRows oh t.row = some ih)
    (hcol : source? p.halo p.inputCols ow t.col = some iw) :
    p.sample? x b oh ow t = some (x b t.channel ih iw) := by
  rw [sample?, hrow, hcol]

theorem sample?_of_row_none {p : Problem} {x : Nat → Nat → Nat → Nat → α} {b oh ow : Nat}
    {t : Tap} (hrow : source? p.halo p.inputRows oh t.row = none) :
    p.sample? x b oh ow t = none := by
  rw [sample?, hrow]

theorem sample?_of_col_none {p : Problem} {x : Nat → Nat → Nat → Nat → α} {b oh ow : Nat}
    {t : Tap} (hcol : source? p.halo p.inputCols ow t.col = none) :
    p.sample? x b oh ow t = none := by
  rw [sample?, hcol]
  cases source? p.halo p.inputRows oh t.row <;> rfl

theorem Expandable.sample?_eq {p : Problem} (hp : p.Expandable) (h : p.padding ≠ .inline)
    (x : Nat → Nat → Nat → Nat → α) (b : Nat) {oh ow : Nat} {t : Tap} (hoh : oh < p.outRows)
    (how : ow < p.outCols) (hrow : t.row < p.kernel) (hcol : t.col < p.kernel) :
    p.sample? x b oh ow t = some (x b t.channel (oh + t.row) (ow + t.col)) :=
  sample?_of_source? (hp.source?_row h hoh hrow) (hp.source?_col h how hcol)

/-- How far the first tap of an output position lies before that position in the input without
its border. -/
def reach (p : Problem) : Nat :=
  p.border + p.halo

/-- A tap of the prepared input reads the input itself, zero outside of its planes. -/
theorem sample?_bordering [Zero α] (p : Problem) (x : Nat → Nat → Nat → Nat → α)
    (b oh ow : Nat) (t : Tap) :
    (p.sample? (Tensor.bordering p.border p.height p.width x) b oh ow t).getD 0 =
      Tensor.bordering p.reach p.height p.width x b t.channel (oh + t.row) (ow + t.col) := by
  have hone : p.border = 0 ∨ p.halo = 0 := by
    cases hp : p.padding <;> simp [border, halo, hp]
  have hrows : p.inputRows = p.height + 2 * p.border := rfl
  have hcols : p.inputCols = p.width + 2 * p.border := rfl
  by_cases hrow : p.halo ≤ oh + t.row ∧ oh + t.row - p.halo < p.inputRows
  · have hrow' : source? p.halo p.inputRows oh t.row = some (oh + t.row - p.halo) := if_pos hrow
    by_cases hcol : p.halo ≤ ow + t.col ∧ ow + t.col - p.halo < p.inputCols
    · have hcol' : source? p.halo p.inputCols ow t.col = some (ow + t.col - p.halo) := if_pos hcol
      rw [sample?_of_source? hrow' hcol', Option.getD_some, Tensor.bordering, Tensor.bordering,
        reach]
      by_cases hin : p.border + p.halo ≤ oh + t.row ∧
          oh + t.row < p.border + p.halo + p.height ∧ p.border + p.halo ≤ ow + t.col ∧
          ow + t.col < p.border + p.halo + p.width
      · rw [if_pos hin, if_pos (by omega)]
        congr 1 <;> omega
      · rw [if_neg hin, if_neg (by omega)]
    · have hcol' : source? p.halo p.inputCols ow t.col = none := if_neg hcol
      rw [sample?_of_col_none hcol', Option.getD_none, Tensor.bordering, reach, if_neg (by omega)]
  · have hrow' : source? p.halo p.inputRows oh t.row = none := if_neg hrow
    rw [sample?_of_row_none hrow', Option.getD_none, Tensor.bordering, reach, if_neg (by omega)]

/-!
## The order of the taps
-/

/-- Tap number `i` in the order of an axis order. -/
def tapAt (p : Problem) (layout : Layout) (i : Nat) : Tap :=
  match layout with
  | .nchw => ⟨i / p.kernel / p.kernel, i / p.kernel % p.kernel, i % p.kernel⟩
  | .nhwc => ⟨i % p.inChannels, i / p.inChannels / p.kernel, i / p.inChannels % p.kernel⟩

/-- The number of a tap in an axis order. -/
def tapIndex (p : Problem) (layout : Layout) (t : Tap) : Nat :=
  match layout with
  | .nchw => (t.channel * p.kernel + t.row) * p.kernel + t.col
  | .nhwc => (t.row * p.kernel + t.col) * p.inChannels + t.channel

def HasTap (p : Problem) (t : Tap) : Prop :=
  t.channel < p.inChannels ∧ t.row < p.kernel ∧ t.col < p.kernel

theorem patchSize_eq (p : Problem) : p.patchSize = p.kernel * p.kernel * p.inChannels := by
  rw [patchSize, Nat.mul_assoc, Nat.mul_comm]

theorem hasTap_tapAt {p : Problem} (layout : Layout) {i : Nat} (hi : i < p.patchSize) :
    p.HasTap (p.tapAt layout i) := by
  cases layout with
  | nchw =>
      have hdiv := div_lt_of_lt_mul hi
      exact ⟨div_lt_of_lt_mul hdiv, mod_lt_of_lt_mul hdiv, mod_lt_of_lt_mul hi⟩
  | nhwc =>
      rw [patchSize_eq] at hi
      have hdiv := div_lt_of_lt_mul hi
      exact ⟨mod_lt_of_lt_mul hi, div_lt_of_lt_mul hdiv, mod_lt_of_lt_mul hdiv⟩

theorem tapIndex_tapAt (p : Problem) (layout : Layout) (i : Nat) :
    p.tapIndex layout (p.tapAt layout i) = i := by
  cases layout <;> simp only [tapIndex, tapAt, Nat.div_add_mod']

theorem tapAt_tapIndex {p : Problem} (layout : Layout) {t : Tap} (ht : p.HasTap t) :
    p.tapAt layout (p.tapIndex layout t) = t := by
  rcases ht with ⟨hchannel, hrow, hcol⟩
  cases layout with
  | nchw =>
      simp only [tapAt, tapIndex, add_mul_div_of_lt hcol, add_mul_mod_of_lt hcol,
        add_mul_div_of_lt hrow, add_mul_mod_of_lt hrow]
  | nhwc =>
      simp only [tapAt, tapIndex, add_mul_div_of_lt hchannel, add_mul_mod_of_lt hchannel,
        add_mul_div_of_lt hcol, add_mul_mod_of_lt hcol]

theorem tapIndex_lt {p : Problem} (layout : Layout) {t : Tap} (ht : p.HasTap t) :
    p.tapIndex layout t < p.patchSize := by
  rcases ht with ⟨hchannel, hrow, hcol⟩
  cases layout with
  | nchw =>
      exact add_mul_lt (add_mul_lt hchannel hrow) hcol
  | nhwc =>
      rw [patchSize_eq]
      exact add_mul_lt (add_mul_lt hrow hcol) hchannel

variable {β : Type}

/-- Loops over channels, rows and columns visit the taps in NCHW order. -/
theorem foldl_taps_nchw (p : Problem) (step : β → Tap → β) (acc : β) :
    (List.range p.inChannels).foldl (fun acc c =>
        (List.range p.kernel).foldl (fun acc kh =>
          (List.range p.kernel).foldl (fun acc kw => step acc ⟨c, kh, kw⟩) acc) acc) acc =
      (List.range p.patchSize).foldl (fun acc i => step acc (p.tapAt .nchw i)) acc := by
  rw [foldl_range_mul p.inChannels p.kernel fun acc c kh =>
      (List.range p.kernel).foldl (fun acc kw => step acc ⟨c, kh, kw⟩) acc,
    foldl_range_mul (p.inChannels * p.kernel) p.kernel fun acc q kw =>
      step acc ⟨q / p.kernel, q % p.kernel, kw⟩]
  rfl

/-- Loops over rows, columns and channels visit the taps in NHWC order. -/
theorem foldl_taps_nhwc (p : Problem) (step : β → Tap → β) (acc : β) :
    (List.range p.kernel).foldl (fun acc kh =>
        (List.range p.kernel).foldl (fun acc kw =>
          (List.range p.inChannels).foldl (fun acc c => step acc ⟨c, kh, kw⟩) acc) acc) acc =
      (List.range p.patchSize).foldl (fun acc i => step acc (p.tapAt .nhwc i)) acc := by
  rw [foldl_range_mul p.kernel p.kernel fun acc kh kw =>
      (List.range p.inChannels).foldl (fun acc c => step acc ⟨c, kh, kw⟩) acc,
    foldl_range_mul (p.kernel * p.kernel) p.inChannels fun acc q c =>
      step acc ⟨c, q / p.kernel, q % p.kernel⟩, patchSize_eq]
  rfl

/-!
## Prepared operands
-/

/-- The buffer shows the prepared input `x`, given by batch, channel, row and column. -/
def HoldsInput (p : Problem) (layout : Layout) (data : Array α)
    (x : Nat → Nat → Nat → Nat → α) : Prop :=
  match layout with
  | .nchw => Holds data p.batch p.inChannels p.inputRows p.inputCols x
  | .nhwc => Holds data p.batch p.inputRows p.inputCols p.inChannels fun b y z c => x b c y z

/-- The place of an element of a prepared NCHW input, as the kernels compute it. -/
theorem place_plane (p : Problem) (b c y z : Nat) :
    b * p.inChannels * (p.inputRows * p.inputCols) + c * (p.inputRows * p.inputCols) +
        y * p.inputCols + z = rowMajor p.inChannels p.inputRows p.inputCols b c y z := by
  rw [rowMajor]
  ring

/-- The place of the channels of a prepared NHWC input. -/
theorem place_channels (p : Problem) (b y z : Nat) :
    b * p.inputRows * p.inputCols * p.inChannels + (y * p.inputCols + z) * p.inChannels =
      rowMajor p.inputRows p.inputCols p.inChannels b y z 0 := by
  rw [rowMajor]
  ring

/-- The buffer shows the weight `w`, given by filter, channel, row and column. -/
def HoldsWeight (p : Problem) (layout : Layout) (data : Array α)
    (w : Nat → Nat → Nat → Nat → α) : Prop :=
  match layout with
  | .nchw => Holds data p.outChannels p.inChannels p.kernel p.kernel w
  | .nhwc => Holds data p.outChannels p.kernel p.kernel p.inChannels fun f kh kw c => w f c kh kw

/-- The weight as a matrix with a row per filter and a column per tap. -/
theorem HoldsWeight.rows {p : Problem} {layout : Layout} {data : Array α}
    {w : Nat → Nat → Nat → Nat → α} (h : p.HoldsWeight layout data w) :
    HoldsRows data p.outChannels p.patchSize fun f i => (p.tapAt layout i).weight w f := by
  cases layout with
  | nchw =>
      constructor
      · rw [Holds.size_eq h, patchSize]
        ring
      · intro f hf i hi
        rcases hasTap_tapAt .nchw hi with ⟨hchannel, hrow, hcol⟩
        have hindex := p.tapIndex_tapAt .nchw i
        generalize p.tapAt .nchw i = t at hindex hchannel hrow hcol ⊢
        have hplace : f * p.patchSize + i =
            rowMajor p.inChannels p.kernel p.kernel f t.channel t.row t.col := by
          rw [← hindex, tapIndex, rowMajor, patchSize]
          ring
        rw [hplace]
        exact Holds.getElem?_eq h f hf _ hchannel _ hrow _ hcol
  | nhwc =>
      constructor
      · rw [Holds.size_eq h, patchSize]
        ring
      · intro f hf i hi
        rcases hasTap_tapAt .nhwc hi with ⟨hchannel, hrow, hcol⟩
        have hindex := p.tapIndex_tapAt .nhwc i
        generalize p.tapAt .nhwc i = t at hindex hchannel hrow hcol ⊢
        have hplace : f * p.patchSize + i =
            rowMajor p.kernel p.kernel p.inChannels f t.row t.col t.channel := by
          rw [← hindex, tapIndex, rowMajor, patchSize]
          ring
        rw [hplace]
        exact Holds.getElem?_eq h f hf _ hrow _ hcol _ hchannel

theorem HoldsWeight.slice_filter {p : Problem} {layout : Layout} {data : Array α}
    {w : Nat → Nat → Nat → Nat → α} (h : p.HoldsWeight layout data w) {f : Nat}
    (hf : f < p.outChannels) :
    slice data (f * p.patchSize) p.patchSize =
      .ok (tabulate p.patchSize fun i => (p.tapAt layout i).weight w f) :=
  h.rows.slice_row hf

end Problem

end ConvSweep
