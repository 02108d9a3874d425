import Mathlib
import ConvSweep.Conv.Patches
import ConvSweep.Proofs.Conv.Taps

/-!
# Patches hold the samples

After an expansion every cell of the scratch tensor is the sample under its tap,
or zero where the tap lies outside.  The new cells depend on the problem and the
input only: nothing of the old contents remains, and the schedule does not show.
-/

namespace ConvSweep

open BufferM Loop

variable {α : Type} [Zero α]

namespace Problem

/-- The patch of an output position, in the order of an axis order. -/
def patch (p : Problem) (layout : Layout) (x : Nat → Nat → Nat → Nat → α) (b oh ow i : Nat) : α :=
  (p.sample? x b oh ow (p.tapAt layout i)).getD 0

theorem patch_tapIndex {p : Problem} {layout : Layout} {x : Nat → Nat → Nat → Nat → α}
    {b oh ow : Nat} {t : Tap} (ht : p.HasTap t) :
    p.patch layout x b oh ow (p.tapIndex layout t) = (p.sample? x b oh ow t).getD 0 := by
  rw [patch, tapAt_tapIndex layout ht]

/-!
## One patch
-/

section

variable {p : Problem} {input : Array α} {x : Nat → Nat → Nat → Nat → α} {b oh ow : Nat}

/-- Behind an inline border the sample of each tap is stored on its own. -/
theorem puts_tap (hx : p.HoldsInput .nchw input x) (hb : b < p.batch) {c kh kw : Nat}
    (hc : c < p.inChannels) {len i : Nat} (hi : i < len) {f : Nat → α}
    (hf : f i = (p.sample? x b oh ow ⟨c, kh, kw⟩).getD 0) :
    Puts (match source? p.halo p.inputRows oh kh, source? p.halo p.inputCols ow kw with
      | some ih, some iw => do
          let x ← fetch input (b * p.inChannels * (p.inputRows * p.inputCols) +
            c * (p.inputRows * p.inputCols) + ih * p.inputCols + iw)
          BufferM.write i x
      | _, _ => BufferM.write i 0 : BufferM α len Unit) (fun j => j = i) f := by
  cases hrow : source? p.halo p.inputRows oh kh with
  | none =>
      apply puts_write hi
      rw [hf, sample?_of_row_none hrow]
      rfl
  | some ih =>
      cases hcol : source? p.halo p.inputCols ow kw with
      | none =>
          apply puts_write hi
          rw [hf, sample?_of_col_none hcol]
          rfl
      | some iw =>
          have hfetch := Holds.fetch_eq hx hb hc (source?_lt hrow) (source?_lt hcol)
            (p.place_plane b c ih iw)
          dsimp only
          rw [lift_bind hfetch]
          apply puts_write hi
          rw [hf, sample?_of_source? hrow hcol]
          rfl

/-- Without an inline border the samples of a kernel row lie side by side in the input. -/
theorem puts_kernelRow (hp : p.Expandable) (hpad : p.padding ≠ .inline)
    (hx : p.HoldsInput .nchw input x) (hb : b < p.batch) (hoh : oh < p.outRows)
    (how : ow < p.outCols) {c kh : Nat} (hc : c < p.inChannels) (hkh : kh < p.kernel)
    {len start : Nat} (hfit : start + p.kernel ≤ len) {f : Nat → α}
    (hf : ∀ kw < p.kernel, f (start + kw) = (p.sample? x b oh ow ⟨c, kh, kw⟩).getD 0) :
    Puts (do
      let xs ← slice input (b * p.inChannels * (p.inputRows * p.inputCols) +
        c * (p.inputRows * p.inputCols) + (oh + kh) * p.inputCols + ow) p.kernel
      BufferM.onSlice start p.kernel (BufferM.copyFrom xs) : BufferM α len Unit)
      (fun j => start ≤ j ∧ j < start + p.kernel) f := by
  have hkernel := hp.kernel_pos
  have hlast : ow + (p.kernel - 1) < p.inputCols :=
    hp.col_lt hpad how (Nat.sub_one_lt (by omega))
  have hslice := Holds.slice_eq hx hb hc (hp.row_lt hpad hoh hkh) (by omega) hkernel
    (p.place_plane b c (oh + kh) ow)
  rw [lift_bind hslice]
  apply Fills.puts_onSlice hfit
  apply fills_copyFrom (size_tabulate _ _)
  intro kw hkw
  rw [size_tabulate] at hkw
  rw [getElem_tabulate, hf kw hkw, sample?_of_source? (hp.source?_row hpad hoh hkh)
    (hp.source?_col hpad how hkw)]
  rfl

theorem fills_copyPatchChw (hp : p.Expandable) (hx : p.HoldsInput .nchw input x)
    (hb : b < p.batch) (hoh : oh < p.outRows) (how : ow < p.outCols) :
    Fills (p.copyPatchChw input (b * p.inChannels * (p.inputRows * p.inputCols)) oh ow :
        BufferM α p.patchSize Unit) (p.patch .nchw x b oh ow) := by
  apply Puts.fills (S := fun i => ∃ c, c < p.inChannels ∧ ∃ kh, kh < p.kernel ∧
    ((c * p.kernel + kh) * p.kernel ≤ i ∧ i < (c * p.kernel + kh) * p.kernel + p.kernel))
  · apply puts_forRange_zero
    intro c hc
    apply puts_forRange_zero
    intro kh hkh
    have hfit : (c * p.kernel + kh) * p.kernel + p.kernel ≤ p.patchSize := by
      rw [patchSize]
      exact mul_add_le p.kernel (add_mul_lt hc hkh)
    have hcell : ∀ kw < p.kernel, p.patch .nchw x b oh ow ((c * p.kernel + kh) * p.kernel + kw) =
        (p.sample? x b oh ow ⟨c, kh, kw⟩).getD 0 := by
      intro kw hkw
      have htap : p.HasTap ⟨c, kh, kw⟩ := ⟨hc, hkh, hkw⟩
      exact patch_tapIndex htap
    by_cases hpad : p.padding = .inline
    · rw [if_pos hpad]
      apply puts_stretch
      intro kw hkw
      exact puts_tap hx hb hc (by omega) (hcell kw hkw)
    · rw [if_neg hpad]
      exact puts_kernelRow hp hpad hx hb hoh how hc hkh hfit hcell
  · -- every place of the patch belongs to the kernel row that its number names
    intro i hi
    have hrow := div_lt_of_lt_mul hi
    refine ⟨i / p.kernel / p.kernel, div_lt_of_lt_mul hrow, i / p.kernel % p.kernel,
      mod_lt_of_lt_mul hrow, ?_⟩
    have hmod := mod_lt_of_lt_mul hi
    have hdiv := Nat.div_add_mod' i p.kernel
    rw [Nat.div_add_mod']
    omega

/-- The channels under one tap lie side by side in an NHWC input. -/
theorem fills_channels (hp : p.Expandable) (hx : p.HoldsInput .nhwc input x) (hb : b < p.batch)
    {kh kw ih iw start : Nat} (hrow : source? p.halo p.inputRows oh kh = some ih)
    (hcol : source? p.halo p.inputCols ow kw = some iw)
    (hstart : start = b * p.inputRows * p.inputCols * p.inChannels +
      (ih * p.inputCols + iw) * p.inChannels) :
    Fills (do
      let xs ← slice input start p.inChannels
      BufferM.copyFrom xs : BufferM α p.inChannels Unit)
      (fun c => (p.sample? x b oh ow ⟨c, kh, kw⟩).getD 0) := by
  have hplace := hstart.trans (p.place_channels b ih iw)
  have hslice := Holds.slice_eq hx hb (source?_lt hrow) (source?_lt hcol)
    (Nat.le_of_eq (Nat.zero_add _)) hp.inChannels_pos hplace
  rw [lift_bind hslice]
  apply fills_copyFrom (size_tabulate _ _)
  intro c hc
  rw [getElem_tabulate, sample?_of_source? hrow hcol, Nat.zero_add]
  rfl

theorem fills_copyPatchHwc (hp : p.Expandable) (hx : p.HoldsInput .nhwc input x)
    (hb : b < p.batch) (hoh : oh < p.outRows) (how : ow < p.outCols) :
    Fills (p.copyPatchHwc input (b * p.inputRows * p.inputCols * p.inChannels) oh ow :
        BufferM α p.patchSize Unit) (p.patch .nhwc x b oh ow) := by
  apply Puts.fills (S := fun i => ∃ kh, kh < p.kernel ∧ ∃ kw, kw < p.kernel ∧
    ((kh * p.kernel + kw) * p.inChannels ≤ i ∧
      i < (kh * p.kernel + kw) * p.inChannels + p.inChannels))
  · apply puts_forRange_zero
    intro kh hkh
    apply puts_forRange_zero
    intro kw hkw
    have hfit : (kh * p.kernel + kw) * p.inChannels + p.inChannels ≤ p.patchSize := by
      rw [patchSize_eq]
      exact mul_add_le p.inChannels (add_mul_lt hkh hkw)
    apply Fills.puts_onSlice hfit
    apply Fills.congr (f := fun c => (p.sample? x b oh ow ⟨c, kh, kw⟩).getD 0)
    · by_cases hpad : p.padding = .inline
      · rw [if_pos hpad]
        cases hrow : source? p.halo p.inputRows oh kh with
        | none =>
            apply (fills_fill 0).congr
            intro c _
            rw [sample?_of_row_none hrow]
            rfl
        | some ih =>
            cases hcol : source? p.halo p.inputCols ow kw with
            | none =>
                apply (fills_fill 0).congr
                intro c _
                rw [sample?_of_col_none hcol]
                rfl
            | some iw =>
                exact fills_channels hp hx hb hrow hcol rfl
      · rw [if_neg hpad]
        apply fills_channels hp hx hb (hp.source?_row hpad hoh hkh) (hp.source?_col hpad how hkw)
        rw [Nat.add_assoc ((oh + kh) * p.inputCols)]
    · intro c hc
      have htap : p.HasTap ⟨c, kh, kw⟩ := ⟨hc, hkh, hkw⟩
      exact (patch_tapIndex htap).symm
  · -- every place of the patch belongs to the channels under one tap
    intro i hi
    rw [patchSize_eq] at hi
    have htap := div_lt_of_lt_mul hi
    refine ⟨i / p.inChannels / p.kernel, div_lt_of_lt_mul htap, i / p.inChannels % p.kernel,
      mod_lt_of_lt_mul htap, ?_⟩
    have hmod := mod_lt_of_lt_mul hi
    have hdiv := Nat.div_add_mod' i p.inChannels
    rw [Nat.div_add_mod']
    omega

/-!
## One tap along an output row
-/

theorem fills_copyTapRow (hp : p.Expandable) (hx : p.HoldsInput .nchw input x)
    (hb : b < p.batch) (hoh : oh < p.outRows) {t : Tap} (ht : p.HasTap t) :
    Fills (p.copyTapRow input (b * p.inChannels * (p.inputRows * p.inputCols) +
        t.channel * (p.inputRows * p.inputCols)) oh t.row t.col : BufferM α p.outCols Unit)
      (fun ow => (p.sample? x b oh ow t).getD 0) := by
  rcases ht with ⟨hchannel, hkh, hkw⟩
  unfold copyTapRow
  by_cases hpad : p.padding = .inline
  · rw [if_pos hpad]
    cases hrow : source? p.halo p.inputRows oh t.row with
    | none =>
        apply (fills_fill 0).congr
        intro ow _
        rw [sample?_of_row_none hrow]
        rfl
    | some ih =>
        apply Puts.fills (S := fun i => 0 ≤ i ∧ i < 0 + p.outCols)
        · apply puts_stretch
          intro ow how
          rw [Nat.zero_add]
          cases hcol : source? p.halo p.inputCols ow t.col with
          | none =>
              apply puts_write how
              rw [sample?_of_col_none hcol]
              rfl
          | some iw =>
              have hfetch := Holds.fetch_eq hx hb hchannel (source?_lt hrow) (source?_lt hcol)
                (p.place_plane b t.channel ih iw)
              dsimp only
              rw [lift_bind hfetch]
              apply puts_write how
              rw [sample?_of_source? hrow hcol]
              rfl
        · intro i hi
          exact ⟨Nat.zero_le i, by omega⟩
  · rw [if_neg hpad]
    have hcols := hp.outCols_pos
    have hlast : p.outCols - 1 + t.col < p.inputCols :=
      hp.col_lt hpad (Nat.sub_one_lt (by omega)) hkw
    have hslice := Holds.slice_eq hx hb hchannel (hp.row_lt hpad hoh hkh) (by omega) hcols
      (p.place_plane b t.channel (oh + t.row) t.col)
    rw [lift_bind hslice]
    apply fills_copyFrom (size_tabulate _ _)
    intro ow how
    rw [size_tabulate] at how
    rw [getElem_tabulate, sample?_of_source? (hp.source?_row hpad hoh hkh)
      (hp.source?_col hpad how hkw), Nat.add_comm t.col]
    rfl

end

/-!
## One batch element
-/

omit [Zero α] in
theorem fills_forPatches {p : Problem} {copy : Nat → Nat → BufferM α p.patchSize Unit}
    {f : Nat → α}
    (h : ∀ oh < p.outRows, ∀ ow < p.outCols,
      Fills (copy oh ow) fun i => f ((oh * p.outCols + ow) * p.patchSize + i)) :
    Fills (p.forPatches copy : BufferM α (p.outPixels * p.patchSize) Unit) f := by
  apply Puts.fills
  · apply puts_forRange_zero
    intro oh hoh
    apply puts_forRange_zero
    intro ow how
    apply Fills.puts_onSlice
    · rw [outPixels]
      exact mul_add_le p.patchSize (add_mul_lt hoh how)
    · exact h oh hoh ow how
  · intro i hi
    have hpixel := div_lt_of_lt_mul hi
    rw [outPixels] at hpixel
    have hmod := mod_lt_of_lt_mul hi
    have hdiv := Nat.div_add_mod' i p.patchSize
    refine ⟨i / p.patchSize / p.outCols, div_lt_of_lt_mul hpixel, i / p.patchSize % p.outCols,
      mod_lt_of_lt_mul hpixel, ?_⟩
    rw [Nat.div_add_mod']
    omega

theorem fills_copyChannels {p : Problem} {input : Array α} {x : Nat → Nat → Nat → Nat → α}
    {b : Nat} (hp : p.Expandable) (hx : p.HoldsInput .nchw input x) (hb : b < p.batch)
    {f : Nat → α}
    (h : ∀ i < p.patchSize, ∀ oh < p.outRows, ∀ ow < p.outCols,
      p.patch .nchw x b oh ow i = f (i * p.outPixels + oh * p.outCols + ow)) :
    Fills (p.copyChannels input (b * p.inChannels * (p.inputRows * p.inputCols)) :
      BufferM α (p.outPixels * p.patchSize) Unit) f := by
  apply Puts.fills
  · apply puts_forRange_zero
    intro c hc
    apply puts_forRange_zero
    intro kh hkh
    apply puts_forRange_zero
    intro kw hkw
    apply puts_forRange_zero
    intro oh hoh
    have htap : p.HasTap ⟨c, kh, kw⟩ := ⟨hc, hkh, hkw⟩
    have hrow : ((c * p.kernel + kh) * p.kernel + kw) < p.patchSize := tapIndex_lt .nchw htap
    apply Fills.puts_onSlice
    · have hlast := mul_add_le p.outPixels hrow
      have hpixels := mul_add_le p.outCols hoh
      rw [← outPixels] at hpixels
      rw [Nat.mul_comm p.outPixels]
      omega
    · apply (fills_copyTapRow hp hx hb hoh htap).congr
      intro ow how
      rw [← h _ hrow oh hoh ow how]
      exact (patch_tapIndex htap).symm
  · intro i hi
    rw [Nat.mul_comm p.outPixels] at hi
    have htap := div_lt_of_lt_mul hi
    have hpixel := mod_lt_of_lt_mul hi
    have hchannel := hasTap_tapAt .nchw htap
    have hindex := p.tapIndex_tapAt .nchw (i / p.outPixels)
    refine ⟨_, hchannel.1, _, hchannel.2.1, _, hchannel.2.2, i % p.outPixels / p.outCols,
      div_lt_of_lt_mul hpixel, ?_⟩
    rw [tapIndex] at hindex
    have hsplit := Nat.div_add_mod' i p.outPixels
    have hcol := Nat.div_add_mod' (i % p.outPixels) p.outCols
    have hmod : i % p.outPixels % p.outCols < p.outCols := mod_lt_of_lt_mul hpixel
    rw [hindex]
    omega

end Problem

/-!
## Whole scratch tensors
-/

namespace PatchOrder

/-- The axis order of the input that is copied from. -/
def source : PatchOrder → Layout
  | pixelHwc => .nhwc
  | pixelChw => .nchw
  | channelMajor => .nchw

/-- The cells of a filled scratch tensor. -/
def cells (order : PatchOrder) (p : Problem) (x : Nat → Nat → Nat → Nat → α) : Nat → α :=
  match order with
  | pixelChw => spread p.outRows p.outCols p.patchSize (p.patch .nchw x)
  | pixelHwc => spread p.outRows p.outCols p.patchSize (p.patch .nhwc x)
  | channelMajor =>
      spread p.patchSize p.outRows p.outCols fun b i oh ow => p.patch .nchw x b oh ow i

theorem prod_dims (order : PatchOrder) (p : Problem) :
    (order.dims p).prod = p.batch * (p.outPixels * p.patchSize) := by
  cases order <;> simp only [dims, List.prod_cons, List.prod_nil, Problem.outPixels,
    Problem.patchSize] <;> ring

/-- The place of a pixel's tap, counted from the first batch element. -/
theorem place_pixel (p : Problem) (b oh ow i : Nat) :
    b * (p.outPixels * p.patchSize) + ((oh * p.outCols + ow) * p.patchSize + i) =
      rowMajor p.outRows p.outCols p.patchSize b oh ow i := by
  rw [rowMajor, Problem.outPixels]
  ring

theorem fills_task {order : PatchOrder} {p : Problem} {input : Array α}
    {x : Nat → Nat → Nat → Nat → α} {b : Nat} (hp : p.Expandable)
    (hx : p.HoldsInput order.source input x) (hb : b < p.batch) :
    Fills (order.task p input b (p.outPixels * p.patchSize))
      (fun j => order.cells p x (b * (p.outPixels * p.patchSize) + j)) := by
  cases order with
  | pixelChw =>
      apply Problem.fills_forPatches
      intro oh hoh ow how
      apply (Problem.fills_copyPatchChw hp hx hb hoh how).congr
      intro i hi
      rw [place_pixel, cells, spread_rowMajor hoh how hi]
  | pixelHwc =>
      apply Problem.fills_forPatches
      intro oh hoh ow how
      apply (Problem.fills_copyPatchHwc hp hx hb hoh how).congr
      intro i hi
      rw [place_pixel, cells, spread_rowMajor hoh how hi]
  | channelMajor =>
      apply Problem.fills_copyChannels hp hx hb
      intro i hi oh hoh ow how
      have hplace : b * (p.outPixels * p.patchSize) + (i * p.outPixels + oh * p.outCols + ow) =
          rowMajor p.patchSize p.outRows p.outCols b i oh ow := by
        rw [rowMajor, Problem.outPixels]
        ring
      rw [hplace, cells, spread_rowMajor hi hoh how]

end PatchOrder

theorem ExtentPattern.admits_exactly {wanted sizes : List Nat}
    (hlength : wanted.length = sizes.length) :
    (List.zipWith admits (wanted.map .exactly) sizes).all id = true ↔ sizes = wanted := by
  induction wanted generalizing sizes with
  | nil =>
      rw [List.length_eq_zero_iff.mp hlength.symm]
      simp
  | cons extent rest ih =>
      cases sizes with
      | nil =>
          cases hlength
      | cons size sizes =>
          rw [List.map_cons, List.zipWith_cons_cons, List.all_cons, Bool.and_eq_true,
            ih (Nat.succ.inj hlength), List.cons.injEq]
          exact and_congr_left' (beq_iff_eq.trans eq_comm)

/-- Exact patterns admit one list of extents. -/
theorem Shape.validate_exactly_iff {shape : Shape} {dims : List Nat} :
    shape.validate (dims.map .exactly) = true ↔ shape.dims = dims := by
  rw [validate, Bool.and_eq_true, beq_iff_eq, List.length_map]
  constructor
  · rintro ⟨hlength, hadmits⟩
    exact (ExtentPattern.admits_exactly hlength).mp hadmits
  · intro hdims
    have hlength : dims.length = shape.dims.length := by
      rw [hdims]
    exact ⟨hlength, (ExtentPattern.admits_exactly hlength).mpr hdims⟩

namespace PatchBuffer

/-- The scratch buffer belongs to an order and a problem. -/
structure Fits (buffer : PatchBuffer α) (order : PatchOrder) (p : Problem) : Prop where
  order_eq : buffer.order = order
  problem_eq : buffer.problem = p
  dims_eq : buffer.patches.dims = order.dims p
  fits_memory : p.batch * (p.outPixels * p.patchSize) < Size.bufferLimit

omit [Zero α] in
theorem Fits.total_eq {buffer : PatchBuffer α} {order : PatchOrder} {p : Problem}
    (h : buffer.Fits order p) :
    buffer.patches.shape.total = p.batch * (p.outPixels * p.patchSize) := by
  rw [Shape.total_eq_prod, ← PatchOrder.prod_dims order, ← h.dims_eq]
  rfl

omit [Zero α] in
theorem Fits.size_eq {buffer : PatchBuffer α} {order : PatchOrder} {p : Problem}
    (h : buffer.Fits order p) :
    buffer.patches.data.size = p.batch * (p.outPixels * p.patchSize) := by
  rw [buffer.patches.size_eq, h.total_eq]

theorem fits_of_create {order : PatchOrder} {p : Problem} {buffer : PatchBuffer α}
    (h : create order p = .ok buffer) : buffer.Fits order p := by
  rcases fault_step h with ⟨_, _, h⟩
  rcases bind_eq_ok h with ⟨patches, hpatches, h⟩
  cases h
  rcases Tensor.zeros_ok hpatches with ⟨hdims, hlt⟩
  rw [PatchOrder.prod_dims] at hlt
  exact ⟨rfl, rfl, hdims, hlt⟩

/-- A scratch tensor that fits memory in one axis order does so in every other. -/
theorem exists_create {p : Problem} (order : PatchOrder) (hp : p.Expandable) (hfits : p.OutputFits)
    (hlt : p.batch * (p.outPixels * p.patchSize) < Size.bufferLimit) :
    ∃ buffer : PatchBuffer α, create order p = .ok buffer := by
  have hbatch := hp.batch_pos
  have hrows := hp.outRows_pos
  have hcols := hp.outCols_pos
  have hchannels := hp.inChannels_pos
  have hkernel := hp.kernel_pos
  have hnil : order.dims p ≠ [] := by
    cases order <;> simp [PatchOrder.dims]
  have hpos : 0 ∉ order.dims p := by
    cases order <;> simp [PatchOrder.dims] <;> omega
  rw [← PatchOrder.prod_dims order] at hlt
  rcases Tensor.zeros_of_prod (α := α) hnil hpos hlt with ⟨shape, _, hzeros⟩
  refine ⟨⟨order, p, .constant shape 0⟩, ?_⟩
  rw [create, check_of .overflow hfits, fault_ok_bind, hzeros]
  rfl

/-- The scratch buffer after the expansion of an input. -/
def filled (buffer : PatchBuffer α) (x : Nat → Nat → Nat → Nat → α) : PatchBuffer α :=
  { buffer with
    patches := .ofCells buffer.patches.shape (buffer.order.cells buffer.problem x) }

theorem Fits.filled {buffer : PatchBuffer α} {order : PatchOrder} {p : Problem}
    (h : buffer.Fits order p) (x : Nat → Nat → Nat → Nat → α) :
    (buffer.filled x).Fits order p :=
  ⟨h.order_eq, h.problem_eq, h.dims_eq, h.fits_memory⟩

/-- An expansion succeeds and overwrites every cell. -/
theorem Fits.expand_ok {buffer : PatchBuffer α} {order : PatchOrder} {p : Problem}
    {input : Tensor α} {x : Nat → Nat → Nat → Nat → α} (h : buffer.Fits order p)
    (schedule : Schedule) (hp : p.Expandable) (hinput : input.dims = order.inputDims p)
    (hx : p.HoldsInput order.source input.data x) :
    buffer.expand schedule input = .ok (buffer.filled x) := by
  have hsize := h.total_eq
  rcases h with ⟨horder, hproblem, _, _⟩
  subst horder hproblem
  have hchunk := Nat.mul_pos hp.outPixels_pos hp.patchSize_pos
  have hfills : Fills _ _ :=
    fills_onChunks schedule hchunk hsize fun b hb => PatchOrder.fills_task hp hx hb
  unfold expand
  dsimp only
  rw [if_pos (Shape.validate_exactly_iff.mpr hinput), Tensor.update_fills hfills]
  rfl

end PatchBuffer
end ConvSweep
